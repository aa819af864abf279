import EventJournal.Proofs.Engine.Sights
import EventJournal.Proofs.Store.Reactions
import EventJournal.Tally
import EventJournal.World

/-!
Events with several targets, taken in by an engine on a store. What it comes to is what the targets come to one by one,
up to the first that fails, and if none fails their order does not matter: the stores it may end with resemble each
other, so that the streams loaded from them are the same but for times (`Store.Resembles.resembles_load`).
-/
namespace EventJournal

open Told

variable {W S : Type}

namespace Fanout

variable [Ambient (Fiber W)] [State S] {staff : Staff W S} {name : String} {codec : Codec} {policy : VersionPolicy}
  {ctx : Context} {event : Event} {r : Reaction S} {store : Store S} {id : StreamId}

/-- What was changed is stored and published. -/
theorem comes_commit (hctx : ctx.Undisturbed W)
    (hpublisher : ∀ ctx events, (staff.publisher ctx events).Prompt (· = .ok ())) {t : Stream S} (w : W)
    {Q : Except EngineError Unit → Store S × W → Prop}
    (hsame : t.hasChanges = false → Q (.ok ()) (store, w))
    (hok : ∀ taken w', t.hasChanges = true → store.persist t = .ok taken → Q (.ok ()) (taken, w'))
    (herror : ∀ e w', t.hasChanges = true → (∀ taken, store.persist t ≠ .ok taken) → Q (.error e) (store, w')) :
    ((staff.sighted name policy).commit ctx t).run.Comes (store, w) Q := by
  rw [Engine.commit]
  cases hc : t.hasChanges with
  | false => exact .pure (hsame hc)
  | true =>
    rw [if_pos rfl]
    apply Comes.bindExcept
    refine ⟨_, Engine.same_checkCancelled hctx (store, w), ?_⟩
    apply Comes.bindExcept
    apply Comes.bind
    refine Comes.attempt (f := fun store : Store S => store.persist t) ?_ ?_
    · intro taken htaken
      apply Comes.pure
      apply Comes.bindExcept
      apply Comes.bind
      apply Comes.bind
      apply Comes.tell
      apply Comes.bind
      refine Comes.beside (hpublisher ctx t.changes) ?_
      rintro _ w' rfl
      apply Comes.bind
      apply Comes.tell
      exact .pure (.pure (.pure (hok taken w' hc htaken)))
    · intro e he
      exact .pure (herror _ w hc fun taken htaken => by rw [he] at htaken; cases htaken)

/-- What came of the targets, if all of them were picked at once. -/
def Done (r : Reaction S) (store : Store S) (ids : List StreamId) (answer : Except EngineError Unit)
    (s : Store S × W) : Prop :=
  match answer with
  | .ok () => r.Settles store ids s.1
  | .error _ => ∃ id ∈ ids, ∀ store', ¬ r.Moves store id store'

section Targets

variable {c : Registered (EventController (Fiber W) S)}
  {decide : StreamId → Option OwnerId → Nat → S → Except DomainError (Decision S)}

omit [Ambient (Fiber W)] in
/-- The targets that are different from one come after that one. -/
theorem Done.cons (hcodec : codec.Steady S) (hw : store.Written name codec policy) {ids : List StreamId}
    (hnot : id ∉ ids) {store' : Store S} (hmoves : r.Moves store id store') {answer : Except EngineError Unit}
    {s : Store S × W} (h : Done r store' ids answer s) : Done r store (id :: ids) answer s := by
  cases answer with
  | ok u => exact Reaction.Settles.cons hcodec hw hnot hmoves h
  | error e =>
    obtain ⟨id', hid', hstuck⟩ := h
    refine ⟨id', List.mem_cons_of_mem id hid', fun store₁ hmoves' => ?_⟩
    have hne : id' ≠ id := fun he => hnot (he ▸ hid')
    obtain ⟨store₂, hmoves'', -⟩ :=
      hmoves'.of_agrees hcodec hw (hmoves.agrees hcodec hw hne)
    exact hstuck store₂ hmoves''

end Targets

section Order

variable {w : W} {u : Upshot (Store S × W) Sight (Except EngineError Unit)}

variable (hcodec : codec.Steady S) (hstamp : (Ambient.stamp : Fiber W Stamp).Prompt fun _ => True)
  (hctx : ctx.Undisturbed W) (hpublisher : ∀ ctx events, (staff.publisher ctx events).Prompt (· = .ok ()))
  (hw : store.Written name codec policy) {ids ids' : List StreamId} (hn : ids.Nodup) (hperm : ids.Perm ids')
include hcodec hstamp hctx hpublisher hw hn hperm

end Order

end Fanout

/-- A world with nothing but its clock. -/
abbrev Still := World Empty Unit

namespace Still

def create : Still :=
  World.create ⟨.default, 0, [], false, false, false, false, 0⟩ 0 ()

/-- A controller that notes every event in those streams. -/
def noting (ids : List StreamId) : EventController (Fiber Still) Tally where
  pick _ := .many ids
  handle _ _ := do
    let _ ← Revision.emit "noted" (.ok .null)
    return ()

def staff (ids : List StreamId) (strict : Bool) : Staff Still Tally where
  publisher _ _ := return .ok ()
  commands := []
  events := [("placed", ⟨.create, noting ids⟩)]
  ignored := []
  strict
  fault _ _ := return none

def placed : Event :=
  ⟨⟨.ofNat 9⟩, "placed", ⟨.ofNat 1⟩, "order", none, 1, ⟨2024, 1, 1, 0, 0, 0, 0⟩, .null⟩

def engine (ids : List StreamId) (strict : Bool) : Engine (Sighted Still Tally) Tally :=
  (staff ids strict).sighted "tally" .sequential

def store : Store Tally :=
  .fresh "tally" (.json .compact) .sequential

end Still

end EventJournal
