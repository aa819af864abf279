import EventJournal.Proofs.Relay.Queue
import EventJournal.Proofs.Store.Journal
import Mathlib.Data.List.Forall2

/-!
What comes of the passes of a relay. A pass delivers the oldest batches in order and stops at the first that is refused,
or when it is cancelled; exactly the delivered ones have left then. Passes without such trouble empty the outbox.
-/
namespace EventJournal

open History Passage

variable {W S α β : Type}

namespace Haul

/-- What is known of the relay when it has ended: the accounts of its passes. -/
def Settled (count i : Nat) (a : Return) (h : List (Nat × Passage)) : Prop :=
  i = 0 → ∃ results tales, a = some results ∧ results.length = count ∧ own 0 h = tales.flatten ∧
    List.Forall₂ Account results tales

/-- The relay and those who record mind the queue. -/
def accord (first : List PendingBatch) (limit count : Nat) : Accord (Store S × W) Passage Return (W → W) where
  toRules := rules
  known _ _ := True
  inv s h := Queue first limit s.1.outbox h
  rely i _ h _ h' := own i h' = own i h
  ended i a _ h := Settled count i a h

variable {first : List PendingBatch} {limit count : Nat}

theorem lawful (first : List PendingBatch) (limit count : Nat) :
    (accord first limit count : Accord (Store S × W) Passage Return (W → W)).Lawful where
  refl _ _ _ := rfl
  trans _ _ _ _ _ _ _ ho ho' := Eq.trans ho' ho
  note i j n s h hj := by
    change own i (h ++ [(j, n)]) = own i h
    have hother : own i [(j, n)] = [] := own_told_other (Ne.symm hj) [n]
    rw [own_append, hother, List.append_nil]
  stable i a s h s' h' hs ho := by
    rintro rfl
    have ho' : own 0 h' = own 0 h := ho
    rw [ho']
    exact hs rfl
  outside _ _ _ hq := ⟨hq, fun _ => rfl⟩
  call _ _ _ _ _ _ hc := by cases hc
  again _ _ ha := by cases ha

variable {i : Nat} {s : Store S × W} {h : List (Nat × Passage)}

/-- Safe under the accord of one relay. -/
abbrev Minds (first : List PendingBatch) (limit count i : Nat) (post : α → Store S × W → List (Nat × Passage) → Prop)
    (t : Haul W S α) (s : Store S × W) (h : List (Nat × Passage)) : Prop :=
  (accord first limit count).Safe i post t s h

theorem minds_beside {t : Fiber W α} {post : α → Store S × W → List (Nat × Passage) → Prop}
    (hq : Queue first limit s.1.outbox h)
    (hpost : ∀ a s' h', Queue first limit s'.1.outbox h' → own i h' = own i h → post a s' h') :
    Minds first limit count i post (Told.beside t) s h := by
  induction t generalizing s h with
  | done a => exact hpost a s h hq rfl
  | act ready effect next ih =>
    refine fun _ => ⟨hq, fun s' h' _ hq' ho _ => ⟨fun _ _ => rfl, ?_⟩⟩
    have hwatch : (accord first limit count).watch s' (s'.1, effect s'.2) = [] := seen_self s'.1.outbox.batches
    rw [hwatch, append_told_nil]
    apply ih s'.2 (s := (s'.1, effect s'.2)) hq'
    exact fun a s'' h'' hq'' ho' => hpost a s'' h'' hq'' (Eq.trans ho' ho)

/-- An act on the store, in whatever state it finds it. -/
theorem minds_act {f : Store S → α × Store S} {post : α → Store S × W → List (Nat × Passage) → Prop}
    (hq : Queue first limit s.1.outbox h)
    (hpost : ∀ (s' : Store S × W) h', Queue first limit s'.1.outbox h' → own i h' = own i h →
      post (f s'.1).1 ((f s'.1).2, s'.2) (h' ++ told i (seen s'.1.outbox.batches (f s'.1).2.outbox.batches))) :
    Minds first limit count i post (Told.kept.act f) s h :=
  fun _ => ⟨hq, fun s' h' _ hq' ho _ => ⟨fun _ _ => rfl, hpost s' h' hq' ho⟩⟩

theorem minds_isCancelled [Ambient (Fiber W)] {ctx : Context}
    {post : Bool → Store S × W → List (Nat × Passage) → Prop} (hq : Queue first limit s.1.outbox h)
    (hpost : ∀ c s' h', Queue first limit s'.1.outbox h' → own i h' = own i h ++ [.asked c] → post c s' h') :
    Minds first limit count i post (Ambient.isCancelled ctx) s h := by
  refine Accord.Safe.bind (minds_beside hq fun c s' h' hq' ho => ?_)
  apply hpost c s' _ (hq'.silent (.asked c) i)
  rw [own_concat, ho]

theorem minds_publisher {inner : Publisher (Fiber W)} {ctx : Context} {events : List Event}
    {post : Except PublishError Unit → Store S × W → List (Nat × Passage) → Prop} (hq : Queue first limit s.1.outbox h)
    (hpost : ∀ r s' h', Queue first limit s'.1.outbox h' → own i h' = own i h ++ [.handed events, .answered r] →
      post r s' h') :
    Minds first limit count i post (publisher inner ctx events) s h := by
  have hhanded := hq.silent (.handed events) i
  change Minds first limit count i post (Told.beside (inner ctx events) >>= _) s (h ++ [(i, .handed events)])
  refine Accord.Safe.bind (minds_beside hhanded fun r s' h' hq' ho => ?_)
  apply hpost r s' _ (hq'.silent (.answered r) i)
  rw [own_concat, ho, own_concat, List.append_assoc]
  rfl

theorem minds_pending {ctx : Context}
    {post : Except StorageError (List PendingBatch) → Store S × W → List (Nat × Passage) → Prop}
    (hq : Queue first limit s.1.outbox h)
    (hpost : ∀ bs s' h', Queue first limit s'.1.outbox h' → own 0 h' = own 0 h ++ [.held bs] → post (.ok bs) s' h') :
    Minds first limit count 0 post ((backlog : Backlog (Haul W S)).pending ctx limit) s h := by
  change Minds first limit count 0 post
    ((Cell.read Told.kept fun store => Except.ok (store.pending limit)) >>= _) s h
  refine Accord.Safe.bind (minds_act hq fun s' h' hq' ho => ?_)
  rw [seen_self, append_told_nil]
  apply hpost _ s' _ hq'.hold
  rw [own_concat, ho]
  rfl

/-- The relay acknowledges the first batch in its hands. -/
theorem minds_acknowledge {ctx : Context} {b : PendingBatch} {rest : List PendingBatch}
    {post : Except StorageError Unit → Store S × W → List (Nat × Passage) → Prop}
    (hq : Queue first limit s.1.outbox h) (hb : inHand (own 0 h) = b :: rest)
    (hpost : ∀ s' h', Queue first limit s'.1.outbox h' → own 0 h' = own 0 h ++ [.left b] → post (.ok ()) s' h') :
    Minds first limit count 0 post ((backlog : Backlog (Haul W S)).acknowledge ctx b.id) s h := by
  change Minds first limit count 0 post
    (Told.kept.act fun store => (Except.ok (), store.acknowledge b.id)) s h
  refine minds_act hq fun s' h' hq' ho => ?_
  have hb' : inHand (own 0 h') = b :: rest := by rw [ho, hb]
  have hseen : seen s'.1.outbox.batches (s'.1.acknowledge b.id).outbox.batches = [.left b] := hq'.seen_acknowledge hb'
  rw [hseen]
  apply hpost (_, s'.2) _ (hq'.leave hb')
  rw [own_append, own_told, ho]

theorem minds_recording [Ambient (Fiber W)] [State S] (name : String) (policy : VersionPolicy) (ctx : Context)
    (stream : Stream S) (hi : i ≠ 0) (hq : Queue first limit s.1.outbox h) :
    Minds first limit count i ((accord first limit count).Final i) (recording name policy ctx stream : Haul W S Return)
      s h := by
  have hfinal : ∀ (a : Return) (s' : Store S × W) h', Queue first limit s'.1.outbox h' →
      (accord first limit count).Final i a s' h' := fun a s' h' hq' => ⟨fun _ => hq', fun h0 => absurd h0 hi⟩
  refine Accord.Safe.bind (Accord.Safe.bind (minds_beside hq fun now s₁ h₁ hq₁ _ => ?_))
  refine Accord.Safe.bind (minds_act hq₁ fun s₂ h₂ hq₂ _ => ?_)
  by_cases hname : stream.name = s₂.1.name
  · let batch (id : Nat) : PendingBatch :=
      ⟨id, s₂.1.name, stream.id, stream.version, stream.changes, now⟩
    have hset : s₂.1.setAside stream now = .ok { s₂.1 with outbox := s₂.1.outbox.record batch } :=
      (Store.setAside_eq _ _ _).trans (if_pos hname)
    have hid : ∀ n, (batch n).id = n := fun _ => rfl
    rw [hset]
    dsimp only
    rw [hq₂.seen_record hid]
    refine Accord.Safe.bind (minds_beside (hq₂.arrive hid i) fun _ s₃ h₃ hq₃ _ => ?_)
    exact hfinal _ s₃ h₃ hq₃
  · rw [Store.setAside_eq, if_neg hname]
    dsimp only
    rw [seen_self, append_told_nil]
    exact hfinal _ s₂ h₂ hq₂

section Relay

variable [Ambient (Fiber W)] {inner : Publisher (Fiber W)} {config : RelayConfig}

/-- A relay with these batches in its hands delivers them in order until something stops it. -/
theorem minds_deliver (ctx : Context) (delivered : Nat) (batches : List PendingBatch)
    (hq : Queue first limit s.1.outbox h) (hb : inHand (own 0 h) = batches) :
    Minds first limit count 0
      (fun r s' h' => Queue first limit s'.1.outbox h' ∧ ∃ gone rest last, batches = gone ++ rest ∧
        own 0 h' = own 0 h ++ (gone.flatMap delivery ++ last) ∧ Ending (delivered + gone.length) rest last r)
      ((relay inner config : Relay (Haul W S)).deliver ctx delivered batches).run s h := by
  induction batches generalizing delivered s h with
  | nil => exact ⟨hq, [], [], [], rfl, (List.append_nil _).symm, .finished⟩
  | cons b rest ih =>
    refine Accord.Safe.bind (Accord.Safe.bind (minds_isCancelled hq fun c s₁ h₁ hq₁ ho₁ => ?_))
    cases c with
    | true => exact ⟨hq₁, [], b :: rest, [.asked true], rfl, ho₁, .cancelled b rest⟩
    | false =>
      refine Accord.Safe.bind (Accord.Safe.bind (minds_publisher hq₁ fun r s₂ h₂ hq₂ ho₂ => ?_))
      cases r with
      | error source =>
        refine ⟨hq₂, [], b :: rest, _, rfl, ?_, .refused b rest source⟩
        rw [ho₂, ho₁, List.append_assoc]
        rfl
      | ok u =>
        have hb₂ : inHand (own 0 h₂) = b :: rest := by
          rw [ho₂, ho₁, inHand_append, inHand_append, hb]
          rfl
        refine Accord.Safe.bind (Accord.Safe.bind (minds_acknowledge hq₂ hb₂ fun s₃ h₃ hq₃ ho₃ => ?_))
        have hb₃ : inHand (own 0 h₃) = rest := by
          rw [ho₃, inHand_append, hb₂]
          rfl
        refine (ih (delivered + 1) hq₃ hb₃).mono ?_
        rintro r s₄ h₄ ⟨hq₄, gone, left, last, rfl, ho₄, hend⟩
        refine ⟨hq₄, b :: gone, left, last, rfl, ?_, ?_⟩
        · rw [ho₄, ho₃, ho₂, ho₁, List.flatMap_cons]
          simp [delivery]
        · rwa [List.length_cons, Nat.add_comm gone.length, ← Nat.add_assoc]

theorem minds_pass (ctx : Context) (hlimit : config.batch = limit) (hq : Queue first limit s.1.outbox h) :
    Minds first limit count 0
      (fun r s' h' => Queue first limit s'.1.outbox h' ∧ ∃ notes, own 0 h' = own 0 h ++ notes ∧ Account r notes)
      ((relay inner config : Relay (Haul W S)).pass ctx).run s h := by
  subst hlimit
  refine Accord.Safe.bind (Accord.Safe.bind (minds_pending hq fun bs s₁ h₁ hq₁ ho₁ => ?_))
  have hb₁ : inHand (own 0 h₁) = bs := by
    rw [ho₁, inHand_append]
    rfl
  refine (minds_deliver ctx 0 bs hq₁ hb₁).mono ?_
  rintro r s₂ h₂ ⟨hq₂, gone, rest, last, rfl, ho₂, hend⟩
  rw [Nat.zero_add] at hend
  refine ⟨hq₂, _, ?_, gone, rest, last, rfl, hend⟩
  rw [ho₂, ho₁, List.append_assoc]
  rfl

theorem minds_rounds (ctxs : List Context) (hlimit : config.batch = limit) (hq : Queue first limit s.1.outbox h) :
    Minds first limit count 0
      (fun results s' h' => Queue first limit s'.1.outbox h' ∧ results.length = ctxs.length ∧
        ∃ tales, own 0 h' = own 0 h ++ tales.flatten ∧ List.Forall₂ Account results tales)
      ((relay inner config : Relay (Haul W S)).rounds ctxs) s h := by
  induction ctxs generalizing s h with
  | nil => exact ⟨hq, rfl, [], (List.append_nil _).symm, .nil⟩
  | cons ctx rest ih =>
    refine Accord.Safe.bind ((minds_pass ctx hlimit hq).mono ?_)
    rintro r s₁ h₁ ⟨hq₁, notes, ho₁, hr⟩
    refine Accord.Safe.bind ((ih hq₁).mono ?_)
    rintro results s₂ h₂ ⟨hq₂, hlength, tales, ho₂, hresults⟩
    refine ⟨hq₂, congrArg Nat.succ hlength, notes :: tales, ?_, .cons hr hresults⟩
    rw [ho₂, ho₁, List.flatten_cons, List.append_assoc]

end Relay

end Haul

end EventJournal
