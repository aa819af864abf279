import EventJournal.Proofs.Engine.Closing
import EventJournal.Proofs.Engine.Order
import EventJournal.Tally
import EventJournal.World

/-!
Calls made one after the other: commands to an engine, and passes of a relay. Each event is published at most
once, but the events of a stream do not always come out in the order of their versions: they do exactly if no
batch is redelivered that was overtaken. A stalled publisher suffices to see one come out late.
-/
namespace EventJournal

open Event History

variable {W S : Type}

namespace Call

variable [Ambient (Fiber W)] [State S]

/-- One call after the other. -/
def sequence (name : String) (policy : VersionPolicy) : List (Call W S) → Errand W S Unit
  | [] => return ()
  | call :: rest => do
    let _ ← call.errand name policy
    sequence name policy rest

/-- One job that makes the calls in turn, on a fresh store. -/
def alone (name : String) (codec : Codec) (policy : VersionPolicy) (w : W) (calls : List (Call W S)) :
    Crowd (Store S × W) Deed Unit :=
  .gather (.fresh name codec policy, w) [sequence name policy calls]

end Call

namespace Errand

section Sequence

variable [Ambient (Fiber W)] [State S] {P : Stream S → Prop} {name : String} {policy : VersionPolicy}
  {inv : Store S → List (Nat × Deed) → Prop} {ended : List Deed → Unit → Prop}
  (hu : Upheld P name policy inv)
include hu

/-- A job that owes nothing may make any calls in turn. -/
theorem safe_sequence {calls : List (Call W S)} (hk : ∀ call ∈ calls, call.Keeps P) {i : Nat}
    {s : Store S × W} {h : List (Nat × Deed)} (hb : inv s.1 h) (hd : (phase (own i h)).AtRest) :
    (pact inv ended).Safe i (fun _ s' h' => inv s'.1 h') (Call.sequence name policy calls) s h := by
  induction calls generalizing s h with
  | nil => exact hb
  | cons call rest ih =>
    refine Pact.Safe.bind ((safe_errand hu (hk call List.mem_cons_self) hb hd).mono ?_)
    rintro _ s' h' ⟨hb', hd', -⟩
    exact ih (fun c hc => hk c (List.mem_cons_of_mem call hc)) hb' hd'

/-- What every deed keeps holds wherever the calls have come to. -/
theorem holds_alone {codec : Codec} {calls : List (Call W S)} (hk : ∀ call ∈ calls, call.Keeps P)
    (hi : inv (.fresh name codec policy) []) (w : W) (moves : List (Move (W → W))) :
    (pact inv fun _ _ => True).Holds ((Call.alone name codec policy w calls).run rules moves) := by
  have hstart : (pact inv fun _ _ => True : Pact (Store S × W) Deed Unit (W → W)).inv
      (.fresh name codec policy, w) [] := hi
  refine Pact.Holds.run (lawful inv _) (Pact.Holds.gather hstart ?_) moves
  intro t ht i s h hb ho
  rw [List.mem_singleton.mp ht]
  refine (safe_sequence hu hk hb (by rw [ho]; trivial)).mono ?_
  exact fun _ s' h' hb' => ⟨hb', trivial⟩

omit hu in
/-- Who works alone is joined by nobody. -/
theorem length_jobs_alone {codec : Codec} {calls : List (Call W S)} (w : W)
    (moves : List (Move (W → W))) :
    ((Call.alone name codec policy w calls).run rules moves).jobs.length = 1 := by
  rw [Crowd.length_jobs_run fun _ => rfl]
  rfl

end Sequence

end Errand

/-- The order is kept as long as one job is the author of all deeds. -/
def Queueing (policy : VersionPolicy) (name : String) (store : Store S) (h : List (Nat × Deed)) : Prop :=
  store.policy = policy ∧
    ((∀ n ∈ h, n.1 = 0) → ∃ left, Ordered policy name store (h.map Prod.snd) left)

theorem Queueing.upheld [State S] (name : String) (policy : VersionPolicy) :
    Errand.Upheld (Stream.Sound (S := S) policy) name policy (Queueing policy name) where
  does {store store' h i d} hq hd := by
    refine ⟨hd.policy_eq.trans hq.1, ?_⟩
    intro hauthors
    have hi : i = 0 := hauthors (i, d) (by simp)
    have hold : ∀ n ∈ h, n.1 = 0 := fun n hn => hauthors n (List.mem_append_left _ hn)
    obtain ⟨left, ho⟩ := hq.2 hold
    rw [hi, own_eq_map_snd hold] at hd
    obtain ⟨left', ho'⟩ := ho.does hd
    refine ⟨left', ?_⟩
    rw [List.map_append]
    exact ho'
  load hq hs := by
    obtain ⟨hp, hc⟩ := Store.load_eq_ok hs
    exact .of_changes_nil (hp.trans hq.1) hc
  blank stamp id owner := .of_changes_nil rfl rfl

/-- Whatever commands and relay passes follow each other on a store that starts empty, and whichever of
their publications fail, no two of the published events of a stream have one version. Their versions rise
in the order of publication exactly if no batch of the stream was redelivered after it was overtaken. -/
theorem rising_accepted_iff [Ambient (Fiber W)] [State S] (name : String) (codec : Codec)
    (policy : VersionPolicy) (w : W) (calls : List (Call W S))
    (hk : ∀ call ∈ calls, call.Keeps (Stream.Sound policy)) (moves : List (Move (W → W)))
    (id : StreamId) :
    let deeds := ((Call.alone name codec policy w calls).run Errand.rules moves).history.map Prod.snd
    ((accepted id deeds).map Event.version).Nodup ∧
      (Rising (accepted id deeds) ↔ ¬ Belated id deeds) := by
  let c := (Call.alone name codec policy w calls).run Errand.rules moves
  intro deeds
  have hstart : Queueing policy name (.fresh name codec policy : Store S) [] :=
    ⟨rfl, fun _ => ⟨[], .fresh policy name codec⟩⟩
  have hc : (Errand.pact (Queueing policy name) fun _ _ => True).Holds c :=
    Errand.holds_alone (Queueing.upheld name policy) hk hstart w moves
  have hauthors : ∀ n ∈ c.history, n.1 = 0 := by
    intro n hn
    have hlt := hc.authors n hn
    rw [Errand.length_jobs_alone] at hlt
    omega
  obtain ⟨left, ho⟩ := hc.inv.2 hauthors
  exact ⟨ho.line.nodup id, ho.line.rising_iff id⟩

/-- A world with a publisher that refuses or not as it is told, call by call. -/
abbrev Moody := World Empty (List Bool)

namespace Moody

def create (refusals : List Bool) : Moody :=
  World.create ⟨.default, 0, [], false, false, false, false, 0⟩ 0 refusals

def publisher : Publisher (Fiber Moody) := fun _ _ =>
  Fiber.perform fun w => (if w.rest.headD false then .error .closed else .ok (), w.withRest List.tail)

/-- A controller that notes every command. -/
def noting : CommandController (Fiber Moody) Tally := fun _ _ => do
  let _ ← Revision.emit "noted" (.ok .null)
  return none

def staff : Staff Moody Tally where
  publisher := publisher
  commands := [("open", ⟨.create, noting⟩), ("note", ⟨.load, noting⟩)]
  events := []
  ignored := []
  strict := false
  fault _ _ := return none

def request (name : String) : Command :=
  ⟨⟨.ofNat 1⟩, name, "tally", some ⟨.ofNat 2⟩, none, ⟨2024, 1, 1, 0, 0, 0, 0⟩, .null⟩

/-- A stream is opened and gets a second note, then the relay passes. -/
def calls : List (Call Moody Tally) :=
  [.command staff .background (request "open"), .command staff .background (request "note"),
    .pass publisher .default .background]

/-- All that is done if only the first publication fails. -/
def deeds : List Deed :=
  ((Call.alone "tally" (.json .compact) .sequential (create [true]) calls).run Errand.rules
    (.replicate 40 (.job 0))).history.map Prod.snd

theorem keeps_noting (ctx : Context) (command : Command) :
    Revision.Keeps (Stream.Sound .sequential) (noting ctx command) :=
  (Revision.keeps_emit "noted" (.ok .null)).bind fun _ => Revision.keeps_pure none

theorem keeps_staff : staff.Keeps (Stream.Sound .sequential) where
  commands n c hc ctx command := by
    simp only [staff, List.mem_cons, Prod.mk.injEq, List.not_mem_nil, or_false] at hc
    obtain ⟨-, rfl⟩ | ⟨-, rfl⟩ := hc
    · exact keeps_noting ctx command
    · exact keeps_noting ctx command
  events n c hc := by cases hc

theorem keeps_calls : ∀ call ∈ calls, call.Keeps (Stream.Sound .sequential) := by
  intro call hcall
  simp only [calls, List.mem_cons, List.not_mem_nil, or_false] at hcall
  obtain rfl | rfl | rfl := hcall
  · exact keeps_staff
  · exact keeps_staff
  · trivial

/-- The second event comes out first. -/
theorem versions_deeds : (accepted ⟨.ofNat 2⟩ deeds).map Event.version = [2, 1] := by
  decide +kernel

end Moody

/-- The relay then came late with the first event. -/
theorem belated_if_first_publication_fails :
    (∀ call ∈ Moody.calls, call.Keeps (Stream.Sound .sequential)) ∧ Belated ⟨.ofNat 2⟩ Moody.deeds := by
  refine ⟨Moody.keeps_calls, Classical.byContradiction ?_⟩
  intro hb
  have h := rising_accepted_iff "tally" (.json .compact) .sequential (Moody.create [true]) Moody.calls
    Moody.keeps_calls (.replicate 40 (.job 0)) ⟨.ofNat 2⟩
  have hr : Rising (accepted ⟨.ofNat 2⟩ Moody.deeds) := h.2.mpr hb
  have hv := hr.map_version
  rw [Moody.versions_deeds] at hv
  exact absurd hv (by decide)

/-- So the events of a stream do not always come out in the order of their versions. -/
theorem unordered_if_first_publication_fails :
    (accepted ⟨.ofNat 2⟩ Moody.deeds).map Event.version = [2, 1] ∧
      ¬ Rising (accepted ⟨.ofNat 2⟩ Moody.deeds) := by
  refine ⟨Moody.versions_deeds, ?_⟩
  intro hr
  have hv := hr.map_version
  rw [Moody.versions_deeds] at hv
  exact absurd hv (by decide)

end EventJournal
