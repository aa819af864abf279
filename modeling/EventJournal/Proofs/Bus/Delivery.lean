import EventJournal.Proofs.Bus.Ledger
import Mathlib.Data.List.Basic

/-!
Delivery. Whoever publishes, subscribes, listens and closes when, and however often listening is cancelled: the
events that a lane accepts are dispatched in that order, each once and to its end before the next. When
listening has come to its end, or closing has, nothing is left and nothing more is accepted.
-/
namespace EventJournal.Bus

open History

section Delivery

variable {H X : Type} {config : BusConfig} {seed : UInt32} {bus : Bus H} {wiring : Wiring H X}
  {hired : List Worker} {notices : List Notice} {h : List (Nat × Notice)} {id : LaneId}

/-- The events whose dispatch has begun, in that order. -/
def departures (notices : List Notice) : List Event :=
  notices.filterMap fun
    | .begun _ event => some event
    | _ => none

/-- Whether an event belongs to a stream. -/
def ofStream (name : String) (stream : StreamId) (event : Event) : Bool :=
  event.streamName == name && event.streamId == stream

section Streams

theorem departures_rounds (past busy : List Event) :
    departures (past.flatMap (round id) ++ busy.map (.begun id)) = past ++ busy := by
  induction past with
  | nil =>
    induction busy with
    | nil => rfl
    | cons event rest ih => simp [departures]
  | cons event rest ih =>
    rw [List.flatMap_cons, List.append_assoc]
    exact congrArg (event :: ·) ih

/-- The departures from one lane. -/
theorem departures_dispatches (id : LaneId) (notices : List Notice) :
    departures (dispatches id notices) = notices.filterMap fun
      | .begun j event => if j = id then some event else none
      | _ => none := by
  rw [departures, dispatches, List.filterMap_filter]
  refine congrArg (List.filterMap · notices) (funext fun n => ?_)
  cases n with
  | begun j event => simp
  | _ => simp

variable (l : Ledger config seed bus hired h)
include l

/-- What departs from a lane is a first part of what it has accepted. -/
theorem Ledger.departs (id : LaneId) :
    departures (dispatches id (h.map Prod.snd)) <+: accepted id (h.map Prod.snd) := by
  obtain ⟨past, busy, rest, ha, -, hd⟩ := l.in_order id
  rw [hd, departures_rounds, ha]
  exact List.prefix_append _ _

/-- Only what was accepted is dispatched. -/
theorem Ledger.accepted_of_begun {event : Event} (hn : .begun id event ∈ h.map Prod.snd) :
    .accepted id event ∈ h.map Prod.snd := by
  have hd : event ∈ departures (dispatches id (h.map Prod.snd)) := by
    rw [departures_dispatches, List.mem_filterMap]
    exact ⟨_, hn, if_pos rfl⟩
  exact mem_accepted.mp ((l.departs id).subset hd)

theorem Ledger.home_of_begun {event : Event} (hn : .begun id event ∈ h.map Prod.snd) :
    id = home config seed event :=
  (l.flows.placed id event (l.accepted_of_begun hn)).1

/-- The events of a stream are handled in the order in which they were accepted. -/
theorem Ledger.stream_in_order (name : String) (stream : StreamId) :
    (departures (h.map Prod.snd)).filter (ofStream name stream) <+:
      (arrivals (h.map Prod.snd)).filter (ofStream name stream) := by
  by_cases hex : ∃ event, ofStream name stream event = true
  · obtain ⟨first, hfirst⟩ := hex
    let id := home config seed first
    -- the whole stream goes through one lane
    have hhome : ∀ event, ofStream name stream event = true → home config seed event = id := by
      intro event he
      simp only [ofStream, Bool.and_eq_true, beq_iff_eq] at he hfirst
      exact home_eq_of_stream (he.2.trans hfirst.2.symm) (he.1.trans hfirst.1.symm)
    have harrivals : (arrivals (h.map Prod.snd)).filter (ofStream name stream) =
        (accepted id (h.map Prod.snd)).filter (ofStream name stream) := by
      rw [arrivals, accepted, List.filter_filterMap, List.filter_filterMap]
      refine List.filterMap_congr ?_
      intro n hn
      cases n with
      | accepted j event =>
        by_cases hj : j = id
        · simp [hj]
        · cases he : ofStream name stream event with
          | false => simp [hj, Option.filter, he]
          | true => exact absurd ((l.flows.placed j event hn).1.trans (hhome event he)) hj
      | _ => rfl
    have hdepartures : (departures (h.map Prod.snd)).filter (ofStream name stream) =
        (departures (dispatches id (h.map Prod.snd))).filter (ofStream name stream) := by
      rw [departures_dispatches, departures, List.filter_filterMap, List.filter_filterMap]
      refine List.filterMap_congr ?_
      intro n hn
      cases n with
      | begun j event =>
        by_cases hj : j = id
        · simp [hj]
        · cases he : ofStream name stream event with
          | false => simp [hj, Option.filter, he]
          | true => exact absurd ((l.home_of_begun hn).trans (hhome event he)) hj
      | _ => rfl
    rw [harrivals, hdepartures]
    exact (l.departs id).filter _
  · rw [List.filter_eq_nil_iff.mpr fun event _ he => hex ⟨event, he⟩]
    exact List.nil_prefix

end Streams

/-- Once the lanes are drained, what they have accepted is all that they ever will have. -/
theorem Ledger.accepted_append_eq {more : List (Nat × Notice)} (l : Ledger config seed bus hired (h ++ more))
    (hd : .drained ∈ h.map Prod.snd) (id : LaneId) :
    accepted id ((h ++ more).map Prod.snd) = accepted id (h.map Prod.snd) := by
  obtain ⟨past, rest, hsplit⟩ := List.append_of_mem hd
  have hnotices : (h ++ more).map Prod.snd = past ++ .drained :: (rest ++ more.map Prod.snd) := by
    rw [List.map_append, hsplit, List.append_assoc]
    rfl
  have hsilent := l.ends.silent hnotices
  rw [arrivals_append, List.append_eq_nil_iff] at hsilent
  rw [List.map_append, accepted_append, accepted_eq_nil_of_arrivals hsilent.2, List.append_nil]

section Crowd

variable {c : Crowd (World H X) Notice Ending}
  (hc : (pact wiring (Ledger config seed)).Holds c)
include hc

/-- While the lanes are served, one that has events to dispatch has somebody who will go on with it. -/
theorem attended (hst : c.state.bus.started = true) (id : LaneId) :
    Delivered id (c.history.map Prod.snd) ∨ (∃ worker ∈ c.state.hired, worker.lane = id) ∨
      ∃ i t, c.jobs[i]? = some t ∧ Charged id (own i c.history) ∧
        ∀ a, t = .done a → ((rules wiring).again a).isSome := by
  have l : Ledger config seed c.state.bus c.state.hired c.history := hc.inv
  by_cases hf : ∀ lane, c.state.bus.lane? id = some lane → lane.finished = true
  · exact .inl (l.delivered hf)
  · simp only [not_forall] at hf
    obtain ⟨lane, hl, hunfinished⟩ := hf
    obtain hw | ⟨i, hi⟩ := l.staffed.kept hst id (by simp [hl])
    · exact .inr (.inl hw)
    · have hlt : i < c.jobs.length := by
        obtain ⟨n, hn⟩ := hi.exists_mem
        exact hc.authors (i, n) (mem_own.mp hn)
      refine .inr (.inr ⟨i, c.jobs[i], List.getElem?_eq_getElem hlt, hi, ?_⟩)
      intro a ha
      have hknown := hc.ended (ha ▸ List.getElem?_eq_getElem hlt)
      cases a with
      | published events result => exact absurd hi (not_charged_of_unattended hknown.2.2)
      | subscribed result => exact absurd hi (not_charged_of_unattended hknown)
      | listened result =>
        cases result with
        | error e => exact absurd hi (not_charged_of_unattended hknown)
        | ok u => exact absurd (l.ends.drained (mem_map_snd_of_own hknown) hl) hunfinished
      | closed => exact absurd (l.ends.drained (mem_map_snd_of_own hknown) hl) hunfinished
      | worked worker more =>
        cases more with
        | true => rfl
        | false => exact absurd (l.ends.reported (mem_map_snd_of_own (hknown id hi)) hl) hunfinished

/-- Whoever comes back from listening or closing leaves no event behind. -/
theorem drained_of_back {i : Nat} (hi : c.jobs[i]? = some (.done (.listened (.ok ()))) ∨
    c.jobs[i]? = some (.done .closed)) : .drained ∈ c.history.map Prod.snd := by
  rcases hi with hi | hi
  · exact mem_map_snd_of_own (hc.ended hi)
  · exact mem_map_snd_of_own (hc.ended hi)

end Crowd

/-- However the jobs on a bus interleave, and whatever its handlers do by calling the bus (`courteous_publisher`,
`courteous_subscribeTo`, `courteous_listen`, `courteous_close`): each lane dispatches what it accepts in order, each
event once and to its end before the next, so the events of a stream are handled in the order in which they were
accepted; of a batch whose publication fails a first part was accepted; when listening or closing has come to its end
all that was accepted is dispatched, and nothing is accepted any more. Until then somebody is in charge of each lane
that is served and still has events to dispatch. -/
theorem delivery (hb : create? config seed = .ok bus) (hw : wiring.Courteous config seed) (millis : Nat)
    (rest : X) (tasks : List (Task H)) (moves : List (Move (World H X → World H X))) :
    let c := (crowd wiring bus millis rest tasks).run (rules wiring) moves
    let notices := c.history.map Prod.snd
    (∀ id, InOrder id notices) ∧
    (∀ name stream, (departures notices).filter (ofStream name stream) <+:
      (arrivals notices).filter (ofStream name stream)) ∧
    (∀ i events result, c.jobs[i]? = some (.done (.published events result)) →
      arrivals (own i c.history) <+: events ∧
        (result = .ok () → arrivals (own i c.history) = events)) ∧
    (∀ i : Nat, c.jobs[i]? = some (.done (.listened (.ok ()))) ∨ c.jobs[i]? = some (.done .closed) →
      ∀ id, Delivered id notices ∧ ∀ later,
        accepted id ((c.run (rules wiring) later).history.map Prod.snd) = accepted id notices) ∧
    (c.state.bus.started = true → ∀ id,
      Delivered id notices ∨ (∃ worker ∈ c.state.hired, worker.lane = id) ∨
        ∃ i t, c.jobs[i]? = some t ∧ Charged id (own i c.history) ∧
          ∀ a, t = .done a → ((rules wiring).again a).isSome) := by
  intro c notices
  obtain ⟨-, rfl⟩ := create?_eq_ok_iff.mp hb
  have hu := upheld_ledger config seed (H := H)
  have hc : (pact wiring (Ledger config seed)).Holds c :=
    holds_crowd hu hw (.fresh config seed) millis rest tasks moves
  have l : Ledger config seed c.state.bus c.state.hired c.history := hc.inv
  refine ⟨l.in_order, l.stream_in_order, ?_, ?_, attended hc⟩
  · intro i events result hi
    have hknown := hc.ended hi
    exact ⟨hknown.1, hknown.2.1⟩
  · intro i hi id
    have hd := drained_of_back hc hi
    refine ⟨l.delivered fun lane hl => l.ends.drained hd hl, ?_⟩
    intro later
    obtain ⟨more, hm⟩ := Crowd.history_run (rules wiring) c later
    have l' : Ledger config seed _ _ (c.history ++ more) := hm ▸ (hc.run (lawful hu hw) later).inv
    rw [hm]
    exact l'.accepted_append_eq hd id

end Delivery

namespace Echo

def event (version : Nat) (name : String) : Event :=
  ⟨⟨.ofNat version⟩, name, ⟨.ofNat 2⟩, "order", none, version, ⟨2024, 1, 1, 0, 0, 0, 0⟩, .null⟩

/-- A handler that answers with an event of its own. -/
def wiring : Wiring Unit Unit where
  handler _ :=
    { accepts := fun e => e.name == "placed"
      handle := fun ctx e => do
        let _ ← publisher ctx [event (e.version + 2) "echoed"]
        return .ok ()
      rollback := fun _ _ => return .ok () }
  observe _ := return ()

theorem courteous (config : BusConfig) (seed : UInt32) : wiring.Courteous config seed where
  handler _ := {
    handle := fun ctx _ => (courteous_publisher ctx _).bind fun _ => Fiber.courteous_pure _
    rollback := fun _ _ => Fiber.courteous_pure _ }
  observe _ := Fiber.courteous_pure _

def tasks : List (Task Unit) :=
  [.subscribe "order" [()], .listen (.ofSignal 0),
    .publish .background [event 1 "placed", event 2 "placed"], .close]

/-- Everybody but the one who closes does an act. -/
def lap : List (Move (World Unit Unit → World Unit Unit)) :=
  [.job 0, .job 1, .call, .job 2, .job 4, .job 5]

/-- Listening is cancelled while events wait, and the bus is closed. -/
def final : Crowd (World Unit Unit) Notice Ending :=
  (crowd wiring (fresh ⟨2, 4⟩ 7) 0 () tasks).run (rules wiring)
    ((List.replicate 12 lap).flatten ++ .outside (World.fire 0) ::
      (List.replicate 12 (.job 3 :: lap)).flatten)

def isClosed : Option (Noted Unit Unit Ending) → Bool
  | some (.done .closed) => true
  | _ => false

theorem eq_of_isClosed {t : Option (Noted Unit Unit Ending)} (h : isClosed t = true) :
    t = some (.done .closed) := by
  unfold isClosed at h
  split at h
  · rfl
  · cases h

theorem closed_final : final.jobs[3]? = some (.done .closed) :=
  eq_of_isClosed (by decide +kernel)

theorem departures_final : (departures (final.history.map Prod.snd)).map Event.version = [1, 2, 3, 4] := by
  decide +kernel

end Echo

/-- So the answers are dispatched too, after the events to which they answer. -/
theorem echoes_delivered :
    create? ⟨2, 4⟩ 7 = .ok (fresh ⟨2, 4⟩ 7 : Bus Unit) ∧ Echo.wiring.Courteous ⟨2, 4⟩ 7 ∧
      (departures (Echo.final.history.map Prod.snd)).map Event.version = [1, 2, 3, 4] ∧
        ∀ id, Delivered id (Echo.final.history.map Prod.snd) := by
  have hb : create? ⟨2, 4⟩ 7 = .ok (fresh ⟨2, 4⟩ 7 : Bus Unit) := rfl
  have hw := Echo.courteous ⟨2, 4⟩ 7
  have hd := (delivery hb hw 0 () Echo.tasks _).2.2.2.1 3 (.inr Echo.closed_final)
  exact ⟨hb, hw, Echo.departures_final, fun id => (hd id).1⟩

end EventJournal.Bus
