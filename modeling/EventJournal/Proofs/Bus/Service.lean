import EventJournal.Proofs.Bus.Visits

/-!
Serving the lanes: how they are handed out, all at once, and how whoever is in charge of a lane takes out
its events and finishes it.
-/
namespace EventJournal.Bus

variable {H : Type} {config : BusConfig} {seed : UInt32} {bus bus' : Bus H} {id : LaneId}

/-- The lanes are handed out. -/
structure Opens (config : BusConfig) (seed : UInt32) (old new : Bus H) : Prop where
  unstarted : old.started = false
  started : new.started = true
  stopped_eq : new.stopped = old.stopped
  shaped : new.Shaped config seed
  lane?_eq : ∀ id, new.lane? id = (old.lane? id).map fun l => { l with served := true }

/-- Events are taken out of a lane, `last` ones out of a lane that is closed with it. -/
structure Takes (config : BusConfig) (seed : UInt32) (id : LaneId) (events : List Event) (last : Bool)
    (old new : Bus H) : Prop where
  started_eq : new.started = old.started
  stopped_eq : new.stopped = old.stopped
  shaped : new.Shaped config seed
  other : ∀ j, j ≠ id → new.lane? j = old.lane? j
  absent : old.lane? id = none → new.lane? id = none ∧ events = []
  present : ∀ lane, old.lane? id = some lane → ∃ lane', new.lane? id = some lane' ∧
    events ++ lane'.queue = lane.queue ∧ lane'.finished = lane.finished ∧
      (lane.closed = true → lane'.closed = true) ∧
        (last = true → lane'.closed = true ∧ lane'.queue = [])

theorem lookup_map {A B : Type} (f : A → B) (entries : List (String × A)) (key : String) :
    (entries.map fun p => (p.1, f p.2)).lookup key = (entries.lookup key).map f := by
  induction entries with
  | nil => rfl
  | cons pair rest ih =>
    obtain ⟨n, a⟩ := pair
    rw [List.map_cons, List.lookup_cons, List.lookup_cons, ih]
    cases key == n <;> rfl

section Opening

/-- Before listening nobody serves a lane. -/
theorem unserved_eq (hs : bus.Shaped config seed) (hstarted : bus.started = false) :
    bus.unserved = bus.laneIds := by
  rw [unserved, List.filter_eq_self]
  intro id hid
  obtain ⟨lane, hl⟩ := Option.isSome_iff_exists.mp ((lane?_isSome_iff hs.distinct).mpr hid)
  simp [hl, hs.served id lane hl, hstarted]

theorem lane?_takeLanes (bus : Bus H) (id : LaneId) :
    bus.takeLanes.2.lane? id = (bus.lane? id).map fun l => { l with served := true } := by
  let serve (t : Topic H) : Topic H := { t with lanes := t.lanes.map fun l => { l with served := true } }
  have hl : bus.takeLanes.2.topics.lookup id.topic = (bus.topics.lookup id.topic).map serve :=
    lookup_map serve bus.topics id.topic
  rw [lane?_eq, lane?_eq, hl]
  cases bus.topics.lookup id.topic with
  | none => rfl
  | some t => simp [serve]

theorem distinct_takeLanes (h : bus.Distinct) : bus.takeLanes.2.Distinct := by
  rw [Distinct, takeLanes, List.map_map]
  exact h

/-- Whoever is the first to begin is handed all lanes. -/
theorem takeLanes_opens (next : Bus H) (hs : bus.Shaped config seed) (hunstarted : bus.started = false)
    (hconfig : next.config = bus.config) (hseed : next.seed = bus.seed)
    (htopics : next.topics = bus.topics) (hstopped : next.stopped = bus.stopped)
    (hstarted : next.started = true) (hsettled : next.listening = true ∨ next.shutdown = true) :
    next.takeLanes.1 = bus.laneIds ∧ Opens config seed bus next.takeLanes.2 := by
  have hlane : ∀ id, next.lane? id = bus.lane? id := by
    intro id
    rw [lane?_eq, lane?_eq, htopics]
  have hids : next.unserved = bus.unserved := by
    simp only [unserved, laneIds, htopics, hlane]
  have hdistinct : next.Distinct := by
    rw [Distinct, htopics]
    exact hs.distinct
  have hshaped : next.takeLanes.2.Shaped config seed := {
    config_eq := hconfig.trans hs.config_eq
    seed_eq := hseed.trans hs.seed_eq
    distinct := distinct_takeLanes hdistinct
    sizes := by
      intro p hp
      obtain ⟨q, hq, rfl⟩ := List.mem_map.mp hp
      rw [htopics] at hq
      simpa using hs.sizes q hq
    served := by
      intro id lane hl
      rw [lane?_takeLanes] at hl
      obtain ⟨l, -, rfl⟩ := Option.map_eq_some_iff.mp hl
      exact hstarted.symm
    settled := fun _ => hsettled }
  have hserved : ∀ id,
      next.takeLanes.2.lane? id = (bus.lane? id).map fun l => { l with served := true } := by
    intro id
    rw [lane?_takeLanes, hlane]
  exact ⟨hids.trans (unserved_eq hs hunstarted), hunstarted, hstarted, hstopped, hshaped, hserved⟩

theorem beginListening_cases (hs : bus.Shaped config seed) :
    (∃ e, bus.beginListening = (.error e, bus)) ∨
      bus.beginListening.1 = .ok bus.laneIds ∧ Opens config seed bus bus.beginListening.2 := by
  unfold beginListening
  split
  · exact .inl ⟨_, rfl⟩
  · split
    · exact .inl ⟨_, rfl⟩
    next hst =>
      have hunstarted : bus.started = false := by simpa using hst
      have h := takeLanes_opens { bus with started := true, listening := true } hs hunstarted rfl rfl rfl rfl
        rfl (.inl rfl)
      exact .inr ⟨congrArg _ h.1, h.2⟩

theorem beginClosing_cases (hs : bus.Shaped config seed) :
    (bus.beginClosing = (none, { bus with shutdown := true }) ∧ bus.started = true) ∨
      bus.beginClosing.1 = some bus.laneIds ∧ Opens config seed bus bus.beginClosing.2 := by
  unfold beginClosing
  split
  next hst => exact .inl ⟨rfl, hst⟩
  next hst =>
    have hunstarted : bus.started = false := by simpa using hst
    have h := takeLanes_opens { bus with started := true, shutdown := true } hs hunstarted rfl rfl rfl rfl
      rfl (.inr rfl)
    exact .inr ⟨congrArg _ h.1, h.2⟩

end Opening

section Taking

/-- Where there is no lane nothing is taken. -/
theorem absent_takes (hs : bus.Shaped config seed) (hl : bus.lane? id = none) (last : Bool) :
    Takes config seed id [] last bus bus where
  started_eq := rfl
  stopped_eq := rfl
  shaped := hs
  other _ _ := rfl
  absent _ := ⟨hl, rfl⟩
  present lane hl' := by
    rw [hl] at hl'
    cases hl'

/-- Whatever is taken out of a lane by an act on it. -/
theorem modifyLane_takes (hs : bus.Shaped config seed) {events : List Event} {last : Bool} {lane : Lane}
    {f : Lane → Lane} (hl : bus.lane? id = some lane) (hserved : ∀ l, (f l).served = l.served)
    (hfinished : (f lane).finished = lane.finished) (hclosed : lane.closed = true → (f lane).closed = true)
    (hlast : last = true → (f lane).closed = true ∧ (f lane).queue = [])
    (hqueue : events ++ (f lane).queue = lane.queue) :
    Takes config seed id events last bus (bus.modifyLane id f) where
  started_eq := rfl
  stopped_eq := rfl
  shaped := hs.modifyLane hserved id
  other j hj := lane?_modifyLane_other hj f
  absent hl' := by
    rw [hl] at hl'
    cases hl'
  present lane' hl' := by
    rw [hl] at hl'
    cases hl'
    exact ⟨f lane, lane?_modifyLane_self hl f, hqueue, hfinished, hclosed, hlast⟩

/-- Closing a lane takes all events that are left. -/
theorem drain_takes (hs : bus.Shaped config seed) (id : LaneId) :
    Takes config seed id (bus.drain id).1 true bus (bus.drain id).2 := by
  unfold drain
  cases hl : bus.lane? id with
  | none => exact absent_takes hs hl true
  | some lane =>
    have hall : lane.drain.1 ++ lane.drain.2.queue = lane.queue := List.append_nil lane.queue
    exact modifyLane_takes hs hl (fun _ => rfl) rfl (fun _ => rfl) (fun _ => ⟨rfl, rfl⟩) hall

/-- A turn takes the oldest event, or on closing all events that are left. -/
theorem takeTurn_takes (hs : bus.Shaped config seed) (id : LaneId) (cancelled : Bool) :
    (∃ events, (bus.takeTurn id cancelled).1 = .goOn events ∧
      Takes config seed id events false bus (bus.takeTurn id cancelled).2) ∨
    ∃ events, (bus.takeTurn id cancelled).1 = .finish events ∧
      Takes config seed id events true bus (bus.takeTurn id cancelled).2 := by
  cases hl : bus.lane? id with
  | none =>
    have hturn : bus.takeTurn id cancelled = (.finish [], bus) := by simp [takeTurn, hl]
    rw [hturn]
    exact .inr ⟨[], rfl, absent_takes hs hl true⟩
  | some lane =>
    cases hc : bus.shutdown || cancelled with
    | true =>
      have hturn : bus.takeTurn id cancelled = (.finish (bus.drain id).1, (bus.drain id).2) := by
        simp [takeTurn, drain, hl, hc]
      rw [hturn]
      exact .inr ⟨_, rfl, drain_takes hs id⟩
    | false =>
      have hturn : bus.takeTurn id cancelled = (.goOn lane.pop.1, bus.modifyLane id fun l => l.pop.2) := by
        simp [takeTurn, hl, hc]
      rw [hturn]
      have htakes : Takes config seed id lane.pop.1 false bus (bus.modifyLane id fun l => l.pop.2) :=
        modifyLane_takes hs hl (fun _ => rfl) rfl (fun h => h) (fun h => by cases h) lane.pop_append
      exact .inl ⟨_, rfl, htakes⟩

namespace Takes

variable {events : List Event} {last : Bool} (h : Takes config seed id events last bus bus')
include h

theorem queue_eq : events ++ bus'.queue id = bus.queue id := by
  cases hl : bus.lane? id with
  | none =>
    obtain ⟨hl', rfl⟩ := h.absent hl
    rw [queue_of_none hl, queue_of_none hl']
    rfl
  | some lane =>
    obtain ⟨lane', hl', hq, -⟩ := h.present lane hl
    rw [queue_of_lane? hl, queue_of_lane? hl', hq]

theorem queue_other {j : LaneId} (hj : j ≠ id) : bus'.queue j = bus.queue j := by
  rw [queue, queue, h.other j hj]

/-- Taking out brings nothing in. -/
theorem gains_eq : gains bus bus' = [] := by
  apply gains_eq_nil
  intro j
  by_cases hj : j = id
  · have hlen := congrArg List.length h.queue_eq
    rw [List.length_append] at hlen
    rw [hj]
    omega
  · exact Nat.le_of_eq (congrArg List.length (h.queue_other hj))

end Takes

end Taking

theorem Opens.queue_eq (h : Opens config seed bus bus') (id : LaneId) : bus'.queue id = bus.queue id := by
  rw [queue, queue, h.lane?_eq]
  cases bus.lane? id <;> rfl

theorem Opens.gains_eq (h : Opens config seed bus bus') : gains bus bus' = [] :=
  gains_eq_nil fun id => Nat.le_of_eq (congrArg _ (h.queue_eq id))

theorem queue_finishLane (bus : Bus H) (id j : LaneId) : (bus.finishLane id).queue j = bus.queue j :=
  queue_modifyLane_of_eq (f := fun l => { l with finished := true }) (fun _ => rfl) j

end EventJournal.Bus
