import EventJournal.Proofs.Bus.Lanes

/-!
Visits to a bus: what publishers and subscribers do to it. A visit leaves alone what the lanes hold, but
for one event that it may bring to a lane that is open.
-/
namespace EventJournal.Bus

variable {H : Type} {config : BusConfig} {seed : UInt32} {bus bus' : Bus H} {id : LaneId}

/-- What holds of every bus with that configuration and seed. -/
structure Shaped (config : BusConfig) (seed : UInt32) (bus : Bus H) : Prop where
  config_eq : bus.config = config
  seed_eq : bus.seed = seed
  distinct : bus.Distinct
  sizes : ∀ p ∈ bus.topics, p.2.lanes.size = config.partitions
  served : ∀ id lane, bus.lane? id = some lane → lane.served = bus.started
  settled : bus.started = true → bus.listening = true ∨ bus.shutdown = true

/-- A bus on which nothing has happened yet. -/
def fresh (config : BusConfig) (seed : UInt32) : Bus H :=
  ⟨config, seed, [], false, false, false, false, 0⟩

theorem create?_eq_ok_iff : create? config seed = .ok bus ↔
    config.validate = .ok () ∧ bus = fresh config seed := by
  cases h : config.validate with
  | error e => simp [create?, h, bind, Except.bind]
  | ok u => simp [create?, h, bind, Except.bind, pure, Except.pure, fresh, eq_comm]

theorem shaped_fresh (config : BusConfig) (seed : UInt32) :
    (fresh config seed : Bus H).Shaped config seed where
  config_eq := rfl
  seed_eq := rfl
  distinct := List.nodup_nil
  sizes p hp := by cases hp
  served id lane h := by cases h
  settled h := by cases h

theorem mem_modifyTopic {name : String} {f : Topic H → Topic H} {topics : List (String × Topic H)}
    {p : String × Topic H} (hp : p ∈ modifyTopic name f topics) :
    ∃ q ∈ topics, p.2 = q.2 ∨ p.2 = f q.2 := by
  induction topics with
  | nil => cases hp
  | cons pair rest ih =>
    obtain ⟨n, t⟩ := pair
    rw [modifyTopic] at hp
    split at hp
    · rcases List.mem_cons.mp hp with rfl | hp
      · exact ⟨_, List.mem_cons_self, .inr rfl⟩
      · exact ⟨p, List.mem_cons_of_mem _ hp, .inl rfl⟩
    · rcases List.mem_cons.mp hp with rfl | hp
      · exact ⟨_, List.mem_cons_self, .inl rfl⟩
      · obtain ⟨q, hq, h⟩ := ih hp
        exact ⟨q, List.mem_cons_of_mem _ hq, h⟩

namespace Shaped

variable (h : bus.Shaped config seed)
include h

theorem laneOf_eq {event : Event} (hl : bus.laneOf event = .ok id) : id = home config seed event := by
  unfold laneOf at hl
  cases ht : bus.topic? event.streamName with
  | none =>
    rw [ht] at hl
    cases hl
  | some t =>
    obtain ⟨l, r, he, -⟩ := List.lookup_eq_some_iff.mp ht
    have hsize := h.sizes (event.streamName, t) (by rw [he]; simp)
    rw [ht] at hl
    cases hl
    rw [home, ← hsize, h.seed_eq]

theorem route_eq {event : Event} (hr : bus.route event = .ok id) : id = home config seed event := by
  unfold route at hr
  split at hr
  · cases hr
  · exact h.laneOf_eq hr

/-- Whatever is done to a lane, as long as it stays with who serves it. -/
theorem modifyLane {f : Lane → Lane} (hf : ∀ l, (f l).served = l.served) (id : LaneId) :
    (bus.modifyLane id f).Shaped config seed where
  config_eq := h.config_eq
  seed_eq := h.seed_eq
  distinct := by
    rw [Distinct, Bus.modifyLane, map_fst_modifyTopic]
    exact h.distinct
  sizes p hp := by
    obtain ⟨q, hq, he | he⟩ := mem_modifyTopic hp
    · rw [he]
      exact h.sizes q hq
    · rw [he]
      simp only [Array.size_modify]
      exact h.sizes q hq
  served j lane hj := by
    rw [lane?_modifyLane] at hj
    split at hj
    · obtain ⟨l, hl, rfl⟩ := Option.map_eq_some_iff.mp hj
      rw [hf]
      exact h.served j l hl
    · exact h.served j lane hj
  settled := h.settled

end Shaped

/-- The lanes are as they were, but for who waits for room. While nobody serves the lanes, there may be
new ones. -/
structure Quiet (old new : Bus H) : Prop where
  started_eq : new.started = old.started
  stopped_eq : new.stopped = old.stopped
  kept : ∀ id lane, old.lane? id = some lane → ∃ waiting, new.lane? id = some { lane with waiting }
  fresh : ∀ id, old.lane? id = none →
    new.lane? id = none ∨ old.started = false ∧ new.lane? id = some .empty

namespace Quiet

theorem refl (bus : Bus H) : Quiet bus bus :=
  ⟨rfl, rfl, fun _ lane hl => ⟨lane.waiting, hl⟩, fun _ hl => .inl hl⟩

/-- The lanes are the same. -/
theorem of_lane? (hstarted : bus'.started = bus.started) (hstopped : bus'.stopped = bus.stopped)
    (hl : ∀ id, bus'.lane? id = bus.lane? id) : Quiet bus bus' where
  started_eq := hstarted
  stopped_eq := hstopped
  kept id lane h := ⟨lane.waiting, (hl id).trans h⟩
  fresh id h := .inl ((hl id).trans h)

theorem modifyLane (bus : Bus H) (id : LaneId) {f : Lane → Lane}
    (hf : ∀ l, ∃ waiting, f l = { l with waiting }) : Quiet bus (bus.modifyLane id f) where
  started_eq := rfl
  stopped_eq := rfl
  kept j lane hl := by
    rw [lane?_modifyLane, hl]
    split
    · obtain ⟨waiting, hw⟩ := hf lane
      exact ⟨waiting, congrArg some hw⟩
    · exact ⟨lane.waiting, rfl⟩
  fresh j hl := by
    rw [lane?_modifyLane, hl]
    exact .inl (ite_self _)

theorem queue_eq (h : Quiet bus bus') (id : LaneId) : bus'.queue id = bus.queue id := by
  cases hl : bus.lane? id with
  | some lane =>
    obtain ⟨waiting, hl'⟩ := h.kept id lane hl
    rw [queue_of_lane? hl, queue_of_lane? hl']
  | none =>
    rw [queue_of_none hl]
    rcases h.fresh id hl with hl' | ⟨-, hl'⟩
    · exact queue_of_none hl'
    · exact queue_of_lane? hl'

theorem gains_eq (h : Quiet bus bus') : gains bus bus' = [] :=
  gains_eq_nil fun id => Nat.le_of_eq (congrArg _ (h.queue_eq id))

end Quiet

/-- What the operations that a bus offers to everybody do to it. Listening and closing belong to them only
once the lanes are served: then the one is refused, and the other makes workers finish. -/
inductive Visit (config : BusConfig) (seed : UInt32) (bus : Bus H) : Bus H → Prop where
  | none : Visit config seed bus bus
  | offer (event : Event) (cancelled : Bool) :
      Visit config seed bus (bus.offer (home config seed event) event cancelled).2
  | claim (ticket : Nat) (event : Event) (cancelled : Bool) :
      Visit config seed bus (bus.claim (home config seed event) ticket event cancelled).2
  | subscribe {bus' : Bus H} (name : String) (handlers : List H)
      (taken : bus.subscribe name handlers = .ok bus') : Visit config seed bus bus'
  | close (started : bus.started = true) : Visit config seed bus { bus with shutdown := true }

section Subscribe

variable {name : String} {handlers : List H} {t : Topic H}

/-- More handlers on a topic leave its lanes alone. -/
theorem quiet_addHandlers (hs : bus.Shaped config seed) :
    let add (t : Topic H) := { t with handlers := t.handlers ++ handlers }
    let bus' := { bus with topics := modifyTopic name add bus.topics }
    Quiet bus bus' ∧ bus'.Shaped config seed := by
  intro add bus'
  have hlane : ∀ id, bus'.lane? id = bus.lane? id := by
    intro id
    simp only [bus', lane?_eq, lookup_modifyTopic]
    split
    · cases bus.topics.lookup id.topic <;> rfl
    · rfl
  have hshaped : bus'.Shaped config seed := {
    config_eq := hs.config_eq
    seed_eq := hs.seed_eq
    distinct := by
      rw [Distinct, map_fst_modifyTopic]
      exact hs.distinct
    sizes := by
      intro p hp
      obtain ⟨q, hq, he | he⟩ := mem_modifyTopic hp
      · rw [he]
        exact hs.sizes q hq
      · rw [he]
        exact hs.sizes q hq
    served := by
      intro id lane hl
      rw [hlane] at hl
      exact hs.served id lane hl
    settled := hs.settled }
  exact ⟨.of_lane? rfl rfl hlane, hshaped⟩

/-- A new topic brings lanes that hold nothing. -/
theorem quiet_addTopic (hs : bus.Shaped config seed) (hnew : bus.topics.lookup name = none)
    (hstarted : bus.started = false) :
    let topic : Topic H := ⟨handlers, Array.replicate bus.config.partitions .empty⟩
    let bus' := { bus with topics := bus.topics ++ [(name, topic)] }
    Quiet bus bus' ∧ bus'.Shaped config seed := by
  intro topic bus'
  have hold : ∀ id lane, bus.lane? id = some lane → bus'.lane? id = some lane := by
    intro id lane hl
    rw [lane?_eq] at hl ⊢
    obtain ⟨t, ht, hlane⟩ := Option.bind_eq_some_iff.mp hl
    simp [bus', List.lookup_append, ht, hlane]
  have hfresh : ∀ id, bus.lane? id = none → bus'.lane? id = none ∨ bus'.lane? id = some .empty := by
    intro id hl
    rw [lane?_eq] at hl ⊢
    cases ht : bus.topics.lookup id.topic with
    | some t =>
      rw [ht] at hl
      exact .inl (by simpa [bus', List.lookup_append, ht] using hl)
    | none =>
      by_cases hn : id.topic = name
      · rw [hn] at ht ⊢
        by_cases hi : id.index < bus.config.partitions
        · exact .inr (by simp [bus', List.lookup_append, ht, topic, hi])
        · exact .inl (by simpa [bus', List.lookup_append, ht, topic] using hi)
      · have hb : (id.topic == name) = false := beq_false_of_ne hn
        exact .inl (by simp [bus', List.lookup_append, ht, List.lookup_cons, hb])
  have hquiet : Quiet bus bus' := {
    started_eq := rfl
    stopped_eq := rfl
    kept := fun id lane hl => ⟨lane.waiting, hold id lane hl⟩
    fresh := fun id hl => (hfresh id hl).imp_right fun h => ⟨hstarted, h⟩ }
  have hshaped : bus'.Shaped config seed := {
    config_eq := hs.config_eq
    seed_eq := hs.seed_eq
    distinct := by
      have hname : name ∉ bus.topics.map Prod.fst := by
        intro hn
        obtain ⟨⟨n, u⟩, hp, rfl⟩ := List.mem_map.mp hn
        rw [lookup_of_mem hs.distinct hp] at hnew
        cases hnew
      rw [Distinct, List.map_append, List.nodup_append]
      refine ⟨hs.distinct, List.pairwise_singleton _ _, ?_⟩
      intro x hx y hy he
      have hx' : x = name := he.trans (List.mem_singleton.mp hy)
      exact hname (hx' ▸ hx)
    sizes := by
      intro p hp
      rcases List.mem_append.mp hp with hp | hp
      · exact hs.sizes p hp
      · rw [List.mem_singleton.mp hp, Array.size_replicate, hs.config_eq]
    served := by
      intro id lane hl
      cases ho : bus.lane? id with
      | some l =>
        rw [hold id l ho] at hl
        cases hl
        exact hs.served id _ ho
      | none =>
        rcases hfresh id ho with hn | hn
        · rw [hn] at hl
          cases hl
        · rw [hn] at hl
          cases hl
          exact hstarted.symm
    settled := hs.settled }
  exact ⟨hquiet, hshaped⟩

theorem subscribe_eq_ok (hs : bus.Shaped config seed) (h : bus.subscribe name handlers = .ok bus') :
    Quiet bus bus' ∧ bus'.Shaped config seed := by
  unfold subscribe at h
  split at h
  · cases h
  next hshut =>
    split at h
    · cases h
      exact quiet_addHandlers hs
    next htopic =>
      split at h
      · cases h
      next hlistening =>
        have hnew : bus.topics.lookup name = none := Option.not_isSome_iff_eq_none.mp htopic
        have hstarted : bus.started = false := by
          cases hst : bus.started with
          | false => rfl
          | true => exact absurd (hs.settled hst) (not_or.mpr ⟨hlistening, hshut⟩)
        cases h
        exact quiet_addTopic hs hnew hstarted

end Subscribe

/-- An event comes to its lane, which is open. -/
def Brings (config : BusConfig) (seed : UInt32) (old : Bus H) (event : Event) (new : Bus H) : Prop :=
  ∃ mid lane, Quiet old mid ∧ mid.Shaped config seed ∧
    mid.lane? (home config seed event) = some lane ∧ lane.closed = false ∧
      new = mid.modifyLane (home config seed event) (·.push event)

/-- An offer and a claim come to this: an accepted event is brought to its open lane, otherwise nothing
happens but that somebody starts or ceases to wait. -/
theorem settleOffer_cases {mid : Bus H} (hq : Quiet bus mid) (hs : mid.Shaped config seed)
    {event : Event} {lane : Lane} (hl : mid.lane? (home config seed event) = some lane)
    {result : Except PublishError Unit} (hopen : result = .ok () → lane.closed = false) :
    let new := mid.settleOffer (home config seed event) event result
    (result = .ok () ∧ Brings config seed bus event new) ∨
      (∃ e, result = .error e) ∧ Quiet bus new ∧ new.Shaped config seed := by
  intro new
  cases result with
  | ok u => exact .inl ⟨rfl, mid, lane, hq, hs, hl, hopen rfl, rfl⟩
  | error e => exact .inr ⟨⟨e, rfl⟩, hq, hs⟩

theorem verdict?_ok {lane : Lane} {ahead : Nat} {cancelled : Bool}
    (h : bus.verdict? lane ahead cancelled = some (.ok ())) : lane.closed = false := by
  unfold verdict? at h
  split at h
  · cases h
  next hc => simpa using hc

theorem offer_cases (hs : bus.Shaped config seed) (event : Event) (cancelled : Bool) :
    let act := bus.offer (home config seed event) event cancelled
    (act.1 = .decided (.ok ()) ∧ Brings config seed bus event act.2) ∨
      ((∃ e, act.1 = .decided (.error e)) ∨ ∃ ticket, act.1 = .waits ticket) ∧ Quiet bus act.2 ∧
        act.2.Shaped config seed := by
  intro act
  cases hl : bus.lane? (home config seed event) with
  | none =>
    have ha : act = (.decided (.error .closed), bus) := by simp [act, offer, hl]
    rw [ha]
    exact .inr ⟨.inl ⟨_, rfl⟩, .refl bus, hs⟩
  | some lane =>
    cases hv : bus.verdict? lane lane.waiting.length cancelled with
    | none =>
      have ha : act = (.waits bus.tickets,
          { bus.modifyLane (home config seed event) (·.enqueue bus.tickets) with
            tickets := bus.tickets + 1 }) := by
        simp [act, offer, hl, hv]
      have hq : Quiet bus (bus.modifyLane (home config seed event) (·.enqueue bus.tickets)) :=
        .modifyLane bus _ fun l => ⟨_, rfl⟩
      have hs' := hs.modifyLane (f := (·.enqueue bus.tickets)) (fun _ => rfl) (home config seed event)
      rw [ha]
      exact .inr ⟨.inr ⟨_, rfl⟩, ⟨hq.1, hq.2, hq.3, hq.4⟩, hs'.1, hs'.2, hs'.3, hs'.4, hs'.5, hs'.6⟩
    | some result =>
      have ha : act = (.decided result, bus.settleOffer (home config seed event) event result) := by
        simp [act, offer, hl, hv]
      have hopen : result = .ok () → lane.closed = false := by
        rintro rfl
        exact verdict?_ok hv
      rw [ha]
      rcases settleOffer_cases (.refl bus) hs hl hopen with ⟨rfl, hb⟩ | ⟨⟨e, rfl⟩, hq⟩
      · exact .inl ⟨rfl, hb⟩
      · exact .inr ⟨.inl ⟨e, rfl⟩, hq⟩

theorem claim_cases (hs : bus.Shaped config seed) (ticket : Nat) (event : Event) (cancelled : Bool) :
    let act := bus.claim (home config seed event) ticket event cancelled
    (act.1 = .ok () ∧ Brings config seed bus event act.2) ∨
      (∃ e, act.1 = .error e) ∧ Quiet bus act.2 ∧ act.2.Shaped config seed := by
  intro act
  let mid := bus.modifyLane (home config seed event) (·.withdraw ticket)
  have hq : Quiet bus mid := .modifyLane bus _ fun l => ⟨_, rfl⟩
  have hmid : mid.Shaped config seed := hs.modifyLane (f := (·.withdraw ticket)) (fun _ => rfl) _
  cases hl : bus.lane? (home config seed event) with
  | none =>
    have ha : act = (.error .closed, mid) := by simp [act, claim, claim?, hl, settleOffer, mid]
    rw [ha]
    exact .inr ⟨⟨_, rfl⟩, hq, hmid⟩
  | some lane =>
    let verdict := bus.verdict? lane (lane.ahead ticket) cancelled
    have hl' : mid.lane? (home config seed event) = some (lane.withdraw ticket) :=
      lane?_modifyLane_self hl _
    have ha : act = (verdict.getD (.error .closed),
        mid.settleOffer (home config seed event) event (verdict.getD (.error .closed))) := by
      simp [act, claim, claim?, hl, mid, verdict]
    have hopen : verdict.getD (.error .closed) = .ok () → lane.closed = false := by
      intro hv
      cases hverdict : verdict with
      | none =>
        rw [hverdict] at hv
        cases hv
      | some result =>
        rw [hverdict, Option.getD_some] at hv
        rw [hv] at hverdict
        exact verdict?_ok hverdict
    rw [ha]
    exact settleOffer_cases hq hmid hl' hopen

/-- What a visit comes to. -/
theorem Visit.cases (hs : bus.Shaped config seed) (hv : Visit config seed bus bus') :
    (Quiet bus bus' ∧ bus'.Shaped config seed) ∨ ∃ event, Brings config seed bus event bus' := by
  cases hv with
  | none => exact .inl ⟨.refl bus, hs⟩
  | offer event cancelled =>
    rcases offer_cases hs event cancelled with ⟨-, hb⟩ | ⟨-, hq⟩
    · exact .inr ⟨event, hb⟩
    · exact .inl hq
  | claim ticket event cancelled =>
    rcases claim_cases hs ticket event cancelled with ⟨-, hb⟩ | ⟨-, hq⟩
    · exact .inr ⟨event, hb⟩
    · exact .inl hq
  | subscribe name handlers taken => exact .inl (subscribe_eq_ok hs taken)
  | close started =>
    exact .inl ⟨.of_lane? rfl rfl fun _ => rfl, hs.1, hs.2, hs.3, hs.4, hs.5, fun _ => .inr rfl⟩

namespace Brings

variable {event : Event} (h : Brings config seed bus event bus')
include h

theorem started_eq : bus'.started = bus.started := by
  obtain ⟨mid, lane, hq, -, -, -, rfl⟩ := h
  exact hq.started_eq

theorem stopped_eq : bus'.stopped = bus.stopped := by
  obtain ⟨mid, lane, hq, -, -, -, rfl⟩ := h
  exact hq.stopped_eq

theorem shaped : bus'.Shaped config seed := by
  obtain ⟨mid, lane, -, hs, -, -, rfl⟩ := h
  exact hs.modifyLane (f := (·.push event)) (fun _ => rfl) _

theorem queue_home : bus'.queue (home config seed event) = bus.queue (home config seed event) ++ [event] := by
  obtain ⟨mid, lane, hq, -, hl, -, rfl⟩ := h
  rw [queue_of_lane? (lane?_modifyLane_self hl (·.push event)), ← hq.queue_eq, queue_of_lane? hl]
  rfl

theorem queue_other {j : LaneId} (hj : j ≠ home config seed event) : bus'.queue j = bus.queue j := by
  obtain ⟨mid, lane, hq, -, -, -, rfl⟩ := h
  rw [queue_modifyLane_other hj, hq.queue_eq]

theorem gains_eq : gains bus bus' = [(home config seed event, event)] := by
  have hmem : home config seed event ∈ bus'.laneIds := by
    obtain ⟨mid, lane, -, -, hl, -, rfl⟩ := h
    exact mem_laneIds_of_lane? (by simp [lane?_modifyLane_self hl])
  exact gains_eq_singleton (nodup_laneIds h.shaped.distinct) hmem h.queue_home fun _ => h.queue_other

end Brings

end EventJournal.Bus
