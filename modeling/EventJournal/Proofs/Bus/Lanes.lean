import EventJournal.Bus

/-!
The lanes of a bus, seen one by one: which there are, where the events of a stream go, and what each act
does to every lane.
-/
namespace EventJournal.Bus

variable {H : Type} {bus : Bus H} {id j : LaneId}

/-- What a lane holds; a lane that does not exist holds nothing. -/
def queue (bus : Bus H) (id : LaneId) : List Event :=
  ((bus.lane? id).map Lane.queue).getD []

/-- The lane of an event, on a bus of that size and seed. -/
def home (config : BusConfig) (seed : UInt32) (event : Event) : LaneId :=
  ⟨event.streamName, Routing.lane seed event.routingKey.toUTF8.toList config.partitions⟩

theorem queue_of_lane? {lane : Lane} (h : bus.lane? id = some lane) : bus.queue id = lane.queue := by
  simp [queue, h]

theorem queue_of_none (h : bus.lane? id = none) : bus.queue id = [] := by
  simp [queue, h]

/-- Events of one stream share a lane. -/
theorem home_eq_of_stream {config : BusConfig} {seed : UInt32} {x y : Event}
    (hid : x.streamId = y.streamId) (hname : x.streamName = y.streamName) :
    home config seed x = home config seed y := by
  simp [home, Event.routingKey, hid, hname]

theorem lookup_modifyTopic (name : String) (f : Topic H → Topic H) (topics : List (String × Topic H))
    (n : String) : (modifyTopic name f topics).lookup n =
      if n = name then (topics.lookup n).map f else topics.lookup n := by
  induction topics with
  | nil => simp [modifyTopic]
  | cons pair rest ih =>
    obtain ⟨m, t⟩ := pair
    by_cases hm : m = name
    · subst hm
      by_cases hn : n = m
      · simp [modifyTopic, hn]
      · have hb : (n == m) = false := beq_false_of_ne hn
        simp [modifyTopic, List.lookup_cons, hb, hn]
    · simp only [modifyTopic, hm, if_false, List.lookup_cons, ih]
      by_cases hn : n = m
      · simp [hn, hm]
      · have hb : (n == m) = false := beq_false_of_ne hn
        simp [hb]

theorem map_fst_modifyTopic (name : String) (f : Topic H → Topic H) (topics : List (String × Topic H)) :
    (modifyTopic name f topics).map Prod.fst = topics.map Prod.fst := by
  induction topics with
  | nil => rfl
  | cons pair rest ih =>
    obtain ⟨m, t⟩ := pair
    by_cases hm : m = name
    · simp [modifyTopic, hm]
    · simp [modifyTopic, hm, ih]

theorem lane?_eq (bus : Bus H) (id : LaneId) :
    bus.lane? id = (bus.topics.lookup id.topic).bind fun t => t.lanes[id.index]? := rfl

theorem lane?_modifyLane (bus : Bus H) (id j : LaneId) (f : Lane → Lane) :
    (bus.modifyLane id f).lane? j = if j = id then (bus.lane? j).map f else bus.lane? j := by
  obtain ⟨name, index⟩ := id
  obtain ⟨topic, k⟩ := j
  simp only [lane?_eq, modifyLane, lookup_modifyTopic, LaneId.mk.injEq]
  by_cases hn : topic = name
  · subst hn
    cases bus.topics.lookup topic with
    | none => simp
    | some t =>
      by_cases hk : k = index
      · simp [hk, Array.getElem?_modify]
      · simp [hk, Array.getElem?_modify, Ne.symm hk]
  · simp [hn]

theorem lane?_modifyLane_self {lane : Lane} (h : bus.lane? id = some lane) (f : Lane → Lane) :
    (bus.modifyLane id f).lane? id = some (f lane) := by
  simp [lane?_modifyLane, h]

theorem lane?_modifyLane_other (h : j ≠ id) (f : Lane → Lane) :
    (bus.modifyLane id f).lane? j = bus.lane? j := by
  simp [lane?_modifyLane, h]

/-- An act that leaves what lanes hold. -/
theorem queue_modifyLane_of_eq {f : Lane → Lane} (hf : ∀ l, (f l).queue = l.queue) (j : LaneId) :
    (bus.modifyLane id f).queue j = bus.queue j := by
  rw [queue, lane?_modifyLane]
  split
  · cases h : bus.lane? j <;> simp [queue, h, hf]
  · rfl

theorem queue_modifyLane_other (h : j ≠ id) (f : Lane → Lane) :
    (bus.modifyLane id f).queue j = bus.queue j := by
  rw [queue, lane?_modifyLane_other h, queue]

theorem mem_laneIds_of_lane? (h : (bus.lane? id).isSome) : id ∈ bus.laneIds := by
  obtain ⟨lane, hl⟩ := Option.isSome_iff_exists.mp h
  rw [lane?_eq, Option.bind_eq_some_iff] at hl
  obtain ⟨t, ht, hlane⟩ := hl
  have hmem : (id.topic, t) ∈ bus.topics := by
    obtain ⟨l, r, he, -⟩ := List.lookup_eq_some_iff.mp ht
    rw [he]
    simp
  have hlt : id.index < t.lanes.size := by
    obtain ⟨hlt, -⟩ := Array.getElem?_eq_some_iff.mp hlane
    exact hlt
  refine List.mem_flatMap.mpr ⟨(id.topic, t), hmem, ?_⟩
  exact List.mem_map.mpr ⟨id.index, List.mem_range.mpr hlt, rfl⟩

/-- The topics of a bus have different names. -/
def Distinct (bus : Bus H) : Prop :=
  (bus.topics.map Prod.fst).Nodup

theorem lookup_of_mem {topics : List (String × Topic H)} (hn : (topics.map Prod.fst).Nodup)
    {name : String} {t : Topic H} (h : (name, t) ∈ topics) : topics.lookup name = some t := by
  induction topics with
  | nil => cases h
  | cons pair rest ih =>
    obtain ⟨m, u⟩ := pair
    rw [List.map_cons, List.nodup_cons] at hn
    rcases List.mem_cons.mp h with he | hr
    · cases he
      simp
    · have hne : name ≠ m := by
        rintro rfl
        exact hn.1 (List.mem_map.mpr ⟨_, hr, rfl⟩)
      rw [List.lookup_cons, beq_false_of_ne hne]
      exact ih hn.2 hr

theorem lane?_isSome_iff (hn : bus.Distinct) : (bus.lane? id).isSome ↔ id ∈ bus.laneIds := by
  refine ⟨mem_laneIds_of_lane?, ?_⟩
  intro h
  obtain ⟨⟨name, t⟩, ht, hid⟩ := List.mem_flatMap.mp h
  obtain ⟨i, hi, rfl⟩ := List.mem_map.mp hid
  rw [List.mem_range] at hi
  simp [lane?_eq, lookup_of_mem hn ht, hi]

theorem nodup_laneIds (hn : bus.Distinct) : bus.laneIds.Nodup := by
  rw [laneIds, List.Nodup, List.pairwise_flatMap]
  refine ⟨?_, ?_⟩
  · rintro ⟨name, t⟩ -
    rw [List.pairwise_map]
    exact List.nodup_range.imp fun hne he => hne (LaneId.mk.inj he).2
  · have hp : bus.topics.Pairwise fun p q => p.1 ≠ q.1 := List.pairwise_map.mp hn
    refine hp.imp ?_
    rintro ⟨m, t⟩ ⟨n, u⟩ hne x hx y hy rfl
    obtain ⟨i, -, rfl⟩ := List.mem_map.mp hx
    obtain ⟨k, -, hk⟩ := List.mem_map.mp hy
    exact hne (LaneId.mk.inj hk).1.symm

section Gains

/-- The events by which the lanes of a bus have grown. -/
def gains (old new : Bus H) : List (LaneId × Event) :=
  new.laneIds.flatMap fun id => ((new.queue id).drop (old.queue id).length).map fun e => (id, e)

variable {old new : Bus H}

theorem gains_eq_nil (h : ∀ id, (new.queue id).length ≤ (old.queue id).length) : gains old new = [] := by
  rw [gains, List.flatMap_eq_nil_iff]
  intro id _
  rw [List.drop_eq_nil_of_le (h id), List.map_nil]

@[simp] theorem gains_self (bus : Bus H) : gains bus bus = [] :=
  gains_eq_nil fun _ => Nat.le_refl _

/-- One lane has grown by one event. -/
theorem gains_eq_singleton (hn : new.laneIds.Nodup) (hid : id ∈ new.laneIds) {e : Event}
    (hq : new.queue id = old.queue id ++ [e]) (hother : ∀ j, j ≠ id → new.queue j = old.queue j) :
    gains old new = [(id, e)] := by
  have hgrow : ∀ ids : List LaneId, ids.Nodup →
      (ids.flatMap fun j => ((new.queue j).drop (old.queue j).length).map fun e => (j, e)) =
        if id ∈ ids then [(id, e)] else [] := by
    intro ids hids
    induction ids with
    | nil => rfl
    | cons k rest ih =>
      rw [List.nodup_cons] at hids
      rw [List.flatMap_cons, ih hids.2]
      by_cases hk : k = id
      · subst hk
        simp [hq, hids.1]
      · simp [hother k hk, Ne.symm hk]
  rw [gains, hgrow _ hn, if_pos hid]

end Gains

end EventJournal.Bus
