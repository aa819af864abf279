import EventJournal.Proofs.Bus.Conduct

/-!
What becomes of a lane. Once it is closed it stays so and gets no more events, and once it is finished that
remains; new lanes appear only while nobody serves any.
-/
namespace EventJournal.Bus

variable {H : Type} {config : BusConfig} {seed : UInt32} {bus bus' : Bus H} {id : LaneId}
  {lane lane' : Lane}

structure Ages (old new : Lane) : Prop where
  closed : old.closed = true → new.closed = true
  empty : old.closed = true → old.queue = [] → new.queue = []
  finished : old.finished = true → new.finished = true

theorem Ages.of_eq (hc : lane'.closed = lane.closed) (hq : lane'.queue = lane.queue)
    (hf : lane'.finished = lane.finished) : Ages lane lane' where
  closed h := hc.trans h
  empty _ he := hq.trans he
  finished h := hf.trans h

/-- A lane that is open may get events, but it cannot lose its end. -/
theorem Ages.of_open (ho : lane.closed = false) (hf : lane'.finished = lane.finished) :
    Ages lane lane' where
  closed h := by
    rw [ho] at h
    cases h
  empty h := by
    rw [ho] at h
    cases h
  finished h := hf.trans h

theorem Quiet.lane_cases (h : Quiet bus bus') (hl : bus'.lane? id = some lane') :
    (∃ lane waiting, bus.lane? id = some lane ∧ lane' = { lane with waiting }) ∨
      bus.started = false ∧ lane' = .empty := by
  cases ho : bus.lane? id with
  | some lane =>
    obtain ⟨waiting, hw⟩ := h.kept id lane ho
    rw [hl] at hw
    exact .inl ⟨lane, waiting, rfl, Option.some.inj hw⟩
  | none =>
    obtain hn | ⟨hst, hn⟩ := h.fresh id ho
    · rw [hl] at hn
      cases hn
    · rw [hl] at hn
      exact .inr ⟨hst, Option.some.inj hn⟩

/-- An event came to this lane, which was open, or to another one. -/
theorem Brings.lane_cases {event : Event} (h : Brings config seed bus event bus')
    (hl : bus'.lane? id = some lane') :
    (∃ lane, bus.lane? id = some lane ∧ lane'.finished = lane.finished ∧ Ages lane lane') ∨
      bus.started = false ∧ lane'.finished = false := by
  obtain ⟨mid, l, hq, -, hm, hopen, rfl⟩ := h
  by_cases hid : id = home config seed event
  · subst hid
    rw [lane?_modifyLane_self hm] at hl
    cases hl
    obtain ⟨lane, waiting, ho, rfl⟩ | ⟨hst, rfl⟩ := hq.lane_cases hm
    · exact .inl ⟨lane, ho, rfl, .of_open hopen rfl⟩
    · exact .inr ⟨hst, rfl⟩
  · rw [lane?_modifyLane_other hid] at hl
    obtain ⟨lane, waiting, ho, rfl⟩ | ⟨hst, rfl⟩ := hq.lane_cases hl
    · exact .inl ⟨lane, ho, rfl, .of_eq rfl rfl rfl⟩
    · exact .inr ⟨hst, rfl⟩

theorem Takes.lane_cases {events : List Event} {last : Bool} {j : LaneId}
    (h : Takes config seed j events last bus bus') (hl : bus'.lane? id = some lane') :
    ∃ lane, bus.lane? id = some lane ∧ lane'.finished = lane.finished ∧ Ages lane lane' := by
  by_cases hid : id = j
  · subst hid
    cases ho : bus.lane? id with
    | none =>
      rw [(h.absent ho).1] at hl
      cases hl
    | some lane =>
      obtain ⟨l, hl', hq, hf, hc, -⟩ := h.present lane ho
      rw [hl] at hl'
      cases hl'
      have hempty : lane.queue = [] → lane'.queue = [] := by
        intro he
        rw [he] at hq
        exact (List.append_eq_nil_iff.mp hq).2
      exact ⟨lane, rfl, hf, hc, fun _ => hempty, hf.trans⟩
  · rw [h.other id hid] at hl
    exact ⟨lane', hl, rfl, .of_eq rfl rfl rfl⟩

/-- Whatever is done to a bus, its lanes age, and only one that is given notice of becomes finished. -/
theorem Does.lane_cases {hired hired' : List Worker} {mine notices : List Notice}
    (d : Does config seed bus hired mine notices bus' hired') (hl : bus'.lane? id = some lane') :
    (∃ lane, bus.lane? id = some lane ∧ Ages lane lane' ∧
      (lane'.finished = true → lane.finished = true ∨ notices = [.finished id])) ∨
      bus.started = false ∧ lane'.finished = false := by
  have hsame : bus.lane? id = some lane' → ∃ lane, bus.lane? id = some lane ∧ Ages lane lane' ∧
      (lane'.finished = true → lane.finished = true ∨ notices = [.finished id]) :=
    fun ho => ⟨lane', ho, .of_eq rfl rfl rfl, .inl⟩
  have hopens : Opens config seed bus bus' → ∃ lane, bus.lane? id = some lane ∧ Ages lane lane' ∧
      (lane'.finished = true → lane.finished = true ∨ notices = [.finished id]) := by
    intro ho
    rw [ho.lane?_eq] at hl
    obtain ⟨lane, hlane, rfl⟩ := Option.map_eq_some_iff.mp hl
    exact ⟨lane, hlane, .of_eq rfl rfl rfl, .inl⟩
  cases d with
  | quiet quiet =>
    obtain ⟨lane, waiting, ho, rfl⟩ | ⟨hst, rfl⟩ := quiet.lane_cases hl
    · exact .inl ⟨lane, ho, .of_eq rfl rfl rfl, .inl⟩
    · exact .inr ⟨hst, rfl⟩
  | brought brings =>
    obtain ⟨lane, ho, hf, ha⟩ | hst := brings.lane_cases hl
    · exact .inl ⟨lane, ho, ha, fun h => .inl (hf.symm.trans h)⟩
    · exact .inr hst
  | opened opens => exact .inl (hopens opens)
  | claimed opens => exact .inl (hopens opens)
  | took _ _ takes =>
    obtain ⟨lane, ho, hf, ha⟩ := takes.lane_cases hl
    exact .inl ⟨lane, ho, ha, fun h => .inl (hf.symm.trans h)⟩
  | @finished k events charged free emptied =>
    rw [finishLane, lane?_modifyLane] at hl
    split at hl
    next hk =>
      obtain ⟨lane, ho, rfl⟩ := Option.map_eq_some_iff.mp hl
      exact .inl ⟨lane, ho, ⟨fun hc => hc, fun _ he => he, fun _ => rfl⟩, fun _ => .inr (by rw [hk])⟩
    next => exact .inl (hsame hl)
  | served | begun | ended | drained | stopped => exact .inl (hsame hl)

theorem isSome_modifyLane (bus : Bus H) (id j : LaneId) (f : Lane → Lane) :
    ((bus.modifyLane id f).lane? j).isSome = (bus.lane? j).isSome := by
  rw [lane?_modifyLane]
  split
  · exact Option.isSome_map
  · rfl

theorem Quiet.stays (h : Quiet bus bus') (hl : (bus.lane? id).isSome) : (bus'.lane? id).isSome := by
  obtain ⟨lane, ho⟩ := Option.isSome_iff_exists.mp hl
  obtain ⟨waiting, hw⟩ := h.kept id lane ho
  rw [hw]
  rfl

/-- No lane vanishes. -/
theorem Does.stays {hired hired' : List Worker} {mine notices : List Notice}
    (d : Does config seed bus hired mine notices bus' hired') (hl : (bus.lane? id).isSome) :
    (bus'.lane? id).isSome := by
  cases d with
  | quiet quiet => exact quiet.stays hl
  | brought brings =>
    obtain ⟨mid, lane, hq, -, -, -, rfl⟩ := brings
    rw [isSome_modifyLane]
    exact hq.stays hl
  | opened opens | claimed opens =>
    rw [opens.lane?_eq, Option.isSome_map]
    exact hl
  | @took k _ _ _ _ _ takes =>
    by_cases hk : id = k
    · subst hk
      obtain ⟨lane, ho⟩ := Option.isSome_iff_exists.mp hl
      obtain ⟨lane', hl', -⟩ := takes.present lane ho
      rw [hl']
      rfl
    · rw [takes.other id hk]
      exact hl
  | finished =>
    rw [finishLane, isSome_modifyLane]
    exact hl
  | served | begun | ended | drained | stopped => exact hl

end EventJournal.Bus
