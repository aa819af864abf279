import EventJournal.Proofs.Bus.Flow

/-!
How the lanes end. A finished lane is closed and empty and nothing of it is in hand; when somebody gives notice
that all lanes are drained, each of them is finished, and no event is accepted any more.
-/
namespace EventJournal.Bus

open History

variable {H : Type} {config : BusConfig} {seed : UInt32} {bus bus' : Bus H}
  {hired hired' : List Worker} {mine notices : List Notice} {h : List (Nat × Notice)} {i : Nat}
  {id : LaneId} {lane lane' : Lane} {n : Notice}

structure Ends (bus : Bus H) (notices : List Notice) : Prop where
  emptied : ∀ {id events lane}, .took id events true ∈ notices → bus.lane? id = some lane →
    lane.closed = true ∧ lane.queue = []
  reported : ∀ {id lane}, .finished id ∈ notices → bus.lane? id = some lane → lane.finished = true
  finished : ∀ {id lane}, bus.lane? id = some lane → lane.finished = true →
    lane.closed = true ∧ lane.queue = [] ∧ hands id notices = .free
  /-- A closing that claims lanes claims all. -/
  claimed : ∀ {id ids}, .claimed ids ∈ notices → (bus.lane? id).isSome → id ∈ ids
  drained : ∀ {id lane}, .drained ∈ notices → bus.lane? id = some lane → lane.finished = true
  stopped : bus.stopped = true → .drained ∈ notices
  silent : ∀ {past rest}, notices = past ++ .drained :: rest → arrivals rest = []

theorem Ends.fresh (config : BusConfig) (seed : UInt32) : Ends (Bus.fresh config seed : Bus H) [] where
  emptied hn := by cases hn
  reported hn := by cases hn
  finished hl := by cases hl
  claimed hn := by cases hn
  drained hn := by cases hn
  stopped hs := by cases hs
  silent he := by simp at he

/-- On a bus that is drained every lane that is served is finished. -/
theorem finished_of_isDrained (hd : bus.isDrained = true) (hl : bus.lane? id = some lane)
    (hs : lane.served = true) : lane.finished = true := by
  obtain ⟨t, ht, hlane⟩ := Option.bind_eq_some_iff.mp hl
  obtain ⟨l, r, he, -⟩ := List.lookup_eq_some_iff.mp ht
  have htopic := List.all_eq_true.mp hd (id.topic, t) (by rw [he]; simp)
  obtain ⟨hlt, rfl⟩ := Array.getElem?_eq_some_iff.mp hlane
  simpa [hs] using Array.all_eq_true.mp htopic id.index hlt

section Does

variable (d : Does config seed bus hired mine notices bus' hired')
include d

theorem Does.emptied {events : List Event} (hn : .took id events true ∈ notices)
    (hl : bus'.lane? id = some lane') : lane'.closed = true ∧ lane'.queue = [] := by
  cases d with
  | took _ _ takes =>
    cases List.mem_singleton.mp hn
    cases ho : bus.lane? id with
    | none =>
      rw [(takes.absent ho).1] at hl
      cases hl
    | some lane =>
      obtain ⟨l, hl', -, -, -, hlast⟩ := takes.present lane ho
      rw [hl] at hl'
      cases hl'
      exact hlast rfl
  | quiet | stopped => cases hn
  | _ => cases List.mem_singleton.mp hn

theorem Does.reported (hn : .finished id ∈ notices) (hl : bus'.lane? id = some lane') :
    lane'.finished = true := by
  cases d with
  | finished =>
    cases List.mem_singleton.mp hn
    rw [finishLane, lane?_modifyLane, if_pos rfl] at hl
    obtain ⟨lane, -, rfl⟩ := Option.map_eq_some_iff.mp hl
    rfl
  | quiet | stopped => cases hn
  | _ => cases List.mem_singleton.mp hn

/-- Of one that finishes a lane, its last events were taken out before and none is in hand. -/
theorem Does.finishes (hn : .finished id ∈ notices) :
    Charged id mine ∧ hands id mine = .free ∧ ∃ events, .took id events true ∈ mine := by
  cases d with
  | finished charged free emptied =>
    cases List.mem_singleton.mp hn
    exact ⟨charged, free, _, emptied⟩
  | quiet | stopped => cases hn
  | _ => cases List.mem_singleton.mp hn

theorem Does.claims {ids : List LaneId} (hn : .claimed ids ∈ notices) :
    ids = bus.laneIds ∧ Opens config seed bus bus' := by
  cases d with
  | claimed opens =>
    cases List.mem_singleton.mp hn
    exact ⟨rfl, opens⟩
  | quiet | stopped => cases hn
  | _ => cases List.mem_singleton.mp hn

theorem Does.drains (hn : .drained ∈ notices) : bus' = bus ∧
    (bus.stopped = true ∨ .opened ∈ mine ∧ bus.isDrained = true ∨
      ∃ ids, .claimed ids ∈ mine ∧ ∀ id ∈ ids, .finished id ∈ mine) := by
  cases d with
  | drained stopped => exact ⟨rfl, stopped⟩
  | quiet | stopped => cases hn
  | _ => cases List.mem_singleton.mp hn

theorem Does.stops (hs : bus'.stopped = true) : bus.stopped = true ∨ .drained ∈ mine := by
  cases d with
  | quiet quiet => exact .inl (quiet.stopped_eq.symm.trans hs)
  | brought brings => exact .inl (brings.stopped_eq.symm.trans hs)
  | opened opens | claimed opens => exact .inl (opens.stopped_eq.symm.trans hs)
  | took _ _ takes => exact .inl (takes.stopped_eq.symm.trans hs)
  | served | begun | ended | finished | drained => exact .inl hs
  | stopped drained => exact .inr drained

/-- Events arrive at lanes that are open. -/
theorem Does.arrivals_eq_nil (hst : bus.started = true)
    (hclosed : ∀ id lane, bus.lane? id = some lane → lane.closed = true) : arrivals notices = [] := by
  cases d with
  | brought brings =>
    obtain ⟨mid, l, hq, -, hl, hopen, -⟩ := brings
    obtain ⟨lane, waiting, ho, rfl⟩ | ⟨hf, -⟩ := hq.lane_cases hl
    · exact absurd (hclosed _ lane ho) (by simpa using hopen)
    · rw [hst] at hf
      cases hf
  | _ => rfl

end Does

/-- Of a lane that holds nothing and of which nothing is in hand, nothing comes into anybody's hands. -/
theorem Staffed.hands_free (s : Staffed bus hired h)
    (d : Does config seed bus hired (own i h) notices bus' hired') (hq : bus.queue id = [])
    (hh : hands id (h.map Prod.snd) = .free) : hands id (h.map Prod.snd ++ notices) = .free := by
  obtain rfl | ⟨n, rfl⟩ := d.notices_cases
  · rw [List.append_nil]
    exact hh
  · cases hn : n.concerns id with
    | false => exact (hands_concat_of_not hn).trans hh
    | true =>
      have hfits := s.fits d (List.mem_singleton.mpr rfl) hn
      rw [hh] at hfits
      cases n with
      | took j events last =>
        have he := d.queue_eq id
        have hj : j = id := eq_of_beq hn
        simp only [hq, hj, accepted, taken, List.filterMap_cons, List.filterMap_nil, List.append_nil,
          List.flatMap_cons, List.flatMap_nil, if_true] at he
        rw [hands_concat_of_concerns hn, hh, (List.append_eq_nil_iff.mp he.symm).1]
        rfl
      | begun j event =>
        obtain ⟨rest, hr⟩ := hfits
        cases hr
      | ended j event =>
        obtain ⟨rest, hr⟩ := hfits
        cases hr
      | _ => cases hn

/-- After more than arrivals was noted, every lane has been there before. -/
theorem Staffed.aged (s : Staffed bus hired h)
    (d : Does config seed bus hired (own i h) notices bus' hired') (hn : n ∈ h.map Prod.snd)
    (hne : ∀ id event, n ≠ .accepted id event) (hl : bus'.lane? id = some lane') :
    ∃ lane, bus.lane? id = some lane ∧ Ages lane lane' := by
  obtain ⟨lane, ho, ha, -⟩ | ⟨hst, -⟩ := d.lane_cases hl
  · exact ⟨lane, ho, ha⟩
  · rw [s.started_of_mem hn hne] at hst
    cases hst

namespace Ends

variable (e : Ends bus (h.map Prod.snd)) (d : Does config seed bus hired (own i h) notices bus' hired')
include e d

theorem stopped_step (hs : bus'.stopped = true) : .drained ∈ h.map Prod.snd ++ notices := by
  apply List.mem_append_left
  obtain hold | hd := d.stops hs
  · exact e.stopped hold
  · exact mem_map_snd_of_own hd

variable (s : Staffed bus hired h)
include s

theorem emptied_step {events : List Event} (hn : .took id events true ∈ h.map Prod.snd ++ notices)
    (hl : bus'.lane? id = some lane') : lane'.closed = true ∧ lane'.queue = [] := by
  rcases List.mem_append.mp hn with hn | hn
  · obtain ⟨lane, ho, ha⟩ := s.aged d hn (by simp) hl
    obtain ⟨hclosed, hempty⟩ := e.emptied hn ho
    exact ⟨ha.closed hclosed, ha.empty hclosed hempty⟩
  · exact d.emptied hn hl

theorem reported_step (hn : .finished id ∈ h.map Prod.snd ++ notices)
    (hl : bus'.lane? id = some lane') : lane'.finished = true := by
  rcases List.mem_append.mp hn with hn | hn
  · obtain ⟨lane, ho, ha⟩ := s.aged d hn (by simp) hl
    exact ha.finished (e.reported hn ho)
  · exact d.reported hn hl

theorem finished_step (hl : bus'.lane? id = some lane') (hf : lane'.finished = true) :
    lane'.closed = true ∧ lane'.queue = [] ∧ hands id (h.map Prod.snd ++ notices) = .free := by
  obtain ⟨lane, ho, ha, hcause⟩ | ⟨-, hno⟩ := d.lane_cases hl
  · obtain ⟨hclosed, hempty, hfree⟩ :
        lane.closed = true ∧ lane.queue = [] ∧ hands id (h.map Prod.snd) = .free := by
      obtain hold | rfl := hcause hf
      · exact e.finished ho hold
      · obtain ⟨hc, hfree, events, htook⟩ := d.finishes (List.mem_singleton.mpr rfl)
        obtain ⟨hclosed, hempty⟩ := e.emptied (mem_map_snd_of_own htook) ho
        exact ⟨hclosed, hempty, (s.hands_eq hc).symm.trans hfree⟩
    have hq : bus.queue id = [] := by rw [queue_of_lane? ho, hempty]
    exact ⟨ha.closed hclosed, ha.empty hclosed hempty, s.hands_free d hq hfree⟩
  · rw [hno] at hf
    cases hf

theorem claimed_step {ids : List LaneId} (hn : .claimed ids ∈ h.map Prod.snd ++ notices)
    (hl : (bus'.lane? id).isSome) : id ∈ ids := by
  obtain ⟨lane', hl'⟩ := Option.isSome_iff_exists.mp hl
  rcases List.mem_append.mp hn with hn | hn
  · obtain ⟨lane, ho, -⟩ := s.aged d hn (by simp) hl'
    exact e.claimed hn (by simp [ho])
  · obtain ⟨rfl, ho⟩ := d.claims hn
    rw [ho.lane?_eq, Option.isSome_map] at hl
    exact mem_laneIds_of_lane? hl

/-- Whoever gives notice that the lanes are drained has seen to it, or been told by one who did. -/
theorem drained_step (hs : bus.Shaped config seed) (hn : .drained ∈ h.map Prod.snd ++ notices)
    (hl : bus'.lane? id = some lane') : lane'.finished = true := by
  rcases List.mem_append.mp hn with hn | hn
  · obtain ⟨lane, ho, ha⟩ := s.aged d hn (by simp) hl
    exact ha.finished (e.drained hn ho)
  · obtain ⟨rfl, hstopped | ⟨hopened, hdrained⟩ | ⟨ids, hclaimed, hall⟩⟩ := d.drains hn
    · exact e.drained (e.stopped hstopped) hl
    · have hst := s.started_of_mem (mem_map_snd_of_own hopened) fun _ _ he => by cases he
      exact finished_of_isDrained hdrained hl ((hs.served id lane' hl).trans hst)
    · have hid : id ∈ ids := e.claimed (mem_map_snd_of_own hclaimed) (by simp [hl])
      exact e.reported (mem_map_snd_of_own (hall id hid)) hl

/-- Once the lanes are drained nothing arrives. -/
theorem silent_step {past rest : List Notice} (he : h.map Prod.snd ++ notices = past ++ .drained :: rest) :
    arrivals rest = [] := by
  obtain rfl | ⟨n, rfl⟩ := d.notices_cases
  · rw [List.append_nil] at he
    exact e.silent he
  · obtain rfl | ⟨more, m, rfl⟩ := List.eq_nil_or_concat rest
    · rfl
    · rw [List.concat_eq_append, ← List.cons_append, ← List.append_assoc] at he
      obtain ⟨hpast, hm⟩ := List.append_inj' he rfl
      have hd : .drained ∈ h.map Prod.snd := by
        rw [hpast]
        simp
      have hnone : arrivals [n] = [] := by
        apply d.arrivals_eq_nil (s.started_of_mem hd fun _ _ he => by cases he)
        exact fun id lane hl => (e.finished hl (e.drained hd hl)).1
      rw [List.concat_eq_append, arrivals_append, ← hm, hnone, e.silent hpast]
      rfl

theorem step (hs : bus.Shaped config seed) : Ends bus' ((h ++ told i notices).map Prod.snd) := by
  rw [List.map_append, map_snd_told]
  exact {
    emptied := e.emptied_step d s
    reported := e.reported_step d s
    finished := e.finished_step d s
    claimed := e.claimed_step d s
    drained := e.drained_step d s hs
    stopped := e.stopped_step d
    silent := e.silent_step d s }

end Ends

end EventJournal.Bus
