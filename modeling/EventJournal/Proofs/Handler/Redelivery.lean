import EventJournal.Proofs.Handler.Turn

/-!
Redelivery to handlers that run once per event. After a dispatch in which no handler failed, such a handler
remembers the event. It is left alone with it until a dispatch of the event fails behind it: then it is undone,
though it had nothing to do.
-/
namespace EventJournal.Lineup

open Keeper

variable {H W : Type}

section Statement

/-- The event of a dispatch, by number. -/
def Delivers (deliveries : List (Context × Event)) (n : Nat) (event : Event) : Prop :=
  deliveries[n]?.map Prod.snd = some event

/-- A dispatch of an event was over without a failure, and a handler that runs once per event takes it. -/
structure Received (lineup : Lineup H W) (deliveries : List (Context × Event)) (reg : Register H) (n : Nat)
    (event : Event) (k : H) : Prop where
  delivers : Delivers deliveries n event
  passed : reg.Passed n
  once : lineup.once k = true
  mem : k ∈ lineup.lane
  accepts : (lineup.inner k).accepts event = true

/-- In the dispatches between two numbers an inner handler is never called on for the event with an id. -/
def Spared (deliveries : List (Context × Event)) (reg : Register H) (id : EventId) (k : H) (n l : Nat) : Prop :=
  ∀ m event, n < m → m < l → Delivers deliveries m event → event.id = id → ¬ reg.Called m k

/-- In the dispatches between two numbers none of the event with an id fails behind a handler. -/
def Unbroken (lineup : Lineup H W) (deliveries : List (Context × Event)) (reg : Register H) (id : EventId)
    (k : H) (n l : Nat) : Prop :=
  ∀ m event, n < m → m < l → Delivers deliveries m event → event.id = id →
    ¬ lineup.FailedBehind reg m event k

/-- What holds between two dispatches. -/
structure AtRest (lineup : Lineup H W) (deliveries : List (Context × Event)) (n : Nat) (reg : Register H) :
    Prop where
  blank : ∀ m, n ≤ m → reg.page m = []
  closed : ∀ m < n, .closed ∈ reg.page m
  spared_iff : ∀ m event k, lineup.Received deliveries reg m event k → ∀ l ≤ n,
    (Spared deliveries reg event.id k m l ↔ lineup.Unbroken deliveries reg event.id k m l)
  knows : ∀ m event k, lineup.Received deliveries reg m event k → m < n →
    lineup.Unbroken deliveries reg event.id k m n → reg.knows k event.id = true

variable [DecidableEq H]

/-- Nobody is called on again unless somebody behind him failed. -/
def keeper (lineup : Lineup H W) (deliveries : List (Context × Event)) : Keeper (Register H) W Nat where
  again := lineup.again deliveries
  inv reg := ∀ n event k, lineup.Received deliveries reg n event k → ∀ l,
    lineup.Unbroken deliveries reg event.id k n l → Spared deliveries reg event.id k n l
  rest := lineup.AtRest deliveries

end Statement

section Round

variable {lineup : Lineup H W} {deliveries : List (Context × Event)} {n : Nat} {event : Event}
  {reg₀ reg : Register H} {id : EventId} {k : H} {m l : Nat}

theorem Delivers.eq {event' : Event} (h : Delivers deliveries n event) (h' : Delivers deliveries n event') :
    event = event' :=
  Option.some.inj (h.symm.trans h')

theorem Confined.passed_iff (h : Confined n event reg₀ reg) (hm : m ≠ n) : reg.Passed m ↔ reg₀.Passed m := by
  rw [Register.Passed, Register.Passed, h.page m hm]

theorem Confined.received_iff (h : Confined n event reg₀ reg) (hm : m ≠ n) {event' : Event} :
    lineup.Received deliveries reg m event' k ↔ lineup.Received deliveries reg₀ m event' k := by
  constructor
  · exact fun hr => { hr with passed := (h.passed_iff hm).mp hr.passed }
  · exact fun hr => { hr with passed := (h.passed_iff hm).mpr hr.passed }

/-- What was on the pages before a dispatch is still there. -/
theorem Confined.spared_iff (h : Confined n event reg₀ reg) (hl : l ≤ n) :
    Spared deliveries reg id k m l ↔ Spared deliveries reg₀ id k m l := by
  refine forall_congr' fun i => forall_congr' fun _ => forall_congr' fun _ => forall_congr' fun hi => ?_
  rw [Register.Called, Register.Called, h.page i (Nat.ne_of_lt (Nat.lt_of_lt_of_le hi hl))]

theorem Confined.unbroken_iff (h : Confined n event reg₀ reg) (hl : l ≤ n) :
    lineup.Unbroken deliveries reg id k m l ↔ lineup.Unbroken deliveries reg₀ id k m l := by
  refine forall_congr' fun i => forall_congr' fun _ => forall_congr' fun _ => forall_congr' fun hi => ?_
  rw [FailedBehind, FailedBehind, h.page i (Nat.ne_of_lt (Nat.lt_of_lt_of_le hi hl))]

theorem Unbroken.mono {l' : Nat} (h : lineup.Unbroken deliveries reg id k m l) (hl : l' ≤ l) :
    lineup.Unbroken deliveries reg id k m l' :=
  fun i event hm hi => h i event hm (Nat.lt_of_lt_of_le hi hl)

/-- What holds of all dispatches up to the next one. -/
theorem forall_between_succ {P : Nat → Event → Prop} (hd : Delivers deliveries n event) (hm : m < n) :
    (∀ i e, m < i → i < n + 1 → Delivers deliveries i e → e.id = id → P i e) ↔
      (∀ i e, m < i → i < n → Delivers deliveries i e → e.id = id → P i e) ∧ (event.id = id → P n event) := by
  constructor
  · intro h
    exact ⟨fun i e hi hn => h i e hi (Nat.lt_succ_of_lt hn), h n event hm (Nat.lt_succ_self n) hd⟩
  · rintro ⟨h, hlast⟩ i e hi hn he
    obtain hlt | rfl := Nat.lt_or_eq_of_le (Nat.le_of_lt_succ hn)
    · exact h i e hi hlt he
    · cases hd.eq he
      exact hlast

theorem spared_succ (hd : Delivers deliveries n event) (hm : m < n) :
    Spared deliveries reg id k m (n + 1) ↔
      Spared deliveries reg id k m n ∧ (event.id = id → ¬ reg.Called n k) :=
  forall_between_succ hd hm

theorem unbroken_succ (hd : Delivers deliveries n event) (hm : m < n) :
    lineup.Unbroken deliveries reg id k m (n + 1) ↔
      lineup.Unbroken deliveries reg id k m n ∧ (event.id = id → ¬ lineup.FailedBehind reg n event k) :=
  forall_between_succ hd hm

/-- Whoever was spared so far is called on in a dispatch exactly if it fails behind him. -/
theorem AtRest.called_iff (hr : lineup.AtRest deliveries n reg₀) (ht : lineup.Turned n event reg₀ reg)
    {event' : Event} (hreceived : lineup.Received deliveries reg₀ m event' k) (hm : m < n)
    (hu : lineup.Unbroken deliveries reg₀ event'.id k m n) (hid : event.id = event'.id) :
    (reg.Called n k ↔ lineup.FailedBehind reg n event k) ∧ (¬ reg.Called n k → lineup.Skips reg k event) := by
  have hskips : lineup.Skips reg₀ k event := ⟨hreceived.once, hid ▸ hr.knows m event' k hreceived hm hu⟩
  exact ⟨ht.called_iff k hskips, ht.skips k hskips⟩

theorem Turned.close (ht : lineup.Turned n event reg₀ reg) :
    lineup.Turned n event reg₀ (reg.write n .closed) where
  toConfined := ht.toConfined.write _
  called_iff k hk := by
    rw [Register.called_write_of_not_called (by simp), ht.called_iff k hk]
    refine exists_congr fun e => and_congr_left fun _ => ?_
    rw [Register.mem_page_write]
    exact (or_iff_left (by simp)).symm
  skips k hk hc := by
    rw [Register.called_write_of_not_called (by simp)] at hc
    exact ht.skips k hk hc
  passed hp := ht.passed fun e he => hp e (Register.mem_page_write.mpr (.inl he))

/-- After a dispatch there is rest again. -/
theorem AtRest.next (hr : lineup.AtRest deliveries n reg₀) (hd : Delivers deliveries n event)
    (ht : lineup.Turned n event reg₀ reg) (hclosed : .closed ∈ reg.page n) :
    lineup.AtRest deliveries (n + 1) reg where
  blank m hm := by
    rw [ht.page m (Nat.ne_of_gt hm)]
    exact hr.blank m (Nat.le_of_succ_le hm)
  closed m hm := by
    rcases Nat.lt_or_eq_of_le (Nat.le_of_lt_succ hm) with hlt | rfl
    · rw [ht.page m (Nat.ne_of_lt hlt)]
      exact hr.closed m hlt
    · exact hclosed
  spared_iff m event' k hreceived l hl := by
    by_cases hmn : n ≤ m
    · have hnone : ∀ i, m < i → ¬ i < l := fun i hm hi => by omega
      exact ⟨fun _ i _ hm hi => absurd hi (hnone i hm), fun _ i _ hm hi => absurd hi (hnone i hm)⟩
    · have hmn : m < n := Nat.lt_of_not_le hmn
      have hreceived₀ := (ht.received_iff (Nat.ne_of_lt hmn)).mp hreceived
      have hbefore : ∀ l ≤ n, Spared deliveries reg event'.id k m l ↔
          lineup.Unbroken deliveries reg event'.id k m l := by
        intro l hl
        rw [ht.spared_iff hl, ht.unbroken_iff hl]
        exact hr.spared_iff m event' k hreceived₀ l hl
      rcases Nat.lt_or_eq_of_le hl with hlt | rfl
      · exact hbefore l (Nat.le_of_lt_succ hlt)
      · -- the last of the dispatches is the one that is just over
        rw [spared_succ hd hmn, unbroken_succ hd hmn, hbefore n (Nat.le_refl n)]
        refine and_congr_right fun hu => forall_congr' fun hid => not_congr ?_
        exact (hr.called_iff ht hreceived₀ hmn ((ht.unbroken_iff (Nat.le_refl n)).mp hu) hid).1
  knows m event' k hreceived hm hu := by
    rcases Nat.lt_or_eq_of_le (Nat.le_of_lt_succ hm) with hlt | rfl
    · have hreceived₀ := (ht.received_iff (Nat.ne_of_lt hlt)).mp hreceived
      have hu₀ := (ht.unbroken_iff (Nat.le_refl n)).mp (hu.mono (Nat.le_succ n))
      by_cases hid : event.id = event'.id
      · obtain ⟨hcalled, hskips⟩ := hr.called_iff ht hreceived₀ hlt hu₀ hid
        rw [hcalled] at hskips
        exact hid ▸ (hskips (((unbroken_succ hd hlt).mp hu).2 hid)).2
      · rw [ht.knows k event'.id (Ne.symm hid)]
        exact hr.knows m event' k hreceived₀ hlt hu₀
    · cases hd.eq hreceived.delivers
      exact ht.passed hreceived.passed.2 k hreceived.mem hreceived.accepts hreceived.once

theorem atRest_blank (lineup : Lineup H W) (deliveries : List (Context × Event)) :
    lineup.AtRest deliveries 0 .blank where
  blank _ _ := rfl
  closed m hm := absurd hm (Nat.not_lt_zero m)
  spared_iff m _ _ hr := by cases hr.passed.1
  knows m _ _ hr := by cases hr.passed.1

variable [DecidableEq H]

theorem keeper_inv_of_page (lineup : Lineup H W) (deliveries : List (Context × Event))
    (reg reg' : Register H) (hp : reg'.page = reg.page) (hi : (lineup.keeper deliveries).inv reg) :
    (lineup.keeper deliveries).inv reg' := by
  obtain ⟨seen, page⟩ := reg
  obtain ⟨seen', page'⟩ := reg'
  cases hp
  exact fun n event k hr => hi n event k { hr with passed := hr.passed }

/-- In the course of a dispatch the invariant holds. -/
theorem AtRest.inv (hr : lineup.AtRest deliveries n reg₀) (hd : Delivers deliveries n event)
    (hc : Confined n event reg₀ reg) (he : lineup.Excused n event reg₀ reg) :
    (lineup.keeper deliveries).inv reg := by
  intro m event' k hreceived l hunbroken i event'' hmi hil hd'' hid hcalled
  have hpages : ∀ j, n < j → reg.page j = [] :=
    fun j hj => (hc.page j (Nat.ne_of_gt hj)).trans (hr.blank j (Nat.le_of_lt hj))
  have hin : i ≤ n := by
    apply Nat.le_of_not_lt
    intro hlt
    obtain ⟨u, hu⟩ := hcalled
    rw [hpages i hlt] at hu
    cases hu
  have hmn : m < n := Nat.lt_of_lt_of_le hmi hin
  have hreceived₀ := (hc.received_iff (Nat.ne_of_lt hmn)).mp hreceived
  have hunbroken₀ : ∀ l' ≤ n, l' ≤ l → lineup.Unbroken deliveries reg₀ event'.id k m l' :=
    fun l' hn hl => (hc.unbroken_iff hn).mp (hunbroken.mono hl)
  rcases Nat.lt_or_eq_of_le hin with hlt | rfl
  · have hspared := (hr.spared_iff m event' k hreceived₀ (i + 1) hlt).mpr (hunbroken₀ (i + 1) hlt hil)
    rw [← hc.spared_iff hlt] at hspared
    exact hspared i event'' hmi (Nat.lt_succ_self i) hd'' hid hcalled
  · cases hd.eq hd''
    have hknows := hr.knows m event' k hreceived₀ hmn (hunbroken₀ i (Nat.le_refl i) (Nat.le_of_lt hil))
    have hskips : lineup.Skips reg₀ k event := ⟨hreceived.once, hid ▸ hknows⟩
    exact hunbroken i event hmi hil hd hid (he k hskips hcalled)

theorem steady (lineup : Lineup H W) (deliveries : List (Context × Event)) :
    (lineup.keeper deliveries).Steady := by
  intro n t hagain reg₀ hi hr
  obtain ⟨⟨ctx, event⟩, hn, rfl⟩ := Option.map_eq_some_iff.mp hagain
  have hd : Delivers deliveries n event := by rw [Delivers, hn, Option.map_some]
  have hinv : ∀ reg, Confined n event reg₀ reg → lineup.Excused n event reg₀ reg →
      (lineup.keeper deliveries).inv reg := fun reg => hr.inv hd
  have honward : lineup.Onward n event [] reg₀ reg₀ := .start lineup event (hr.blank n (Nat.le_refl n))
  apply Makes.bind
  rw [dispatch, matching_eq]
  refine (makes_run hinv (lineup.keeper_inv_of_page deliveries) honward rfl).mono ?_
  intro _ reg ht
  have hexcused : ∀ {reg}, lineup.Turned n event reg₀ reg → lineup.Excused n event reg₀ reg :=
    fun ht k hk hc => (ht.called_iff k hk).mp hc
  have hclose := ht.close
  apply Makes.bind
  apply makes_modify (hinv reg ht.toConfined (hexcused ht))
  refine makes_pure ⟨hinv _ hclose.toConfined (hexcused hclose), ?_⟩
  exact hr.next hd hclose (Register.mem_page_write.mpr (.inr rfl))

end Round

/-- However events are delivered to a lane, again and again and in any order: after a dispatch of an event in
which no handler failed, a handler that runs once per event and takes it is called on for it again only after a
dispatch of the event has failed behind him. If one fails so, then he is called on in it at the latest. -/
theorem spared_iff_unbroken [DecidableEq H] (lineup : Lineup H W) (deliveries : List (Context × Event)) (w : W)
    (moves : List (Move (W → W))) {n : Nat} {event : Event} {k : H} :
    let c := (start .blank w 0).run (rules (lineup.again deliveries)) moves
    lineup.Received deliveries c.state.1 n event k →
      (∀ l, lineup.Unbroken deliveries c.state.1 event.id k n l →
        Spared deliveries c.state.1 event.id k n l) ∧
      ∀ done, c.jobs[0]? = some (.done done) → ∀ l ≤ done,
        (Spared deliveries c.state.1 event.id k n l ↔
          lineup.Unbroken deliveries c.state.1 event.id k n l) := by
  intro c hreceived
  have hstart : (lineup.keeper deliveries).inv Register.blank := fun _ _ _ hr => by cases hr.passed.1
  obtain ⟨hinv, hrest⟩ := (lineup.steady deliveries).run hstart (lineup.atRest_blank deliveries) w moves
  constructor
  · exact hinv n event k hreceived
  · intro done hdone
    exact (hrest done hdone).spared_iff n event k hreceived

namespace Mixed

/-- Two handlers that take every event. One runs once per event. The other goes by a list of what is to
succeed. -/
def lineup (lane : List Bool) : Lineup Bool (List Bool) where
  inner planned :=
    { accepts := fun _ => true
      handle := fun _ _ => if planned then outcome else return .ok ()
      rollback := fun _ _ => return .ok () }
  once planned := !planned
  observe _ := return ()
  lane := lane
where
  outcome : Fiber (List Bool) (Except Failure Unit) :=
    Fiber.perform fun plan => (if plan.headD true then .ok () else .error (.text "refused"), plan.tail)

def event : Event :=
  ⟨⟨.ofNat 1⟩, "noted", ⟨.ofNat 2⟩, "tally", none, 1, ⟨2024, 1, 1, 0, 0, 0, 0⟩, .null⟩

/-- One event is delivered three times. -/
def deliveries : List (Context × Event) :=
  .replicate 3 (.background, event)

theorem delivers {n : Nat} (hn : n < 3) : Delivers deliveries n event := by
  rw [Delivers, deliveries, List.getElem?_replicate_of_lt hn, Option.map_some]

/-- The second time it is refused. -/
def final (lane : List Bool) : Crowd (Register Bool × List Bool) Empty Nat :=
  (start .blank [true, false] 0).run (rules ((lineup lane).again deliveries)) (.replicate 40 (.job 0))

/-- The calls on a page, each with the name of the handler and whether it is to undo the event. -/
def calls (reg : Register Bool) (n : Nat) : List (Bool × Bool) :=
  (reg.page n).filterMap fun
    | .called k undo => some (k, undo)
    | _ => none

theorem mem_page_of_calls {reg : Register Bool} {n : Nat} {k undo : Bool} (h : (k, undo) ∈ calls reg n) :
    .called k undo ∈ reg.page n := by
  obtain ⟨r, hr, he⟩ := List.mem_filterMap.mp h
  cases r with
  | called j u =>
    cases he
    exact hr
  | failed e => cases he
  | closed => cases he

/-- Whether a dispatch is over, with failures only up to some place. -/
def isOver (reg : Register Bool) (n place : Nat) : Bool :=
  (reg.page n).any (· matches .closed) && (reg.page n).all fun
    | .failed e => e.isRollback || e.index < place
    | _ => true

theorem received (lane : List Bool) (hmem : false ∈ lane) (hover : isOver (final lane).state.1 0 0 = true) :
    (lineup lane).Received deliveries (final lane).state.1 0 event false where
  delivers := delivers (by decide)
  passed := by
    obtain ⟨hclosed, hfailed⟩ := Bool.and_eq_true_iff.mp hover
    constructor
    · obtain ⟨r, hr, he⟩ := List.any_eq_true.mp hclosed
      cases r with
      | closed => exact hr
      | called j u => cases he
      | failed e => cases he
    · intro e he
      simpa using List.all_eq_true.mp hfailed _ he
  once := rfl
  mem := hmem
  accepts := rfl

/-- Nothing failed behind a handler if nothing failed beyond the first place. -/
theorem not_failedBehind {lane : List Bool} {reg : Register Bool} {n : Nat} {event : Event} {k : Bool}
    (hover : isOver reg n 1 = true) : ¬ (lineup lane).FailedBehind reg n event k := by
  rintro ⟨e, he, hr, -, i, hi, -⟩
  have hfailed := List.all_eq_true.mp (Bool.and_eq_true_iff.mp hover).2 _ he
  simp only [hr, Bool.false_or, decide_eq_true_eq] at hfailed
  omega

end Mixed

/-- Though a dispatch had passed, the handler that runs once per event is undone in the next one, where the other
handler fails behind him; and in the one after that it has the event handled again. -/
theorem called_after_passed :
    let lineup := Mixed.lineup [false, true]
    let reg := (Mixed.final [false, true]).state.1
    lineup.Received Mixed.deliveries reg 0 Mixed.event false ∧
      Delivers Mixed.deliveries 1 Mixed.event ∧ .called false true ∈ reg.page 1 ∧
      Delivers Mixed.deliveries 2 Mixed.event ∧ .called false false ∈ reg.page 2 := by
  intro lineup reg
  refine ⟨Mixed.received _ (by decide) (by decide +kernel), Mixed.delivers (by decide), ?_,
    Mixed.delivers (by decide), ?_⟩
  · exact Mixed.mem_page_of_calls (by decide +kernel)
  · exact Mixed.mem_page_of_calls (by decide +kernel)

/-- Behind the handler that fails it is spared. -/
theorem spared_behind_failure :
    let c := Mixed.final [true, false]
    (Mixed.lineup [true, false]).Received Mixed.deliveries c.state.1 0 Mixed.event false ∧
      (Mixed.lineup [true, false]).Unbroken Mixed.deliveries c.state.1 Mixed.event.id false 0 3 ∧
      Spared Mixed.deliveries c.state.1 Mixed.event.id false 0 3 := by
  intro c
  have hreceived := Mixed.received [true, false] (by decide) (by decide +kernel)
  have hunbroken : (Mixed.lineup [true, false]).Unbroken Mixed.deliveries c.state.1 Mixed.event.id false 0 3 := by
    intro m event hm hl _ _
    have hover : ∀ m < 3, Mixed.isOver (Mixed.final [true, false]).state.1 m 1 = true := by decide +kernel
    exact Mixed.not_failedBehind (hover m hl)
  have hspared := spared_iff_unbroken (Mixed.lineup [true, false]) Mixed.deliveries [true, false]
    (.replicate 40 (.job 0)) hreceived
  exact ⟨hreceived, hunbroken, hspared.1 3 hunbroken⟩

end EventJournal.Lineup
