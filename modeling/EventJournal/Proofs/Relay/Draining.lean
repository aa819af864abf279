import EventJournal.Proofs.Crowd.Turns
import EventJournal.Proofs.Engine.Fanout
import EventJournal.Proofs.Relay.Passes

/-!
Relays that drain an outbox. What leaves it, leaves it from the front. Each pass that meets no trouble takes as many
batches as the limit lets it, so that after enough passes nothing is left, if nothing else arrives.
-/
namespace EventJournal

open History Passage

variable {W S : Type}

/-- Where one told something, the history splits. -/
theorem History.exists_split_of_own {ν : Type} {i : Nat} {h : List (Nat × ν)} {pre post : List ν} {n : ν}
    (heq : own i h = pre ++ n :: post) : ∃ past later, h = past ++ (i, n) :: later ∧ own i past = pre := by
  obtain ⟨before, after, hfilter, rfl, hafter⟩ := List.map_eq_append_iff.mp heq
  obtain ⟨⟨j, n'⟩, rest, rfl, hn, -⟩ := List.map_eq_cons_iff.mp hafter
  obtain ⟨h₁, h₂, rfl, rfl, hfilter₂⟩ := List.filter_eq_append_iff.mp hfilter
  obtain ⟨h₃, h₄, rfl, hnone, hj, -⟩ := List.filter_eq_cons_iff.mp hfilter₂
  cases hn
  cases eq_of_beq hj
  refine ⟨h₁ ++ h₃, h₄, by rw [List.append_assoc], ?_⟩
  have hno : own j h₃ = [] := own_eq_nil fun p hp => by simpa using hnone p hp
  rw [own_append, hno, List.append_nil]
  rfl

namespace Passage

/-- Nothing is cancelled, refused or recorded by this. -/
def isCalm : Passage → Bool
  | asked cancelled => !cancelled
  | answered result => result.isOk
  | arrived _ => false
  | held _ | handed _ | left _ => true

section Account

variable {gone rest : List PendingBatch} {last : List Passage} {k : Nat} {r : Except RelayError Nat}

theorem foldl_delivery (gone rest : List PendingBatch) : (gone.flatMap delivery).foldl carry (gone ++ rest) = rest := by
  induction gone with
  | nil => rfl
  | cons b gone ih => exact ih

theorem departures_delivery (gone : List PendingBatch) : (gone.flatMap delivery).filterMap departure? = gone := by
  induction gone with
  | nil => rfl
  | cons b gone ih => exact congrArg (b :: ·) ih

theorem handovers_delivery (gone : List PendingBatch) :
    (gone.flatMap delivery).filterMap handover? = gone.map PendingBatch.events := by
  induction gone with
  | nil => rfl
  | cons b gone ih => exact congrArg (b.events :: ·) ih

theorem Ending.foldl_eq (h : Ending k rest last r) (hand : List PendingBatch) : last.foldl carry hand = hand := by
  cases h <;> rfl

theorem Ending.departures_eq (h : Ending k rest last r) : last.filterMap departure? = [] := by
  cases h <;> rfl

/-- Without trouble a pass ends when it has delivered everything. -/
theorem Ending.eq_nil_of_calm (h : Ending k rest last r) (hcalm : ∀ n ∈ last, n.isCalm) : rest = [] ∧ last = [] := by
  cases h with
  | finished => exact ⟨rfl, rfl⟩
  | cancelled b rest => cases hcalm (.asked true) List.mem_cons_self
  | refused b rest source => cases hcalm (.answered (.error source)) (by simp)

/-- After a pass the relay still has in its hands what it did not deliver. -/
theorem inHand_account (h : Ending k rest last r) :
    inHand (held (gone ++ rest) :: (gone.flatMap delivery ++ last)) = rest := by
  change (gone.flatMap delivery ++ last).foldl carry (gone ++ rest) = rest
  rw [List.foldl_append, foldl_delivery, h.foldl_eq]

theorem departures_account (h : Ending k rest last r) :
    (held (gone ++ rest) :: (gone.flatMap delivery ++ last)).filterMap departure? = gone := by
  change (gone.flatMap delivery ++ last).filterMap departure? = gone
  rw [List.filterMap_append, departures_delivery, h.departures_eq, List.append_nil]

end Account

theorem arrivals_of_calm {h : List (Nat × Passage)} (hcalm : ∀ n ∈ h, n.2.isCalm) : arrivals h = [] := by
  rw [arrivals, List.filterMap_eq_nil_iff]
  rintro ⟨i, n⟩ hn
  cases n with
  | arrived b => cases hcalm _ hn
  | asked | held | handed | answered | left => rfl

end Passage

namespace Queue

variable {first : List PendingBatch} {limit : Nat} {o : Outbox} {h : List (Nat × Passage)}

/-- What the relay was told of, if nothing has arrived. -/
theorem held_eq (hq : Queue first limit o h) (hcalm : ∀ n ∈ h, n.2.isCalm) {pre post : List Passage}
    {bs : List PendingBatch} {m : Nat} (heq : own 0 h = pre ++ .held bs :: post)
    (hpre : pre.filterMap departure? = first.take m) : bs = (first.drop m).take limit := by
  obtain ⟨past, later, rfl, hown⟩ := exists_split_of_own heq
  have harrivals : arrivals past = [] := arrivals_of_calm fun n hn => hcalm n (List.mem_append_left _ hn)
  have hdepartures : departures past = first.take m := by
    rw [departures_eq past fun i b hb => hq.carrier i b (List.mem_append_left _ hb), hown, hpre]
  rw [hq.held past bs later rfl, standing, harrivals, hdepartures, List.append_nil, List.length_take]
  rcases Nat.le_total m first.length with hm | hm
  · rw [Nat.min_eq_left hm]
  · rw [Nat.min_eq_right hm, List.drop_length, List.drop_eq_nil_of_le hm]

/-- Each pass without trouble takes away as many batches as the limit lets it. -/
theorem departures_of_calm (hq : Queue first limit o h) (hcalm : ∀ n ∈ h, n.2.isCalm) (pre : List Passage) (m : Nat)
    {results : List (Except RelayError Nat)} {tales : List (List Passage)}
    (hres : List.Forall₂ Account results tales) (heq : own 0 h = pre ++ tales.flatten)
    (hdepartures : pre.filterMap departure? = first.take m)
    (hhandovers : pre.filterMap handover? = (first.take m).map PendingBatch.events) :
    (own 0 h).filterMap departure? = first.take (m + results.length * limit) ∧
      (own 0 h).filterMap handover? = (first.take (m + results.length * limit)).map PendingBatch.events := by
  induction hres generalizing pre m with
  | nil =>
    rw [heq, List.flatten_nil, List.append_nil, List.length_nil, Nat.zero_mul]
    exact ⟨hdepartures, hhandovers⟩
  | @cons r notes results tales hr hrest ih =>
    obtain ⟨gone, rest, last, rfl, hend⟩ := hr
    have hlast : ∀ n ∈ last, n.isCalm := by
      intro n hn
      apply hcalm (0, n) (mem_own.mp _)
      rw [heq]
      simp [hn]
    obtain ⟨rfl, rfl⟩ := hend.eq_nil_of_calm hlast
    have hgone : gone = (first.drop m).take limit := by
      rw [List.flatten_cons, List.cons_append, List.append_nil] at heq
      exact hq.held_eq hcalm heq hdepartures
    have htake : first.take (m + limit) = first.take m ++ gone := by rw [List.take_add, hgone]
    have hcount : m + (r :: results).length * limit = m + limit + results.length * limit := by
      rw [List.length_cons, Nat.add_mul, Nat.one_mul]
      omega
    rw [hcount]
    apply ih (pre ++ (.held (gone ++ []) :: (gone.flatMap delivery ++ [])))
    · rw [heq, List.flatten_cons, List.append_assoc]
    · rw [List.filterMap_append, hdepartures, departures_account hend, htake]
    · have hnotes : (Passage.held (gone ++ []) :: (gone.flatMap delivery ++ [])).filterMap handover? =
          gone.map PendingBatch.events := by
        change (gone.flatMap delivery ++ []).filterMap handover? = _
        rw [List.append_nil, handovers_delivery]
      rw [List.filterMap_append, hhandovers, hnotes, htake, List.map_append]

/-- What a single pass has made of the outbox. -/
theorem of_account (hq : Queue first limit o h) {gone rest : List PendingBatch} {last : List Passage}
    {r : Except RelayError Nat} (hown : own 0 h = .held (gone ++ rest) :: (gone.flatMap delivery ++ last))
    (hend : Ending gone.length rest last r) :
    ∃ past later, h = past ++ (0, .held (gone ++ rest)) :: later ∧
      gone ++ rest = (first ++ arrivals past).take limit ∧ departures h = gone ∧
      first ++ arrivals h = gone ++ o.batches ∧ rest <+: o.batches := by
  have hfirst : own 0 h = [] ++ .held (gone ++ rest) :: (gone.flatMap delivery ++ last) := hown
  obtain ⟨past, later, hsplit, hpast⟩ := exists_split_of_own hfirst
  have hdepartures : departures h = gone := by
    rw [departures_eq h hq.carrier, hown, departures_account hend]
  -- before it asked, the relay had taken nothing
  have hnone : departures past = [] := by
    have hcarrier : ∀ i b, (i, .left b) ∈ past → i = 0 :=
      fun i b hb => hq.carrier i b (hsplit ▸ List.mem_append_left _ hb)
    rw [departures_eq past hcarrier, hpast]
    rfl
  have hheld := hq.held past _ later hsplit
  rw [standing, hnone, List.length_nil, List.drop_zero] at hheld
  have hfront := hq.front
  rw [hown, inHand_account hend] at hfront
  refine ⟨past, later, hsplit, hheld, hdepartures, ?_, hfront⟩
  rw [hq.conserved, hdepartures]

/-- Enough passes without trouble leave nothing. -/
theorem drained (hq : Queue first limit o h) (hcalm : ∀ n ∈ h, n.2.isCalm)
    {results : List (Except RelayError Nat)} {tales : List (List Passage)} (hres : List.Forall₂ Account results tales)
    (hown : own 0 h = tales.flatten) (henough : first.length ≤ results.length * limit) :
    o.batches = [] ∧ departures h = first ∧ (own 0 h).filterMap handover? = first.map PendingBatch.events := by
  obtain ⟨hdepartures, hhandovers⟩ := hq.departures_of_calm hcalm [] 0 hres hown rfl rfl
  rw [Nat.zero_add, List.take_of_length_le henough] at hdepartures hhandovers
  have hleft : departures h = first := (departures_eq h hq.carrier).trans hdepartures
  refine ⟨?_, hleft, hhandovers⟩
  have hconserved := hq.conserved
  rw [arrivals_of_calm hcalm, hleft, List.append_nil] at hconserved
  exact List.self_eq_append_right.mp hconserved

end Queue

namespace Haul

variable [Ambient (Fiber W)] [State S] (name : String) (policy : VersionPolicy) (inner : Publisher (Fiber W))
  (config : RelayConfig) {store : Store S} (hstore : store.outbox.Numbered) (w : W)
  (recordings : List (Context × Stream S)) (ctxs : List Context)
include hstore

/-- However the relay and those who record take turns, they mind the queue. -/
theorem holds_crowd (moves : List (Move (W → W))) :
    (accord store.outbox.batches config.batch ctxs.length).Holds
      ((crowd name policy inner config store w recordings ctxs).run rules moves) := by
  refine Accord.Holds.run (lawful _ _ _) (Accord.Holds.gather (lawful _ _ _) ?_ (fun _ => trivial) ?_) moves
    fun _ => trivial
  · exact Queue.start hstore config.batch
  · intro i t ht h _ hq hown
    cases i with
    | zero =>
      cases ht
      refine Accord.Safe.bind ((minds_rounds ctxs rfl hq).mono ?_)
      rintro results s' h' ⟨hq', hlength, tales, ho, hres⟩
      rw [hown, List.nil_append] at ho
      exact ⟨fun _ => hq', fun _ => ⟨results, tales, rfl, hlength, ho, hres⟩⟩
    | succ i =>
      obtain ⟨⟨ctx, stream⟩, -, rfl⟩ := List.mem_map.mp (List.mem_of_getElem? ht)
      exact minds_recording name policy ctx stream (Nat.succ_ne_zero i) hq

/-- The queue at any moment of a crowd. -/
theorem queue_run (moves : List (Move (W → W))) :
    let c := (crowd name policy inner config store w recordings ctxs).run rules moves
    Queue store.outbox.batches config.batch c.state.1.outbox c.history :=
  (holds_crowd name policy inner config hstore w recordings ctxs moves).inv

/-- A relay that has ended gave account of all its passes. -/
theorem settled_run {moves : List (Move (W → W))} {a : Return}
    (hdone : ((crowd name policy inner config store w recordings ctxs).run rules moves).jobs[0]? = some (.done a)) :
    Settled ctxs.length 0 a ((crowd name policy inner config store w recordings ctxs).run rules moves).history :=
  (holds_crowd name policy inner config hstore w recordings ctxs moves).ended (lawful _ _ _) trivial hdone

/-- The relay comes to its end under a fair schedule. -/
theorem comes_to_end {schedule : Nat → Move (W → W)}
    (hfair : (crowd name policy inner config store w recordings ctxs).Fair rules schedule 0) :
    ∃ n results, results.length = ctxs.length ∧
      ((crowd name policy inner config store w recordings ctxs).reached rules schedule n).jobs[0]? =
        some (.done (some results)) := by
  have hjob : ((crowd name policy inner config store w recordings ctxs).reached rules schedule 0).jobs[0]? =
      some (passing inner config ctxs : Haul W S Return).rest := by
    rw [Crowd.reached, List.range_zero, List.map_nil, Crowd.run_nil, crowd, Crowd.jobs_gather]
    rfl
  obtain ⟨n, a, ha⟩ := hfair.ends hjob
  obtain ⟨results, tales, rfl, hlength, -, -⟩ := settled_run name policy inner config hstore w recordings ctxs ha rfl
  exact ⟨n, results, hlength, ha⟩

end Haul

/-- The passes of a relay. One pass that has come back was told of the first batches standing in the outbox, up to the
limit. It handed an initial part of them over, in order and successfully, and these are the ones that have left. If it
was refused the next one it says so, and that one is the first in the outbox; otherwise it counts the delivered ones,
and has left others only if it was cancelled. What it did not deliver is in the outbox still, as it was and in order,
with what has come since behind it. Under a fair schedule all passes come back. Over any number of them, into which
others record as they like, batches leave under rising ids, and what stays is conserved. And if nothing is cancelled,
refused or recorded, just enough passes for the batches leave nothing, and hand each of them over once. -/
theorem relay_passes [Ambient (Fiber W)] [State S] (name : String) (policy : VersionPolicy)
    (inner : Publisher (Fiber W)) (config : RelayConfig) (store : Store S) (hstore : store.outbox.Numbered) (w : W)
    (recordings : List (Context × Stream S)) :
    let first := store.outbox.batches
    let crowd := Haul.crowd name policy inner config store w recordings
    (∀ (ctx : Context) (moves : List (Move (W → W))) (r : Except RelayError Nat),
      let c := (crowd [ctx]).run Haul.rules moves
      c.jobs[0]? = some (.done (some [r])) →
        ∃ past later gone rest last, c.history = past ++ (0, .held (gone ++ rest)) :: later ∧
          gone ++ rest = (first ++ arrivals past).take config.batch ∧
          own 0 c.history = .held (gone ++ rest) :: (gone.flatMap delivery ++ last) ∧
          Ending gone.length rest last r ∧ departures c.history = gone ∧
          first ++ arrivals c.history = gone ++ c.state.1.outbox.batches ∧ rest <+: c.state.1.outbox.batches) ∧
    (∀ (ctxs : List Context) (schedule : Nat → Move (W → W)), (crowd ctxs).Fair Haul.rules schedule 0 →
      ∃ n results, results.length = ctxs.length ∧
        ((crowd ctxs).reached Haul.rules schedule n).jobs[0]? = some (.done (some results))) ∧
    (∀ (ctxs : List Context) (moves : List (Move (W → W))),
      let c := (crowd ctxs).run Haul.rules moves
      (departures c.history).Pairwise (fun b b' => b.id < b'.id) ∧ c.state.1.outbox.Numbered ∧
        first ++ arrivals c.history = departures c.history ++ c.state.1.outbox.batches) ∧
    ∀ (ctxs : List Context) (moves : List (Move (W → W))) (results : List (Except RelayError Nat)),
      1 ≤ config.batch → ctxs.length = (first.length + config.batch - 1) / config.batch →
      let c := (crowd ctxs).run Haul.rules moves
      c.jobs[0]? = some (.done (some results)) → (∀ n ∈ c.history, n.2.isCalm) →
        c.state.1.outbox.batches = [] ∧ departures c.history = first ∧
          (own 0 c.history).filterMap handover? = first.map PendingBatch.events := by
  intro first crowd
  have hqueue := Haul.queue_run name policy inner config hstore w recordings
  refine ⟨?_, ?_, ?_, ?_⟩
  · intro ctx moves r c hdone
    obtain ⟨results, tales, hresults, -, hown, haccounts⟩ :=
      Haul.settled_run name policy inner config hstore w recordings [ctx] hdone rfl
    cases hresults
    obtain ⟨notes, rfl, hr⟩ : ∃ notes, tales = [notes] ∧ Account r notes := by
      cases haccounts with
      | cons hr hnil =>
        cases hnil
        exact ⟨_, rfl, hr⟩
    obtain ⟨gone, rest, last, rfl, hend⟩ := hr
    rw [List.flatten_cons, List.flatten_nil, List.append_nil] at hown
    obtain ⟨past, later, hsplit, hheld, hgone, hconserved, hfront⟩ := (hqueue [ctx] moves).of_account hown hend
    exact ⟨past, later, gone, rest, last, hsplit, hheld, hown, hend, hgone, hconserved, hfront⟩
  · intro ctxs schedule hfair
    exact Haul.comes_to_end name policy inner config hstore w recordings ctxs hfair
  · intro ctxs moves c
    have hq := hqueue ctxs moves
    exact ⟨(List.pairwise_append.mp hq.numbered.rising).1, hq.outbox_numbered, hq.conserved⟩
  · intro ctxs moves results hbatch hcount c hdone hcalm
    obtain ⟨_, tales, hresults, hlength, hown, haccounts⟩ :=
      Haul.settled_run name policy inner config hstore w recordings ctxs hdone rfl
    cases hresults
    have henough : first.length ≤ results.length * config.batch := by
      have hdiv := Nat.div_add_mod' (first.length + config.batch - 1) config.batch
      have hmod := Nat.mod_lt (first.length + config.batch - 1) hbatch
      rw [hlength, hcount]
      omega
    exact (hqueue ctxs moves).drained hcalm haccounts hown henough

namespace Still

def pending (n : Nat) (events : List Event) : PendingBatch :=
  ⟨n, "tally", ⟨.ofNat 2⟩, n, events, ⟨2024, 1, 1, 0, 0, 0, 0⟩⟩

/-- The second of three batches has two events. -/
def backlogged : Store Tally :=
  { store with outbox := ⟨3, [pending 1 [placed], pending 2 [placed, placed], pending 3 [placed]]⟩ }

def accepting : Publisher (Fiber Still) := fun _ _ =>
  return .ok ()

def refusingPairs : Publisher (Fiber Still) := fun _ events =>
  return if events.length = 2 then .error .closed else .ok ()

/-- What passes of a relay over these batches come to, two batches at most in each. -/
def relayed (publisher : Publisher (Fiber Still)) (ctxs : List Context) :
    Crowd (Store Tally × Still) Passage Haul.Return :=
  (Haul.crowd "tally" .sequential publisher ⟨5000, 2⟩ backlogged create [] ctxs).run Haul.rules
    (.replicate 40 (.job 0))

theorem numbered_backlogged : backlogged.outbox.Numbered :=
  ⟨by decide, by decide⟩

theorem relayed_twice : (relayed accepting [.background, .background]).jobs[0]? = some (.done (some [.ok 2, .ok 1])) :=
  rfl

theorem calm_twice : ∀ n ∈ (relayed accepting [.background, .background]).history, n.2.isCalm := by
  decide +kernel

theorem relayed_refused : (relayed refusingPairs [.background]).jobs[0]? =
    some (.done (some [.error (.publish 2 .closed)])) :=
  rfl

end Still

/-- Two passes leave nothing of three batches. If the second batch is refused, it and the third one stay. -/
theorem relay_passes_three_batches : Still.backlogged.outbox.Numbered ∧
    (Still.relayed Still.accepting [.background, .background]).state.1.outbox.batches = [] ∧
    ∃ gone rest last, Ending gone.length rest last (.error (.publish 2 .closed)) ∧
      departures (Still.relayed Still.refusingPairs [.background]).history = gone ∧
      rest <+: (Still.relayed Still.refusingPairs [.background]).state.1.outbox.batches := by
  obtain ⟨-, -, -, hdrained⟩ := relay_passes "tally" .sequential Still.accepting ⟨5000, 2⟩ Still.backlogged
    Still.numbered_backlogged Still.create []
  obtain ⟨hempty, -, -⟩ := hdrained [.background, .background] (.replicate 40 (.job 0)) _ (by decide) rfl
    Still.relayed_twice Still.calm_twice
  obtain ⟨hpass, -⟩ := relay_passes "tally" .sequential Still.refusingPairs ⟨5000, 2⟩ Still.backlogged
    Still.numbered_backlogged Still.create []
  obtain ⟨past, later, gone, rest, last, -, -, -, hend, hgone, -, hrest⟩ := hpass .background _ _ Still.relayed_refused
  exact ⟨Still.numbered_backlogged, hempty, gone, rest, last, hend, hgone, hrest⟩

end EventJournal
