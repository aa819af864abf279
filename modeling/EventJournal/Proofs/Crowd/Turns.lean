import EventJournal.Proofs.Crowd.Progress
import EventJournal.Proofs.Handler.Abiding

/-!
The turns of a job. Until its first one a job is as it joined, whatever the others do; from then on it is what its
turns made of it, and a program that needs so many turns has ended when it has had them.
-/
namespace EventJournal

variable {σ ν κ τ α : Type}

namespace Move

def isTurn (i : Nat) : Move τ → Bool
  | .job j => j == i
  | _ => false

/-- How many turns a job has in a row of steps. -/
def turns (i : Nat) (moves : List (Move τ)) : Nat :=
  moves.countP (isTurn i)

variable {i : Nat} {m : Move τ} {moves : List (Move τ)}

theorem isTurn_iff : m.isTurn i = true ↔ m = .job i := by
  cases m with
  | job j => simp [isTurn]
  | call | outside t => simp [isTurn]

@[simp] theorem turns_append (ms ms' : List (Move τ)) : turns i (ms ++ ms') = turns i ms + turns i ms' :=
  List.countP_append

theorem turns_cons (m : Move τ) (ms : List (Move τ)) : turns i (m :: ms) = turns i [m] + turns i ms :=
  turns_append [m] ms

theorem turns_job (i : Nat) : turns i [(.job i : Move τ)] = 1 := by
  simp [turns, isTurn]

theorem turns_eq_zero_of_ne (hm : m ≠ .job i) : turns i [m] = 0 := by
  simp [turns, isTurn_iff, hm]

/-- Before its first turn a job has none. -/
theorem exists_first_turn (h : 0 < turns i moves) :
    ∃ past rest, moves = past ++ .job i :: rest ∧ turns i past = 0 := by
  induction moves with
  | nil => cases h
  | cons m moves ih =>
    by_cases hm : m = .job i
    · exact ⟨[], moves, congrArg (· :: moves) hm, rfl⟩
    · have hzero := turns_eq_zero_of_ne hm
      rw [turns_cons, hzero, Nat.zero_add] at h
      obtain ⟨past, rest, rfl, hpast⟩ := ih h
      refine ⟨m :: past, rest, rfl, ?_⟩
      rw [turns_cons, hzero, hpast]

end Move

namespace Told

@[simp] theorem erase_rest (t : Told σ ν α) : t.rest.erase = t.erase := by
  induction t with
  | done a => rfl
  | act ready effect next => rfl
  | note n rest ih => exact ih

/-- While a test of the state succeeds the program never has to wait, and after so many acts it has ended with such
a result. -/
def EndsBy (P : σ → Prop) (R : α → Prop) : Told σ ν α → Nat → Prop
  | done a, _ => R a
  | note _ rest, n => rest.EndsBy P R n
  | act _ _ _, 0 => False
  | act ready _ next, n + 1 => ∀ s, P s → ready s = true ∧ (next s).EndsBy P R n

variable {P : σ → Prop} {R : α → Prop} {t : Told σ ν α} {n : Nat}

theorem EndsBy.rest (ht : t.EndsBy P R n) : t.rest.EndsBy P R n := by
  induction t with
  | done a => exact ht
  | act ready effect next => exact ht
  | note m rest ih => exact ih ht

/-- There is nothing to do any more. -/
theorem EndsBy.ended (ht : t.EndsBy P R 0) : ∃ a, t.rest = .done a ∧ R a := by
  induction t with
  | done a => exact ⟨a, rfl, ht⟩
  | act ready effect next => exact ht.elim
  | note m rest ih => exact ih ht

theorem EndsBy.mono {Q : α → Prop} (ht : t.EndsBy P R n) (h : ∀ a, R a → Q a) : t.EndsBy P Q n := by
  induction t generalizing n with
  | done a => exact h a ht
  | note m rest ih => exact ih ht
  | act ready effect next ih =>
    cases n with
    | zero => exact ht.elim
    | succ n => exact fun s hs => ⟨(ht s hs).1, ih s (ht s hs).2⟩

/-- What follows needs no turns. -/
theorem EndsBy.bind {β : Type} {Q : β → Prop} {f : α → Told σ ν β} (ht : t.EndsBy P R n)
    (hf : ∀ a n, R a → (f a).EndsBy P Q n) : (t.bind f).EndsBy P Q n := by
  induction t generalizing n with
  | done a => exact hf a n ht
  | note m rest ih => exact ih ht
  | act ready effect next ih =>
    cases n with
    | zero => exact ht.elim
    | succ n => exact fun s hs => ⟨(ht s hs).1, ih s (ht s hs).2⟩

theorem endsBy_perform {f : σ → α × σ} (h : ∀ s, P s → R (f s).1) :
    (ofFiber (Fiber.perform f) : Told σ ν α).EndsBy P R 1 :=
  fun s hs => ⟨rfl, h s hs⟩

/-- An act that need not wait takes one turn. -/
theorem endsBy_perform_bind {β : Type} {Q : β → Prop} {f : σ → α × σ} {g : α → Fiber σ β}
    (h : ∀ s, P s → (ofFiber (g (f s).1) : Told σ ν β).EndsBy P Q n) :
    (ofFiber ((Fiber.perform f).bind g) : Told σ ν β).EndsBy P Q (n + 1) :=
  fun s hs => ⟨rfl, h s hs⟩

end Told

namespace Crowd

open Move

theorem jobs_gather (state : σ) (jobs : List (Told σ ν κ)) :
    (gather state jobs).jobs = jobs.map Told.rest := by
  suffices ∀ c : Crowd σ ν κ, (jobs.foldl join c).jobs = c.jobs ++ jobs.map Told.rest from
    this ⟨state, [], []⟩
  induction jobs with
  | nil => exact fun c => (List.append_nil _).symm
  | cons t rest ih =>
    intro c
    rw [List.foldl_cons, ih, List.map_cons, join, List.append_assoc]
    rfl

variable {rules : Rules σ ν κ τ} {c : Crowd σ ν κ} {i : Nat} {moves : List (Move τ)} {t : Told σ ν κ}

/-- A job stays as it is while it has no turn. -/
theorem getElem?_run_of_turns (hi : c.jobs[i]? = some t) (h : turns i moves = 0) :
    (c.run rules moves).jobs[i]? = some t := by
  induction moves generalizing c with
  | nil => exact hi
  | cons m moves ih =>
    rw [turns_cons, Nat.add_eq_zero_iff] at h
    apply ih (getElem?_step_of_ne rules hi _) h.2
    rintro rfl
    rw [turns_job] at h
    exact Nat.one_ne_zero h.1

/-- What a job does on its turn, if it need not wait. -/
theorem step_act {ready : σ → Bool} {effect : σ → σ} {next : σ → Told σ ν κ} (rules : Rules σ ν κ τ)
    (hi : c.jobs[i]? = some (.act ready effect next)) (hr : ready c.state = true) :
    (c.step rules (.job i)).state = effect c.state ∧
      (c.step rules (.job i)).jobs[i]? = some (next c.state).rest := by
  have hlt : i < c.jobs.length := (List.getElem?_eq_some_iff.mp hi).1
  simp only [step, hi, turn, if_pos hr, proceed, true_and]
  exact List.getElem?_set_self hlt

/-- A job that has ended for good stays so. -/
theorem getElem?_step_of_done {a : κ} (hi : c.jobs[i]? = some (.done a)) (ha : rules.again a = none)
    (m : Move τ) : (c.step rules m).jobs[i]? = some (.done a) := by
  by_cases hm : m = .job i
  · subst hm
    simp only [step, hi, turn, ha]
  · exact getElem?_step_of_ne rules hi hm

theorem getElem?_run_of_done {a : κ} (hi : c.jobs[i]? = some (.done a)) (ha : rules.again a = none)
    (moves : List (Move τ)) : (c.run rules moves).jobs[i]? = some (.done a) := by
  induction moves generalizing c with
  | nil => exact hi
  | cons m moves ih => exact ih (getElem?_step_of_done hi ha m)

section Ends

variable {P : σ → Prop} {R : κ → Prop} {n : Nat}

theorem endsBy_step (hR : ∀ a, R a → rules.again a = none) (hP : P c.state) (hi : c.jobs[i]? = some t.rest)
    (ht : t.EndsBy P R n) (m : Move τ) :
    ∃ u : Told σ ν κ, (c.step rules m).jobs[i]? = some u.rest ∧ u.EndsBy P R (n - turns i [m]) := by
  by_cases hm : m = .job i
  · subst hm
    rw [turns_job]
    induction t with
    | note m rest ih => exact ih hi ht
    | done a => exact ⟨.done a, getElem?_step_of_done hi (hR a ht) _, ht⟩
    | act ready effect next =>
      cases n with
      | zero => exact ht.elim
      | succ n =>
        obtain ⟨hr, hn⟩ := ht c.state hP
        exact ⟨next c.state, (step_act rules hi hr).2, hn⟩
  · rw [turns_eq_zero_of_ne hm, Nat.sub_zero]
    exact ⟨t, getElem?_step_of_ne rules hi hm, ht⟩

/-- A program that ends by so many turns has ended after them, if the test succeeds all the time. -/
theorem endsBy_run (hR : ∀ a, R a → rules.again a = none)
    (hP : ∀ k, P (c.run rules (moves.take k)).state) (hi : c.jobs[i]? = some t.rest) (ht : t.EndsBy P R n) :
    ∃ u : Told σ ν κ, (c.run rules moves).jobs[i]? = some u.rest ∧ u.EndsBy P R (n - turns i moves) := by
  induction moves generalizing c t n with
  | nil => exact ⟨t, hi, ht⟩
  | cons m moves ih =>
    obtain ⟨u, hu, hends⟩ := endsBy_step hR (hP 0) hi ht m
    rw [turns_cons, ← Nat.sub_sub]
    exact ih (fun k => hP (k + 1)) hu hends

section Run

variable (hR : ∀ a, R a → rules.again a = none) (hP : ∀ k, P (c.run rules (moves.take k)).state)
  (hi : c.jobs[i]? = some t.rest) (ht : t.EndsBy P R n)
include hR hP hi ht

theorem ended_run (hn : n ≤ turns i moves) : ∃ a, (c.run rules moves).jobs[i]? = some (.done a) ∧ R a := by
  obtain ⟨u, hu, hends⟩ := endsBy_run hR hP hi ht
  rw [Nat.sub_eq_zero_of_le hn] at hends
  obtain ⟨a, ha, hRa⟩ := hends.ended
  exact ⟨a, ha ▸ hu, hRa⟩

/-- Whenever it has ended, it has such a result. -/
theorem result_run {a : κ} (ha : (c.run rules moves).jobs[i]? = some (.done a)) : R a := by
  obtain ⟨u, hu, hends⟩ := endsBy_run hR hP hi ht
  rw [ha, Option.some.injEq] at hu
  exact (hu ▸ hends.rest : Told.EndsBy P R (.done a) _)

end Run

end Ends

/-- Whatever happens, a job comes to what its program yields. -/
theorem yields_run {R : κ → Prop} (hR : ∀ a, R a → rules.again a = none) (hi : c.jobs[i]? = some t.rest)
    (ht : t.Yields R) {a : κ} (ha : (c.run rules moves).jobs[i]? = some (.done a)) : R a := by
  induction moves generalizing c t with
  | nil =>
    rw [run_nil, hi, Option.some.injEq] at ha
    exact (ha ▸ ht.rest : Told.Yields R (.done a))
  | cons m moves ih =>
    induction t with
    | note n rest ihrest => exact ihrest hi ht
    | done b => exact ih (t := .done b) (getElem?_step_of_done hi (hR b ht) m) ht ha
    | act ready effect next =>
      obtain ⟨-, hnext⟩ | ⟨-, hstay⟩ := step_or_stay rules hi m
      · exact ih hnext (ht c.state) ha
      · exact ih (t := .act ready effect next) hstay ht ha

/-- Whatever the jobs at these places find, they keep a relation with all they do. -/
def Abiding (I : Nat → Prop) (R : σ → σ → Prop) (c : Crowd σ ν κ) : Prop :=
  ∀ i t, c.jobs[i]? = some t → I i → t.erase.Abides (fun _ => True) R

section Abiding

variable {I : Nat → Prop} {R : σ → σ → Prop} (hrefl : ∀ s, R s s) (houtside : ∀ x s, R s (rules.outside x s))
  (hcall : ∀ s t s', rules.call s = some (t, s') → R s s' ∧ t.erase.Abides (fun _ => True) R)
  (hagain : ∀ a t, rules.again a = some t → t.erase.Abides (fun _ => True) R)

theorem Abiding.proceed (hc : c.Abiding I R) (i : Nat) {t : Told σ ν κ} (s : σ) (h : List (Nat × ν))
    (ht : t.erase.Abides (fun _ => True) R) :
    (Crowd.proceed { c with state := s, history := h } i t).Abiding I R := by
  intro j u hu hj
  simp only [Crowd.proceed, List.getElem?_set] at hu
  split at hu
  · split at hu
    · cases hu
      rwa [Told.erase_rest]
    · cases hu
  · exact hc j u hu hj

include hrefl houtside hcall hagain

theorem Abiding.step (hc : c.Abiding I R) {m : Move τ} (hm : ∀ i, m = .job i → I i) :
    R c.state (c.step rules m).state ∧ (c.step rules m).Abiding I R := by
  cases m with
  | outside x => exact ⟨houtside x c.state, hc⟩
  | call =>
    simp only [Crowd.step]
    cases h : rules.call c.state with
    | none => exact ⟨hrefl c.state, hc⟩
    | some call =>
      obtain ⟨t, s⟩ := call
      obtain ⟨hs, ht⟩ := hcall _ _ _ h
      refine ⟨hs, ?_⟩
      intro j u hu hj
      simp only [Crowd.join, List.getElem?_append, List.getElem?_singleton] at hu
      split at hu
      · exact hc j u hu hj
      · split at hu
        · cases hu
          rwa [Told.erase_rest]
        · cases hu
  | job i =>
    simp only [Crowd.step]
    cases hi : c.jobs[i]? with
    | none => exact ⟨hrefl c.state, hc⟩
    | some t =>
      have ht := hc i t hi (hm i rfl)
      cases t with
      | done a =>
        simp only [Crowd.turn]
        cases ha : rules.again a with
        | none => exact ⟨hrefl c.state, hc⟩
        | some u => exact ⟨hrefl c.state, hc.proceed i _ _ (hagain a u ha)⟩
      | note n rest => exact ⟨hrefl c.state, hc.proceed i _ _ ht⟩
      | act ready effect next =>
        simp only [Crowd.turn]
        by_cases hr : ready c.state = true
        · rw [if_pos hr]
          obtain ⟨hs, hn⟩ := ht c.state trivial hr
          exact ⟨hs, hc.proceed i _ _ hn⟩
        · rw [if_neg hr]
          exact ⟨hrefl c.state, hc⟩

/-- What the jobs that have turns keep is kept by all their turns. -/
theorem Abiding.run (htrans : ∀ s s' s'', R s s' → R s' s'' → R s s'') (hc : c.Abiding I R)
    (hm : ∀ i, 0 < turns i moves → I i) : R c.state (c.run rules moves).state := by
  induction moves generalizing c with
  | nil => exact hrefl c.state
  | cons m moves ih =>
    have hfirst : ∀ i, m = .job i → I i := by
      rintro i rfl
      apply hm
      rw [turns_cons, turns_job]
      omega
    obtain ⟨hs, hc'⟩ := hc.step hrefl houtside hcall hagain hfirst
    refine htrans _ _ _ hs (ih hc' fun i hi => hm i ?_)
    rw [turns_cons]
    omega

end Abiding

end Crowd

end EventJournal
