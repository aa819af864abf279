import EventJournal.Proofs.Crowd.Told

/-!
Crowds: jobs that share a state, with a history of what each of them told. At every step any one of them
may do its next act, a new job may be called for, or the state may be changed from outside. A run is any
row of such steps, so what holds after every run holds however the jobs interleave.
-/
namespace EventJournal

/-- What a crowd lives by, besides what its jobs do. -/
structure Rules (σ ν κ τ : Type) where
  /-- A job that the state calls for, and the state without that call. -/
  call : σ → Option (Told σ ν κ × σ)
  /-- What a job that has ended goes on with, if it does. -/
  again : κ → Option (Told σ ν κ)
  /-- What is told of an act by looking on. -/
  watch : σ → σ → List ν
  outside : τ → σ → σ

structure Crowd (σ ν κ : Type) where
  state : σ
  /-- What was told, and by which job. -/
  history : List (Nat × ν)
  jobs : List (Told σ ν κ)

inductive Move (τ : Type) where
  | job (i : Nat)
  | call
  | outside (t : τ)

namespace History

/-- What one job has told. -/
def own {ν : Type} (i : Nat) (history : List (Nat × ν)) : List ν :=
  (history.filter (·.1 == i)).map Prod.snd

/-- Notes as one job tells them. -/
def told {ν : Type} (i : Nat) (notes : List ν) : List (Nat × ν) :=
  notes.map fun n => (i, n)

variable {ν : Type} {i j : Nat}

@[simp] theorem own_nil : own i ([] : List (Nat × ν)) = [] := rfl

@[simp] theorem own_append (h k : List (Nat × ν)) : own i (h ++ k) = own i h ++ own i k := by
  simp [own]

@[simp] theorem own_told (notes : List ν) : own i (told i notes) = notes := by
  induction notes with
  | nil => rfl
  | cons n rest ih =>
    rw [own, told] at ih
    simp [own, told, ih]

@[simp] theorem append_told_nil (i : Nat) (history : List (Nat × ν)) : history ++ told i [] = history :=
  List.append_nil history

theorem own_told_other (h : i ≠ j) (notes : List ν) : own i (told j notes) = [] := by
  induction notes with
  | nil => rfl
  | cons n rest ih =>
    rw [own, told] at ih
    simp only [own, told, List.map_cons, List.filter_cons, beq_eq_false_iff_ne.mpr h.symm]
    exact ih

theorem own_concat (i : Nat) (h : List (Nat × ν)) (n : ν) : own i (h ++ [(i, n)]) = own i h ++ [n] := by
  rw [own_append]
  exact congrArg _ (own_told [n])

/-- What one has just told is among what he has told. -/
theorem mem_own_concat (i : Nat) (h : List (Nat × ν)) (n : ν) : n ∈ own i (h ++ told i [n]) := by
  rw [own_append, own_told]
  exact List.mem_append_right _ (List.mem_singleton.mpr rfl)

theorem mem_own {n : ν} {history : List (Nat × ν)} : n ∈ own i history ↔ (i, n) ∈ history := by
  simp [own]

@[simp] theorem map_snd_told (i : Nat) (notes : List ν) : (told i notes).map Prod.snd = notes := by
  rw [told, List.map_map]
  exact List.map_id notes

/-- Whatever one has told was told. -/
theorem mem_map_snd_of_own {n : ν} {history : List (Nat × ν)} (h : n ∈ own i history) :
    n ∈ history.map Prod.snd :=
  List.mem_map.mpr ⟨(i, n), mem_own.mp h, rfl⟩

theorem own_eq_nil {history : List (Nat × ν)} (h : ∀ p ∈ history, p.1 ≠ i) : own i history = [] := by
  rw [own, List.filter_eq_nil_iff.mpr]
  · rfl
  · intro p hp
    simpa using h p hp

/-- One author told everything. -/
theorem own_eq_map_snd {history : List (Nat × ν)} (h : ∀ p ∈ history, p.1 = i) :
    own i history = history.map Prod.snd := by
  rw [own, List.filter_eq_self.mpr]
  intro p hp
  simpa using h p hp

end History

open History

namespace Crowd

variable {σ ν κ τ : Type}

/-- A job joins, and tells what comes before its first act. -/
def join (c : Crowd σ ν κ) (t : Told σ ν κ) : Crowd σ ν κ :=
  { c with history := c.history ++ told c.jobs.length t.heard, jobs := c.jobs ++ [t.rest] }

/-- A crowd of jobs of which none has done anything yet. -/
def gather (state : σ) (jobs : List (Told σ ν κ)) : Crowd σ ν κ :=
  jobs.foldl join ⟨state, [], []⟩

/-- A job tells its notes and goes on with what follows on them. -/
def proceed (c : Crowd σ ν κ) (i : Nat) (t : Told σ ν κ) : Crowd σ ν κ :=
  { c with history := c.history ++ told i t.heard, jobs := c.jobs.set i t.rest }

/-- What a job does next, if it can. -/
def turn (rules : Rules σ ν κ τ) (c : Crowd σ ν κ) (i : Nat) : Told σ ν κ → Crowd σ ν κ
  | .done a =>
    match rules.again a with
    | some t => c.proceed i t
    | none => c
  | .act ready effect next =>
    if ready c.state then
      let seen := rules.watch c.state (effect c.state)
      proceed { c with state := effect c.state, history := c.history ++ told i seen } i (next c.state)
    else c
  | t@(.note _ _) => c.proceed i t

def step (rules : Rules σ ν κ τ) (c : Crowd σ ν κ) : Move τ → Crowd σ ν κ
  | .job i =>
    match c.jobs[i]? with
    | some t => c.turn rules i t
    | none => c
  | .call =>
    match rules.call c.state with
    | some (t, state) => join { c with state } t
    | none => c
  | .outside t => { c with state := rules.outside t c.state }

def run (rules : Rules σ ν κ τ) (c : Crowd σ ν κ) (moves : List (Move τ)) : Crowd σ ν κ :=
  moves.foldl (step rules) c

theorem length_gather (state : σ) (jobs : List (Told σ ν κ)) :
    (gather state jobs).jobs.length = jobs.length := by
  suffices ∀ c : Crowd σ ν κ, (jobs.foldl join c).jobs.length = c.jobs.length + jobs.length from
    (this ⟨state, [], []⟩).trans (Nat.zero_add _)
  induction jobs with
  | nil => exact fun c => rfl
  | cons t rest ih =>
    intro c
    rw [List.foldl_cons, ih, List.length_cons, join, List.length_append, List.length_singleton]
    omega

@[simp] theorem state_gather (state : σ) (jobs : List (Told σ ν κ)) :
    (gather state jobs).state = state := by
  suffices ∀ c : Crowd σ ν κ, (jobs.foldl join c).state = c.state from this ⟨state, [], []⟩
  induction jobs with
  | nil => exact fun c => rfl
  | cons t rest ih => exact fun c => ih (c.join t)

/-- While nobody has anything to tell before his first act, nothing is told by gathering. -/
theorem history_gather_eq_nil (state : σ) {jobs : List (Told σ ν κ)} (hj : ∀ t ∈ jobs, t.heard = []) :
    (gather state jobs).history = [] := by
  suffices ∀ c : Crowd σ ν κ, c.history = [] → (jobs.foldl join c).history = [] from this _ rfl
  induction jobs with
  | nil => exact fun c hc => hc
  | cons t rest ih =>
    intro c hc
    refine ih (fun u hu => hj u (List.mem_cons_of_mem t hu)) _ ?_
    rw [join, hc, hj t List.mem_cons_self]
    rfl

@[simp] theorem run_nil (rules : Rules σ ν κ τ) (c : Crowd σ ν κ) : c.run rules [] = c := rfl

@[simp] theorem run_cons (rules : Rules σ ν κ τ) (c : Crowd σ ν κ) (m : Move τ) (ms : List (Move τ)) :
    c.run rules (m :: ms) = (c.step rules m).run rules ms := rfl

theorem run_append (rules : Rules σ ν κ τ) (c : Crowd σ ν κ) (ms ms' : List (Move τ)) :
    c.run rules (ms ++ ms') = (c.run rules ms).run rules ms' :=
  List.foldl_append

/-- Whether a test succeeds all along a run. -/
def along (rules : Rules σ ν κ τ) (test : Crowd σ ν κ → Bool) (c : Crowd σ ν κ) : List (Move τ) → Bool
  | [] => test c
  | m :: ms => test c && (c.step rules m).along rules test ms

theorem along_take {rules : Rules σ ν κ τ} {test : Crowd σ ν κ → Bool} {c : Crowd σ ν κ} {moves : List (Move τ)}
    (h : c.along rules test moves = true) (n : Nat) : test (c.run rules (moves.take n)) = true := by
  induction moves generalizing c n with
  | nil => simpa [along] using h
  | cons m ms ih =>
    obtain ⟨hc, hrest⟩ := Bool.and_eq_true_iff.mp h
    cases n with
    | zero => exact hc
    | succ n => exact ih hrest n

/-- What was told stays told. -/
theorem history_step (rules : Rules σ ν κ τ) (c : Crowd σ ν κ) (m : Move τ) :
    ∃ more, (c.step rules m).history = c.history ++ more := by
  have hsame : ∃ more, c.history = c.history ++ more := ⟨[], (List.append_nil _).symm⟩
  cases m with
  | call =>
    simp only [step]
    cases rules.call c.state with
    | none => exact hsame
    | some call => exact ⟨_, rfl⟩
  | outside t => exact hsame
  | job i =>
    simp only [step]
    cases c.jobs[i]? with
    | none => exact hsame
    | some t =>
      cases t with
      | done a =>
        simp only [turn]
        cases rules.again a with
        | none => exact hsame
        | some u => exact ⟨_, rfl⟩
      | note n rest => exact ⟨_, rfl⟩
      | act ready effect next =>
        simp only [turn]
        split
        · exact ⟨_, List.append_assoc ..⟩
        · exact hsame

theorem history_run (rules : Rules σ ν κ τ) (c : Crowd σ ν κ) (moves : List (Move τ)) :
    ∃ more, (c.run rules moves).history = c.history ++ more := by
  induction moves generalizing c with
  | nil => exact ⟨[], (List.append_nil _).symm⟩
  | cons m moves ih =>
    obtain ⟨first, hf⟩ := history_step rules c m
    obtain ⟨later, hl⟩ := ih (c.step rules m)
    exact ⟨first ++ later, by rw [run_cons, hl, hf, List.append_assoc]⟩

/-- Nobody joins unless the state calls for it. -/
theorem length_jobs_step {rules : Rules σ ν κ τ} (hcall : ∀ s, rules.call s = none) (c : Crowd σ ν κ)
    (m : Move τ) : (c.step rules m).jobs.length = c.jobs.length := by
  cases m with
  | call => simp [step, hcall]
  | outside t => rfl
  | job i =>
    simp only [step]
    cases c.jobs[i]? with
    | none => rfl
    | some t =>
      cases t with
      | done a =>
        simp only [turn]
        cases rules.again a with
        | none => rfl
        | some u => exact List.length_set
      | note n rest => exact List.length_set
      | act ready effect next =>
        simp only [turn]
        split
        · exact List.length_set
        · rfl

theorem length_jobs_run {rules : Rules σ ν κ τ} (hcall : ∀ s, rules.call s = none) (c : Crowd σ ν κ)
    (moves : List (Move τ)) : (c.run rules moves).jobs.length = c.jobs.length := by
  induction moves generalizing c with
  | nil => rfl
  | cons m moves ih =>
    rw [run_cons, ih]
    exact length_jobs_step hcall c m

/-- What a crowd has come to after so many steps of a schedule. -/
def reached (rules : Rules σ ν κ τ) (c : Crowd σ ν κ) (schedule : Nat → Move τ) (n : Nat) :
    Crowd σ ν κ :=
  c.run rules ((List.range n).map schedule)

theorem reached_succ (rules : Rules σ ν κ τ) (c : Crowd σ ν κ) (schedule : Nat → Move τ) (n : Nat) :
    c.reached rules schedule (n + 1) = (c.reached rules schedule n).step rules (schedule n) := by
  rw [reached, List.range_succ, List.map_append]
  exact run_append rules c _ _

/-- It is this job's turn, and the job can go on. -/
def Serves (c : Crowd σ ν κ) (m : Move τ) (i : Nat) : Prop :=
  m = .job i ∧ ∃ t, c.jobs[i]? = some t ∧ t.isReady c.state = true

/-- A job that is not done is served sooner or later, at whatever time. -/
def Fair (rules : Rules σ ν κ τ) (c : Crowd σ ν κ) (schedule : Nat → Move τ) (i : Nat) : Prop :=
  ∀ n, (∃ a, (c.reached rules schedule n).jobs[i]? = some (.done a)) ∨
    ∃ m, n ≤ m ∧ (c.reached rules schedule m).Serves (schedule m) i

section Fair

variable {rules : Rules σ ν κ τ} {c : Crowd σ ν κ} {i : Nat} {ready : σ → Bool} {effect : σ → σ}
  {next : σ → Told σ ν κ}

variable (rules) in
/-- A job stays as it is while it is not its turn. -/
theorem getElem?_step_of_ne {t : Told σ ν κ} (hi : c.jobs[i]? = some t) {m : Move τ} (hm : m ≠ .job i) :
    (c.step rules m).jobs[i]? = some t := by
  have hlt : i < c.jobs.length := (List.getElem?_eq_some_iff.mp hi).1
  cases m with
  | outside t => exact hi
  | call =>
    simp only [step]
    cases rules.call c.state with
    | none => exact hi
    | some call =>
      simp only [join]
      rwa [List.getElem?_append_left hlt]
  | job j =>
    have hj : j ≠ i := fun hj => hm (hj ▸ rfl)
    have hother : ∀ u : Told σ ν κ, (c.jobs.set j u.rest)[i]? = some t :=
      fun u => by rwa [List.getElem?_set_ne hj]
    simp only [step]
    cases c.jobs[j]? with
    | none => exact hi
    | some u =>
      cases u with
      | done a =>
        simp only [turn]
        cases rules.again a with
        | none => exact hi
        | some u => exact hother u
      | note n rest => exact hother _
      | act ready effect next =>
        simp only [turn]
        split
        · exact hother _
        · exact hi

variable (rules) in
/-- A job waits with its act until it is served. -/
theorem step_or_stay (hi : c.jobs[i]? = some (.act ready effect next)) (m : Move τ) :
    (c.Serves m i ∧ (c.step rules m).jobs[i]? = some (next c.state).rest) ∨
      (¬ c.Serves m i ∧ (c.step rules m).jobs[i]? = some (.act ready effect next)) := by
  by_cases hm : m = .job i
  · subst hm
    simp only [step, hi, turn]
    by_cases hr : ready c.state = true
    · refine .inl ⟨⟨rfl, _, hi, hr⟩, ?_⟩
      rw [if_pos hr]
      exact List.getElem?_set_self (List.getElem?_eq_some_iff.mp hi).1
    · refine .inr ⟨?_, by rw [if_neg hr]; exact hi⟩
      rintro ⟨-, t, ht, hready⟩
      rw [hi] at ht
      cases ht
      exact hr hready
  · exact .inr ⟨fun h => hm h.1, getElem?_step_of_ne rules hi hm⟩

/-- A fair schedule brings a job to its end. -/
theorem Fair.ends {schedule : Nat → Move τ} (hf : c.Fair rules schedule i) {t : Told σ ν κ} {n : Nat}
    (ht : (c.reached rules schedule n).jobs[i]? = some t.rest) :
    ∃ m a, (c.reached rules schedule m).jobs[i]? = some (.done a) := by
  induction t generalizing n with
  | done a => exact ⟨n, a, ht⟩
  | note _ rest ih => exact ih ht
  | act ready effect next ih =>
    obtain hdone | ⟨m, hm, hserved⟩ := hf n
    · exact ⟨n, hdone⟩
    · -- the job waits until then at most
      obtain ⟨d, rfl⟩ := Nat.exists_eq_add_of_le hm
      clear hm
      induction d generalizing n with
      | zero =>
        rcases step_or_stay rules ht (schedule n) with ⟨-, hnext⟩ | ⟨hnot, -⟩
        · rw [← reached_succ] at hnext
          exact ih _ hnext
        · exact absurd hserved hnot
      | succ d ihd =>
        rcases step_or_stay rules ht (schedule n) with ⟨-, hnext⟩ | ⟨-, hstay⟩
        · rw [← reached_succ] at hnext
          exact ih _ hnext
        · rw [← reached_succ] at hstay
          apply ihd hstay
          rwa [Nat.add_right_comm, Nat.add_assoc]

end Fair

end Crowd

end EventJournal
