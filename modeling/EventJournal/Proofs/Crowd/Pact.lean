import EventJournal.Proofs.Crowd.Run

/-!
Invariants of crowds. A pact is an invariant of state and history that has to hold whenever a job stops to let others
act. Of its own a job may rely on that and on its own notes, which nobody else tells. If every job keeps to it, the
invariant holds after every run, however the jobs interleave.
-/
namespace EventJournal

open History

structure Pact (σ ν κ τ : Type) extends Rules σ ν κ τ where
  inv : σ → List (Nat × ν) → Prop
  /-- What is known of a job that has ended, from its notes and its result. -/
  ended : List ν → κ → Prop

namespace Pact

variable {σ ν κ τ α β : Type}

/-- From this state and history job `i` can go through a program, so that the invariant holds before each
of its acts, and `post` at its end. Between its acts the others may change all but its own notes. -/
def Safe (p : Pact σ ν κ τ) (i : Nat) (post : α → σ → List (Nat × ν) → Prop) :
    Told σ ν α → σ → List (Nat × ν) → Prop
  | .done a, s, h => post a s h
  | .note n rest, s, h => p.Safe i post rest s (h ++ [(i, n)])
  | .act ready effect next, s, h =>
    p.inv s h ∧ ∀ s' h', p.inv s' h' → own i h' = own i h → ready s' = true →
      p.Safe i post (next s') (effect s') (h' ++ told i (p.watch s' (effect s')))

/-- What a job has to see to in the end. -/
def Final (p : Pact σ ν κ τ) (i : Nat) (a : κ) (s : σ) (h : List (Nat × ν)) : Prop :=
  p.inv s h ∧ p.ended (own i h) a

/-- A program of a job that has told nothing yet. -/
def Welcomes (p : Pact σ ν κ τ) (t : Told σ ν κ) : Prop :=
  ∀ i s h, p.inv s h → own i h = [] → p.Safe i (p.Final i) t s h

variable {p : Pact σ ν κ τ} {i : Nat} {s : σ} {h : List (Nat × ν)}

theorem safe_bind {post : β → σ → List (Nat × ν) → Prop} (t : Told σ ν α) (f : α → Told σ ν β) :
    p.Safe i post (t.bind f) s h ↔ p.Safe i (fun a => p.Safe i post (f a)) t s h := by
  induction t generalizing s h with
  | done a => exact Iff.rfl
  | note n rest ih => exact ih
  | act ready effect next ih =>
    simp only [Told.bind, Safe]
    refine and_congr_right fun _ => ?_
    exact forall_congr' fun s' => forall_congr' fun h' => forall_congr' fun _ => forall_congr' fun _ =>
      forall_congr' fun _ => ih s'

theorem Safe.bind {post : β → σ → List (Nat × ν) → Prop} {t : Told σ ν α} {f : α → Told σ ν β}
    (ht : p.Safe i (fun a => p.Safe i post (f a)) t s h) : p.Safe i post (t.bind f) s h :=
  (safe_bind t f).mpr ht

theorem Safe.mono {post post' : α → σ → List (Nat × ν) → Prop} {t : Told σ ν α}
    (ht : p.Safe i post t s h) (hp : ∀ a s h, post a s h → post' a s h) : p.Safe i post' t s h := by
  induction t generalizing s h with
  | done a => exact hp a s h ht
  | note n rest ih => exact ih ht
  | act ready effect next ih =>
    obtain ⟨hi, hn⟩ := ht
    constructor
    · exact hi
    · intro s' h' hi' ho hr
      exact ih s' (hn s' h' hi' ho hr)

/-- After an act with its notes the invariant holds again, and the rest of the program is safe whatever
the others do then. -/
theorem Safe.settle {t : Told σ ν κ} (ht : p.Safe i (p.Final i) t s h) :
    p.inv s (h ++ told i t.heard) ∧
      ∀ s' h', p.inv s' h' → own i h' = own i h ++ t.heard → p.Safe i (p.Final i) t.rest s' h' := by
  induction t generalizing s h with
  | done a =>
    obtain ⟨hi, he⟩ := ht
    constructor
    · simpa [Told.heard, told] using hi
    · intro s' h' hi' ho
      rw [Told.heard, List.append_nil] at ho
      exact ⟨hi', by rw [ho]; exact he⟩
  | note n rest ih =>
    obtain ⟨hi, hn⟩ := ih ht
    constructor
    · simpa [Told.heard, told] using hi
    · intro s' h' hi' ho
      apply hn s' h' hi'
      simpa [Told.heard, own] using ho
  | act ready effect next ih =>
    obtain ⟨hi, hn⟩ := ht
    constructor
    · simpa [Told.heard, told] using hi
    · intro s' h' hi' ho
      rw [Told.heard, List.append_nil] at ho
      have hrest : ∀ s'' h'', p.inv s'' h'' → own i h'' = own i h' → ready s'' = true →
          p.Safe i (p.Final i) (next s'') (effect s'') (h'' ++ told i (p.watch s'' (effect s''))) :=
        fun s'' h'' hi'' ho' => hn s'' h'' hi'' (ho'.trans ho)
      exact ⟨hi', hrest⟩

/-- The steps that no job takes keep the invariant, and give work only to jobs that are safe with it. -/
structure Lawful (p : Pact σ ν κ τ) : Prop where
  outside : ∀ t s h, p.inv s h → p.inv (p.outside t s) h
  call : ∀ s h t s', p.inv s h → p.call s = some (t, s') →
    ∀ i, own i h = [] → p.Safe i (p.Final i) t s' h
  again : ∀ a t, p.again a = some t →
    ∀ i s h, p.inv s h → p.ended (own i h) a → p.Safe i (p.Final i) t s h

/-- The invariant holds, and every job is safe from where it has come to. -/
structure Holds (p : Pact σ ν κ τ) (c : Crowd σ ν κ) : Prop where
  inv : p.inv c.state c.history
  authors : ∀ n ∈ c.history, n.1 < c.jobs.length
  safe : ∀ i t, c.jobs[i]? = some t → ∀ s h, p.inv s h → own i h = own i c.history →
    p.Safe i (p.Final i) t s h

variable {c : Crowd σ ν κ}

theorem Holds.own_eq_nil (hc : p.Holds c) (hi : c.jobs.length ≤ i) : own i c.history = [] := by
  apply History.own_eq_nil
  intro n hn he
  have := hc.authors n hn
  omega

/-- What is known of the jobs that have ended. -/
theorem Holds.ended (hc : p.Holds c) {a : κ} (hi : c.jobs[i]? = some (.done a)) :
    p.ended (own i c.history) a :=
  (hc.safe i _ hi c.state c.history hc.inv rfl).2

/-- A job that joins with a safe program leaves everything safe. -/
theorem Holds.join (hc : p.Holds c) {t : Told σ ν κ}
    (ht : p.Safe c.jobs.length (p.Final c.jobs.length) t s c.history) :
    p.Holds (Crowd.join { c with state := s } t) := by
  obtain ⟨hi, hn⟩ := ht.settle
  exact {
    inv := hi
    authors := by
      intro n hn
      simp only [Crowd.join, List.mem_append, told, List.mem_map, List.length_append] at hn ⊢
      rcases hn with hn | ⟨m, -, rfl⟩
      · have := hc.authors n hn
        omega
      · simp
    safe := by
      intro j u hj s' h' hi' ho
      simp only [Crowd.join] at hj ho
      by_cases he : j = c.jobs.length
      · subst he
        rw [List.getElem?_concat_length] at hj
        cases hj
        apply hn s' h' hi'
        rw [ho, own_append, own_told]
      · have hlt : j < c.jobs.length := by
          have := (List.getElem?_eq_some_iff.mp hj).1
          simp only [List.length_append, List.length_singleton] at this
          omega
        rw [List.getElem?_append_left hlt] at hj
        apply hc.safe j u hj s' h' hi'
        rw [ho, own_append, own_told_other he, List.append_nil] }

theorem Holds.gather {state : σ} {jobs : List (Told σ ν κ)} (hi : p.inv state [])
    (hj : ∀ t ∈ jobs, p.Welcomes t) : p.Holds (Crowd.gather state jobs) := by
  have hstart : p.Holds ⟨state, [], []⟩ := ⟨hi, by simp, by simp⟩
  suffices ∀ c, p.Holds c → p.Holds (jobs.foldl Crowd.join c) from this _ hstart
  induction jobs with
  | nil => exact fun c hc => hc
  | cons t jobs ih =>
    intro c hc
    have ht := hj t List.mem_cons_self c.jobs.length c.state c.history hc.inv
      (hc.own_eq_nil (Nat.le_refl _))
    exact ih (fun u hu => hj u (List.mem_cons_of_mem t hu)) _ (hc.join ht)

/-- A job goes on with a program that is safe from the present state, of which the others know nothing
yet but that it adds to the notes of that job. -/
theorem Holds.proceed (hc : p.Holds c) {u t : Told σ ν κ} (hu : c.jobs[i]? = some u) {seen : List ν}
    (ht : p.Safe i (p.Final i) t s (c.history ++ told i seen)) :
    p.Holds (Crowd.proceed { c with state := s, history := c.history ++ told i seen } i t) := by
  obtain ⟨hi, hn⟩ := ht.settle
  have hlt : i < c.jobs.length := (List.getElem?_eq_some_iff.mp hu).1
  exact {
    inv := hi
    authors := by
      intro n hn
      simp only [Crowd.proceed, List.mem_append, told, List.mem_map, List.length_set] at hn ⊢
      rcases hn with (hn | ⟨m, -, rfl⟩) | ⟨m, -, rfl⟩
      · exact hc.authors n hn
      · exact hlt
      · exact hlt
    safe := by
      intro j v hj s' h' hi' ho
      simp only [Crowd.proceed] at hj ho
      by_cases he : j = i
      · subst he
        rw [List.getElem?_set_self hlt] at hj
        cases hj
        apply hn s' h' hi'
        rw [ho, own_append, own_told]
      · rw [List.getElem?_set_ne (Ne.symm he)] at hj
        apply hc.safe j v hj s' h' hi'
        rw [ho, own_append, own_append, own_told_other he, own_told_other he, List.append_nil,
          List.append_nil] }

theorem Holds.goOn (hc : p.Holds c) {u t : Told σ ν κ} (hu : c.jobs[i]? = some u)
    (ht : p.Safe i (p.Final i) t c.state c.history) : p.Holds (c.proceed i t) := by
  have hh : c.history ++ told i [] = c.history := List.append_nil _
  rw [← hh] at ht
  have hgo := hc.proceed hu ht
  rwa [hh] at hgo

theorem Holds.turn (hp : p.Lawful) (hc : p.Holds c) {t : Told σ ν κ} (ht : c.jobs[i]? = some t) :
    p.Holds (c.turn p.toRules i t) := by
  have hs := hc.safe i t ht c.state c.history hc.inv rfl
  cases t with
  | done a =>
    simp only [Crowd.turn]
    cases ha : p.again a with
    | none => exact hc
    | some u => exact hc.goOn ht (hp.again a u ha i c.state c.history hc.inv hs.2)
  | note n rest => exact hc.goOn ht hs
  | act ready effect next =>
    simp only [Crowd.turn]
    by_cases hr : ready c.state = true
    · rw [if_pos hr]
      exact hc.proceed ht (hs.2 c.state c.history hc.inv rfl hr)
    · rw [if_neg hr]
      exact hc

/-- Every step of a crowd keeps a lawful pact. -/
theorem Holds.step (hp : p.Lawful) (hc : p.Holds c) (m : Move τ) : p.Holds (c.step p.toRules m) := by
  cases m with
  | job i =>
    simp only [Crowd.step]
    cases ht : c.jobs[i]? with
    | none => exact hc
    | some t => exact hc.turn hp ht
  | call =>
    simp only [Crowd.step]
    cases hcall : p.call c.state with
    | none => exact hc
    | some call =>
      obtain ⟨t, s⟩ := call
      exact hc.join (hp.call c.state c.history t s hc.inv hcall _ (hc.own_eq_nil (Nat.le_refl _)))
  | outside t => exact ⟨hp.outside t c.state c.history hc.inv, hc.authors, hc.safe⟩

theorem Holds.run (hp : p.Lawful) (hc : p.Holds c) (moves : List (Move τ)) :
    p.Holds (c.run p.toRules moves) := by
  induction moves generalizing c with
  | nil => exact hc
  | cons m moves ih => exact ih (hc.step hp m)

end Pact

end EventJournal
