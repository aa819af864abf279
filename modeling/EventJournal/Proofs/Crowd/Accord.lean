import EventJournal.Proofs.Crowd.Run

/-!
Rely-guarantee reasoning on crowds. An accord says what holds before each act of a job (`inv`), what the job may rely on
about the acts of others while it waits (`rely`), and what may be taken as known of all that the crowd comes to
(`known`). A job is safe if it keeps the invariant and never breaks what others rely on. If every job is safe, the
invariant holds after every run.
-/
namespace EventJournal

open History

structure Accord (σ ν κ τ : Type) extends Rules σ ν κ τ where
  /-- What is known beforehand of every state and history that the crowd comes to. -/
  known : σ → List (Nat × ν) → Prop
  inv : σ → List (Nat × ν) → Prop
  /-- What the others may make of a state and a history while a job waits. -/
  rely : Nat → σ → List (Nat × ν) → σ → List (Nat × ν) → Prop
  /-- What holds of a job that has ended. -/
  ended : Nat → κ → σ → List (Nat × ν) → Prop

namespace Accord

variable {σ ν κ τ α β : Type}

/-- From this state and history job `i` can go through a program, so that the invariant holds before each
of its acts, no act breaks what others rely on, and `post` holds at its end. -/
def Safe (p : Accord σ ν κ τ) (i : Nat) (post : α → σ → List (Nat × ν) → Prop) :
    Told σ ν α → σ → List (Nat × ν) → Prop
  | .done a, s, h => post a s h
  | .note n rest, s, h => p.Safe i post rest s (h ++ [(i, n)])
  | .act ready effect next, s, h => p.known s h → p.inv s h ∧
    ∀ s' h', p.known s' h' → p.inv s' h' → p.rely i s h s' h' → ready s' = true →
      (∀ j, j ≠ i → p.rely j s' h' (effect s') h') ∧
        p.Safe i post (next s') (effect s') (h' ++ told i (p.watch s' (effect s')))

/-- What a job has to see to in the end. -/
def Final (p : Accord σ ν κ τ) (i : Nat) (a : κ) (s : σ) (h : List (Nat × ν)) : Prop :=
  (p.known s h → p.inv s h) ∧ p.ended i a s h

/-- What jobs rely on can be relied on in a row and is not touched by what others note, and the steps that
no job takes keep everything. -/
structure Lawful (p : Accord σ ν κ τ) : Prop where
  refl : ∀ i s h, p.rely i s h s h
  trans : ∀ i s h s' h' s'' h'', p.rely i s h s' h' → p.rely i s' h' s'' h'' → p.rely i s h s'' h''
  note : ∀ i j n s h, j ≠ i → p.rely i s h s (h ++ [(j, n)])
  stable : ∀ i a s h s' h', p.ended i a s h → p.rely i s h s' h' → p.ended i a s' h'
  outside : ∀ t s h, p.inv s h → p.inv (p.outside t s) h ∧ ∀ i, p.rely i s h (p.outside t s) h
  call : ∀ s h t s', p.known s h → p.inv s h → p.call s = some (t, s') →
    (∀ i, p.rely i s h s' h) ∧ ∀ i, own i h = [] → p.Safe i (p.Final i) t s' h
  again : ∀ a t, p.again a = some t →
    ∀ i s h, p.known s h → p.inv s h → p.ended i a s h → p.Safe i (p.Final i) t s h

/-- The invariant holds, and every job is safe from where it has come to. -/
structure Holds (p : Accord σ ν κ τ) (c : Crowd σ ν κ) : Prop where
  inv : p.inv c.state c.history
  authors : ∀ n ∈ c.history, n.1 < c.jobs.length
  safe : ∀ i t, c.jobs[i]? = some t → ∀ s h, p.known s h → p.inv s h →
    p.rely i c.state c.history s h → p.Safe i (p.Final i) t s h

variable {p : Accord σ ν κ τ} {i : Nat} {s : σ} {h : List (Nat × ν)}

theorem safe_bind {post : β → σ → List (Nat × ν) → Prop} (t : Told σ ν α) (f : α → Told σ ν β) :
    p.Safe i post (t.bind f) s h ↔ p.Safe i (fun a => p.Safe i post (f a)) t s h := by
  induction t generalizing s h with
  | done a => exact Iff.rfl
  | note n rest ih => exact ih
  | act ready effect next ih =>
    simp only [Told.bind, Safe]
    refine forall_congr' fun _ => and_congr_right fun _ => ?_
    exact forall_congr' fun s' => forall_congr' fun h' => forall_congr' fun _ => forall_congr' fun _ =>
      forall_congr' fun _ => forall_congr' fun _ => and_congr_right fun _ => ih s'

theorem Safe.bind {post : β → σ → List (Nat × ν) → Prop} {t : Told σ ν α} {f : α → Told σ ν β}
    (ht : p.Safe i (fun a => p.Safe i post (f a)) t s h) : p.Safe i post (t.bind f) s h :=
  (safe_bind t f).mpr ht

theorem Safe.mono {post post' : α → σ → List (Nat × ν) → Prop} {t : Told σ ν α}
    (ht : p.Safe i post t s h) (hp : ∀ a s h, post a s h → post' a s h) : p.Safe i post' t s h := by
  induction t generalizing s h with
  | done a => exact hp a s h ht
  | note n rest ih => exact ih ht
  | act ready effect next ih =>
    intro hk
    obtain ⟨hi, hn⟩ := ht hk
    constructor
    · exact hi
    · intro s' h' hk' hi' hr hready
      obtain ⟨hothers, hnext⟩ := hn s' h' hk' hi' hr hready
      exact ⟨hothers, ih s' hnext⟩

section Lawful

variable (hp : p.Lawful)
include hp

theorem Lawful.notes {j : Nat} (hj : j ≠ i) (s : σ) (h : List (Nat × ν)) (notes : List ν) :
    p.rely i s h s (h ++ told j notes) := by
  induction notes generalizing h with
  | nil =>
    rw [append_told_nil]
    exact hp.refl i s h
  | cons n rest ih =>
    have hrest := ih (h ++ [(j, n)])
    rw [List.append_assoc] at hrest
    exact hp.trans _ _ _ _ _ _ _ (hp.note i j n s h hj) hrest

/-- Once it has noted what came before its next act, a job is safe whatever the others do then. -/
theorem Safe.settle {t : Told σ ν κ} (ht : p.Safe i (p.Final i) t s h)
    (hk : p.known s (h ++ told i t.heard)) :
    p.inv s (h ++ told i t.heard) ∧
      ∀ s' h', p.known s' h' → p.inv s' h' → p.rely i s (h ++ told i t.heard) s' h' →
        p.Safe i (p.Final i) t.rest s' h' := by
  induction t generalizing s h with
  | done a =>
    obtain ⟨hi, he⟩ := ht
    rw [Told.heard, append_told_nil] at hk ⊢
    constructor
    · exact hi hk
    · intro s' h' _ hi' hr
      exact ⟨fun _ => hi', hp.stable i a s h s' h' he hr⟩
  | note n rest ih =>
    have hsplit : h ++ told i (Told.note n rest).heard = h ++ [(i, n)] ++ told i rest.heard := by
      rw [List.append_assoc]
      rfl
    rw [hsplit] at hk ⊢
    exact ih ht hk
  | act ready effect next ih =>
    rw [Told.heard, append_told_nil] at hk ⊢
    obtain ⟨hi, hn⟩ := ht hk
    constructor
    · exact hi
    · intro s' h' _ hi' hr _
      have hnext : ∀ s'' h'', p.known s'' h'' → p.inv s'' h'' → p.rely i s' h' s'' h'' →
          ready s'' = true → (∀ j, j ≠ i → p.rely j s'' h'' (effect s'') h'') ∧
            p.Safe i (p.Final i) (next s'') (effect s'')
              (h'' ++ told i (p.watch s'' (effect s''))) :=
        fun s'' h'' hk'' hi'' hr' => hn s'' h'' hk'' hi'' (hp.trans _ _ _ _ _ _ _ hr hr')
      exact ⟨hi', hnext⟩

variable {c : Crowd σ ν κ}

omit hp in
theorem Holds.own_eq_nil (hc : p.Holds c) (hi : c.jobs.length ≤ i) : own i c.history = [] := by
  apply History.own_eq_nil
  intro n hn he
  have := hc.authors n hn
  omega

/-- What is known of the jobs that have ended. -/
theorem Holds.ended (hc : p.Holds c) (hk : p.known c.state c.history) {a : κ}
    (hi : c.jobs[i]? = some (.done a)) : p.ended i a c.state c.history :=
  (hc.safe i _ hi c.state c.history hk hc.inv (hp.refl _ _ _)).2

/-- A job that joins with a safe program leaves everything safe. -/
theorem Holds.join (hc : p.Holds c) {t : Told σ ν κ} (hr : ∀ i, p.rely i c.state c.history s c.history)
    (ht : p.Safe c.jobs.length (p.Final c.jobs.length) t s c.history)
    (hk : p.known s (c.history ++ told c.jobs.length t.heard)) :
    p.Holds (Crowd.join { c with state := s } t) := by
  obtain ⟨hi, hn⟩ := ht.settle hp hk
  exact {
    inv := hi
    authors := by
      intro n hn
      simp only [Crowd.join, List.mem_append, told, List.mem_map, List.length_append] at hn ⊢
      rcases hn with hn | ⟨m, -, rfl⟩
      · have := hc.authors n hn
        omega
      · simp
    safe := by
      intro j u hj s' h' hk' hi' hr'
      simp only [Crowd.join] at hj hr'
      by_cases he : j = c.jobs.length
      · subst he
        rw [List.getElem?_concat_length] at hj
        cases hj
        exact hn s' h' hk' hi' hr'
      · have hlt : j < c.jobs.length := by
          have := (List.getElem?_eq_some_iff.mp hj).1
          simp only [List.length_append, List.length_singleton] at this
          omega
        rw [List.getElem?_append_left hlt] at hj
        have hnotes := hp.notes (i := j) (Ne.symm he) s c.history t.heard
        apply hc.safe j u hj s' h' hk' hi'
        exact hp.trans _ _ _ _ _ _ _ (hr j) (hp.trans _ _ _ _ _ _ _ hnotes hr') }

/-- A job goes on with a program that is safe from the present state, of which the others know nothing
yet but that it keeps what they rely on and adds to the notes of that job. -/
theorem Holds.proceed (hc : p.Holds c) {u t : Told σ ν κ} (hu : c.jobs[i]? = some u) {seen : List ν}
    (hr : ∀ j, j ≠ i → p.rely j c.state c.history s c.history)
    (ht : p.Safe i (p.Final i) t s (c.history ++ told i seen))
    (hk : p.known s (c.history ++ told i seen ++ told i t.heard)) :
    p.Holds (Crowd.proceed { c with state := s, history := c.history ++ told i seen } i t) := by
  obtain ⟨hi, hn⟩ := ht.settle hp hk
  have hlt : i < c.jobs.length := (List.getElem?_eq_some_iff.mp hu).1
  exact {
    inv := hi
    authors := by
      intro n hn
      simp only [Crowd.proceed, List.mem_append, told, List.mem_map, List.length_set] at hn ⊢
      rcases hn with (hn | ⟨m, -, rfl⟩) | ⟨m, -, rfl⟩
      · exact hc.authors n hn
      · exact hlt
      · exact hlt
    safe := by
      intro j v hj s' h' hk' hi' hr'
      simp only [Crowd.proceed] at hj hr'
      by_cases he : j = i
      · subst he
        rw [List.getElem?_set_self hlt] at hj
        cases hj
        exact hn s' h' hk' hi' hr'
      · rw [List.getElem?_set_ne (Ne.symm he)] at hj
        have hseen := hp.notes (i := j) (Ne.symm he) s c.history seen
        have hheard := hp.notes (i := j) (Ne.symm he) s (c.history ++ told i seen) t.heard
        apply hc.safe j v hj s' h' hk' hi'
        have hown := hp.trans _ _ _ _ _ _ _ (hr j he) (hp.trans _ _ _ _ _ _ _ hseen hheard)
        exact hp.trans _ _ _ _ _ _ _ hown hr' }

theorem Holds.goOn (hc : p.Holds c) {u t : Told σ ν κ} (hu : c.jobs[i]? = some u)
    (ht : p.Safe i (p.Final i) t c.state c.history)
    (hk : p.known c.state (c.history ++ told i t.heard)) : p.Holds (c.proceed i t) := by
  have hh : c.history ++ told i [] = c.history := List.append_nil _
  rw [← hh] at ht hk
  have hgo := hc.proceed hp hu (fun j _ => hp.refl j _ _) ht hk
  rwa [hh] at hgo

theorem Holds.turn (hc : p.Holds c) (hk : p.known c.state c.history) {t : Told σ ν κ}
    (ht : c.jobs[i]? = some t)
    (hk' : p.known (c.turn p.toRules i t).state (c.turn p.toRules i t).history) :
    p.Holds (c.turn p.toRules i t) := by
  have hs := hc.safe i t ht c.state c.history hk hc.inv (hp.refl _ _ _)
  cases t with
  | done a =>
    simp only [Crowd.turn] at hk' ⊢
    cases ha : p.again a with
    | none => exact hc
    | some u =>
      rw [ha] at hk'
      exact hc.goOn hp ht (hp.again a u ha i c.state c.history hk hc.inv hs.2) hk'
  | note n rest => exact hc.goOn hp ht hs hk'
  | act ready effect next =>
    simp only [Crowd.turn] at hk' ⊢
    by_cases hr : ready c.state = true
    · rw [if_pos hr] at hk' ⊢
      obtain ⟨hothers, hnext⟩ := (hs hk).2 c.state c.history hk hc.inv (hp.refl _ _ _) hr
      exact hc.proceed hp ht hothers hnext hk'
    · rw [if_neg hr]
      exact hc

/-- Every step of a crowd keeps a lawful accord. -/
theorem Holds.step (hc : p.Holds c) (hk : p.known c.state c.history) (m : Move τ)
    (hk' : p.known (c.step p.toRules m).state (c.step p.toRules m).history) :
    p.Holds (c.step p.toRules m) := by
  cases m with
  | job i =>
    simp only [Crowd.step] at hk' ⊢
    cases ht : c.jobs[i]? with
    | none => exact hc
    | some t =>
      rw [ht] at hk'
      exact hc.turn hp hk ht hk'
  | call =>
    simp only [Crowd.step] at hk' ⊢
    cases hcall : p.call c.state with
    | none => exact hc
    | some call =>
      obtain ⟨t, s⟩ := call
      rw [hcall] at hk'
      obtain ⟨hr, ht⟩ := hp.call c.state c.history t s hk hc.inv hcall
      exact hc.join hp hr (ht _ (hc.own_eq_nil (Nat.le_refl _))) hk'
  | outside t =>
    obtain ⟨hi, hr⟩ := hp.outside t c.state c.history hc.inv
    exact {
      inv := hi
      authors := hc.authors
      safe := fun i u hu s' h' hks hi' hr' =>
        hc.safe i u hu s' h' hks hi' (hp.trans _ _ _ _ _ _ _ (hr i) hr') }

theorem Holds.run (hc : p.Holds c) (moves : List (Move τ))
    (hk : ∀ k, p.known (c.run p.toRules (moves.take k)).state (c.run p.toRules (moves.take k)).history) :
    p.Holds (c.run p.toRules moves) := by
  induction moves generalizing c with
  | nil => exact hc
  | cons m moves ih => exact ih (hc.step hp (hk 0) m (hk 1)) fun k => hk (k + 1)

/-- Whatever everybody can rely on is kept by every step. -/
theorem Holds.step_keeps {R : σ → σ → Prop} (hR : ∀ i s h s' h', p.rely i s h s' h' → R s s') (hc : p.Holds c)
    (hk : p.known c.state c.history) (m : Move τ) : R c.state (c.step p.toRules m).state := by
  have hsame : R c.state c.state := hR 0 _ _ _ _ (hp.refl 0 c.state c.history)
  cases m with
  | outside t => exact hR 0 _ _ _ _ ((hp.outside t c.state c.history hc.inv).2 0)
  | call =>
    simp only [Crowd.step]
    cases hcall : p.call c.state with
    | none => exact hsame
    | some call => exact hR 0 _ _ _ _ ((hp.call _ _ call.1 call.2 hk hc.inv hcall).1 0)
  | job i =>
    simp only [Crowd.step]
    cases ht : c.jobs[i]? with
    | none => exact hsame
    | some t =>
      have hs := hc.safe i t ht c.state c.history hk hc.inv (hp.refl _ _ _)
      cases t with
      | done a =>
        simp only [Crowd.turn]
        cases p.again a with
        | none => exact hsame
        | some u => exact hsame
      | note n rest => exact hsame
      | act ready effect next =>
        simp only [Crowd.turn]
        by_cases hr : ready c.state = true
        · rw [if_pos hr]
          obtain ⟨hothers, -⟩ := (hs hk).2 c.state c.history hk hc.inv (hp.refl _ _ _) hr
          exact hR (i + 1) _ _ _ _ (hothers (i + 1) (Nat.succ_ne_self i))
        · rw [if_neg hr]
          exact hsame

theorem Holds.run_keeps {R : σ → σ → Prop} (hR : ∀ i s h s' h', p.rely i s h s' h' → R s s')
    (htrans : ∀ s s' s'', R s s' → R s' s'' → R s s'') (hc : p.Holds c) (moves : List (Move τ))
    (hk : ∀ k, p.known (c.run p.toRules (moves.take k)).state (c.run p.toRules (moves.take k)).history) :
    R c.state (c.run p.toRules moves).state := by
  induction moves generalizing c with
  | nil => exact hR 0 _ _ _ _ (hp.refl 0 c.state c.history)
  | cons m moves ih =>
    have hstep := hc.step hp (hk 0) m (hk 1)
    exact htrans _ _ _ (hc.step_keeps hp hR (hk 0) m) (ih hstep fun k => hk (k + 1))

/-- Jobs gather that are safe from the start, whatever those before them have told already. -/
theorem Holds.gather {state : σ} {jobs : List (Told σ ν κ)} (hi : p.inv state [])
    (hk : ∀ k, p.known state (Crowd.gather state (jobs.take k)).history)
    (hj : ∀ i t, jobs[i]? = some t → ∀ h, p.known state h → p.inv state h → own i h = [] →
      p.Safe i (p.Final i) t state h) :
    p.Holds (Crowd.gather state jobs) := by
  have hstart : p.Holds ⟨state, [], []⟩ := ⟨hi, by simp, by simp⟩
  suffices ∀ c, p.Holds c → c.state = state →
      (∀ k, p.known state ((jobs.take k).foldl Crowd.join c).history) →
      (∀ i t, jobs[i]? = some t → ∀ h, p.known state h → p.inv state h →
        own (c.jobs.length + i) h = [] →
        p.Safe (c.jobs.length + i) (p.Final (c.jobs.length + i)) t state h) →
      p.Holds (jobs.foldl Crowd.join c) from
    this _ hstart rfl hk (by simpa using hj)
  clear hi hstart hj hk
  induction jobs with
  | nil => exact fun c hc _ _ _ => hc
  | cons t jobs ih =>
    rintro c hc rfl hk hj
    have hjoin : p.Holds (Crowd.join { c with state := c.state } t) := by
      apply hc.join hp (fun i => hp.refl i _ _)
      · exact hj 0 t rfl c.history (hk 0) hc.inv (hc.own_eq_nil (Nat.le_refl _))
      · exact hk 1
    refine ih _ hjoin rfl (fun k => hk (k + 1)) ?_
    intro i u hu
    have hlength : (Crowd.join { c with state := c.state } t).jobs.length + i =
        c.jobs.length + (i + 1) := by
      simp only [Crowd.join, List.length_append, List.length_singleton]
      omega
    rw [hlength]
    exact hj (i + 1) u hu

end Lawful

end Accord

end EventJournal
