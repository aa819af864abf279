import EventJournal.Proofs.Crowd.Keeper

/-!
The progress of keepers. A keeper that is never kept waiting for ever comes to the end of its rounds, if every round
leaves less to do.
-/
namespace EventJournal

variable {σ ν α β : Type}

namespace Told

/-- Whatever a program finds, it comes to such results only. -/
def Yields (R : α → Prop) : Told σ ν α → Prop
  | done a => R a
  | act _ _ next => ∀ s, (next s).Yields R
  | note _ rest => rest.Yields R

/-- What comes last decides. -/
theorem yields_bind {R : β → Prop} (t : Told σ ν α) {f : α → Told σ ν β} (hf : ∀ a, (f a).Yields R) :
    (t.bind f).Yields R := by
  induction t with
  | done a => exact hf a
  | act ready effect next ih => exact ih
  | note n rest ih => exact ih

theorem Yields.mono {Q R : α → Prop} {t : Told σ ν α} (ht : t.Yields Q) (h : ∀ a, Q a → R a) : t.Yields R := by
  induction t with
  | done a => exact h a ht
  | act ready effect next ih => exact fun s => ih s (ht s)
  | note n rest ih => exact ih ht

theorem Yields.bind {Q : α → Prop} {R : β → Prop} {t : Told σ ν α} {f : α → Told σ ν β} (ht : t.Yields Q)
    (hf : ∀ a, Q a → (f a).Yields R) : (t.bind f).Yields R := by
  induction t with
  | done a => exact hf a ht
  | act ready effect next ih => exact fun s => ih s (ht s)
  | note n rest ih => exact ih ht

theorem Yields.rest {R : α → Prop} {t : Told σ ν α} (ht : t.Yields R) : t.rest.Yields R := by
  induction t with
  | done a => exact ht
  | act ready effect next => exact ht
  | note n rest ih => exact ih ht

/-- Where nothing is told there is nothing to tell first. -/
theorem rest_eq (t : Told σ Empty α) : t.rest = t := by
  cases t with
  | done a => rfl
  | act ready effect next => rfl
  | note n rest => exact n.elim

end Told

namespace Keeper

variable {B W κ : Type} {again : κ → Option (Keeping B W κ)} {c : Crowd (B × W) Empty κ}
  {schedule : Nat → Move (W → W)}

/-- The keeper can go on, and it is its turn. -/
def Serves (c : Crowd (B × W) Empty κ) (m : Move (W → W)) (t : Keeping B W κ) : Prop :=
  m = .job 0 ∧ ((∃ a, t = .done a) ∨ t.isReady c.state = true)

/-- Sooner or later, at whatever time, the keeper goes on. -/
def Fair (again : κ → Option (Keeping B W κ)) (c : Crowd (B × W) Empty κ) (schedule : Nat → Move (W → W)) : Prop :=
  ∀ n, ∃ m t, n ≤ m ∧ (c.reached (rules again) schedule m).jobs[0]? = some t ∧
    Serves (c.reached (rules again) schedule m) (schedule m) t

variable (again) in
/-- Until then it stays as it is. -/
theorem stays {t : Keeping B W κ} (ht : c.jobs[0]? = some t) {m : Move (W → W)} (hm : ¬ Serves c m t) :
    (c.step (rules again) m).jobs[0]? = some t := by
  by_cases hturn : m = .job 0
  · cases t with
    | done a => exact absurd ⟨hturn, .inl ⟨a, rfl⟩⟩ hm
    | note n rest => exact n.elim
    | act ready effect next =>
      have hr : ¬ ready c.state = true := fun hr => hm ⟨hturn, .inr hr⟩
      rw [hturn]
      simp only [Crowd.step, ht, Crowd.turn, if_neg hr]
  · exact Crowd.getElem?_step_of_ne (rules again) ht hturn

/-- Then it goes on. -/
theorem Fair.served (hf : Fair again c schedule) {t : Keeping B W κ} {n : Nat}
    (ht : (c.reached (rules again) schedule n).jobs[0]? = some t) :
    ∃ m, (c.reached (rules again) schedule m).jobs[0]? = some t ∧
      Serves (c.reached (rules again) schedule m) (schedule m) t := by
  obtain ⟨m, u, hm, hu, hserves⟩ := hf n
  obtain ⟨d, rfl⟩ := Nat.exists_eq_add_of_le hm
  clear hm
  induction d generalizing n with
  | zero =>
    obtain rfl : t = u := Option.some.inj (ht.symm.trans hu)
    exact ⟨n, ht, hserves⟩
  | succ d ih =>
    by_cases hnow : Serves (c.reached (rules again) schedule n) (schedule n) t
    · exact ⟨n, ht, hnow⟩
    · have hstays := stays again ht hnow
      rw [← Crowd.reached_succ] at hstays
      rw [Nat.add_comm d 1, ← Nat.add_assoc] at hu hserves
      exact ih hstays hu hserves

/-- A round comes to its end. -/
theorem Fair.ends_round (hf : Fair again c schedule) {R : κ → Prop} {t : Keeping B W κ} (hR : t.Yields R) {n : Nat}
    (ht : (c.reached (rules again) schedule n).jobs[0]? = some t) :
    ∃ m a, (c.reached (rules again) schedule m).jobs[0]? = some (.done a) ∧ R a := by
  induction t generalizing n with
  | done a => exact ⟨n, a, ht, hR⟩
  | note m rest => exact m.elim
  | act ready effect next ih =>
    obtain ⟨m, hm, hjob, ⟨a, ha⟩ | hready⟩ := hf.served ht
    · cases ha
    · obtain ⟨-, hnext⟩ | ⟨hnot, -⟩ := Crowd.step_or_stay (rules again) hm (schedule m)
      · rw [← Crowd.reached_succ, Told.rest_eq] at hnext
        exact ih _ (hR _) hnext
      · exact absurd ⟨hjob, _, hm, hready⟩ hnot

theorem step_done {a : κ} {t : Keeping B W κ} (ha : c.jobs[0]? = some (.done a)) (ht : again a = some t) :
    (c.step (rules again) (.job 0)).jobs[0]? = some t := by
  have hagain : (rules again).again a = some t := ht
  simp only [Crowd.step, ha, Crowd.turn, hagain, Crowd.proceed, Told.rest_eq]
  exact List.getElem?_set_self (List.getElem?_eq_some_iff.mp ha).1

/-- If every round leaves less to do, nothing is left in the end. -/
theorem Fair.ends (hf : Fair again c schedule) (size : κ → Nat)
    (hless : ∀ a t, again a = some t → t.Yields fun a' => size a' < size a) {a : κ} {n : Nat}
    (ha : (c.reached (rules again) schedule n).jobs[0]? = some (.done a)) :
    ∃ m a', (c.reached (rules again) schedule m).jobs[0]? = some (.done a') ∧ again a' = none := by
  induction hsize : size a using Nat.strongRecOn generalizing a n with
  | _ k ih =>
    subst hsize
    cases ht : again a with
    | none => exact ⟨n, a, ha, ht⟩
    | some t =>
      obtain ⟨m, hm, hjob, -⟩ := hf.served ha
      have hnext : (c.reached (rules again) schedule (m + 1)).jobs[0]? = some t := by
        rw [Crowd.reached_succ, hjob]
        exact step_done hm ht
      obtain ⟨m', a', ha', hsmaller⟩ := hf.ends_round (hless a t ht) hnext
      exact ih _ hsmaller ha' rfl

/-- A keeper that has come to its end was not kept waiting. -/
theorem fair_of_ended {k : Nat} {a : κ}
    (hdone : (c.reached (rules again) (fun _ => .job 0) k).jobs[0]? = some (.done a)) (hnone : again a = none) :
    Fair again c fun _ => .job 0 := by
  have hstays : ∀ d, (c.reached (rules again) (fun _ => .job 0) (k + d)).jobs[0]? = some (.done a) := by
    intro d
    induction d with
    | zero => exact hdone
    | succ d ih =>
      have hagain : (rules again).again a = none := hnone
      rw [← Nat.add_assoc, Crowd.reached_succ]
      simp only [Crowd.step, ih, Crowd.turn, hagain]
  exact fun n => ⟨k + n, .done a, Nat.le_add_left n k, hstays n, rfl, .inl ⟨a, rfl⟩⟩

end Keeper

end EventJournal
