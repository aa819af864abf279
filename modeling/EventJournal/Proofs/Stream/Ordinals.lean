import EventJournal.Proofs.Stream.Numbering
import Mathlib.Data.Nat.Nth

/-!
Ordinals and versions. A policy gives the ordinals the versions that are not reserved, one to each and in their order:
from one multiple of the period to the next it goes through all the numbers between.
-/
namespace EventJournal.VersionPolicy

/-- A version that an event may have. -/
def Free (policy : VersionPolicy) (v : Nat) : Prop :=
  0 < v ∧ policy.isReserved v = false

variable {policy : VersionPolicy} {n k v : Nat}

theorem isReserved_reserving {hn : 2 ≤ n} :
    (reserving n hn).isReserved v = true ↔ v ≠ 0 ∧ n ∣ v := by
  simp [isReserved, Nat.dvd_iff_mod_eq_zero]

theorem free_reserving_iff {hn : 2 ≤ n} : (reserving n hn).Free v ↔ ¬ n ∣ v := by
  rw [Free, ← Bool.not_eq_true, isReserved_reserving]
  constructor
  · rintro ⟨hv, h⟩ hdvd
    exact h ⟨Nat.ne_of_gt hv, hdvd⟩
  · intro h
    have hv : v ≠ 0 := fun hv => h (hv ▸ Nat.dvd_zero n)
    exact ⟨Nat.pos_of_ne_zero hv, fun hr => h hr.2⟩

/-- Behind the `q`-th multiple of the period come the versions of the ordinals from `q * (n - 1) + 1` on, one after the
other up to the next multiple. -/
theorem eventVersion_block {hn : 2 ≤ n} {r : Nat} (hr : r < n - 1) (q : Nat) :
    (reserving n hn).eventVersion (q * (n - 1) + r + 1) = q * n + r + 1 := by
  have hdiv : (q * (n - 1) + r) / (n - 1) = q := by
    rw [Nat.mul_comm, Nat.mul_add_div (by omega), Nat.div_eq_of_lt hr, Nat.add_zero]
  have hblock : q * n = q * (n - 1) + q := by
    rw [← Nat.mul_succ]
    congr 1
    omega
  rw [eventVersion, Nat.add_sub_cancel, hdiv]
  omega

theorem free_eventVersion (policy : VersionPolicy) (k : Nat) : policy.Free (policy.eventVersion (k + 1)) := by
  cases policy with
  | sequential => exact ⟨Nat.succ_pos k, rfl⟩
  | reserving n hn =>
    have hr : k % (n - 1) < n - 1 := Nat.mod_lt k (by omega)
    have hk : k = k / (n - 1) * (n - 1) + k % (n - 1) := (Nat.div_add_mod' k (n - 1)).symm
    rw [free_reserving_iff, hk, eventVersion_block hr, Nat.add_assoc,
      Nat.dvd_add_right (Nat.dvd_mul_left n _)]
    exact Nat.not_dvd_of_pos_of_lt (Nat.succ_pos _) (by omega)

/-- No version is left out but the reserved ones. -/
theorem exists_ordinal (h : policy.Free v) : ∃ k, policy.eventVersion (k + 1) = v := by
  cases policy with
  | sequential => exact ⟨v - 1, Nat.succ_pred_eq_of_pos h.1⟩
  | reserving n hn =>
    rw [free_reserving_iff, Nat.dvd_iff_mod_eq_zero] at h
    have hmod : v % n < n := Nat.mod_lt v (by omega)
    refine ⟨v / n * (n - 1) + (v % n - 1), ?_⟩
    rw [eventVersion_block (by omega), Nat.add_assoc, Nat.sub_add_cancel (Nat.pos_of_ne_zero h)]
    exact Nat.div_add_mod' v n

theorem strictMono_eventVersion (policy : VersionPolicy) : StrictMono policy.eventVersion :=
  fun _ _ h => policy.eventVersion_lt h

theorem le_eventVersion (policy : VersionPolicy) (k : Nat) : k ≤ policy.eventVersion k :=
  policy.strictMono_eventVersion.le_apply

/-- A version is that of an ordinal exactly if it is not reserved. -/
theorem exists_eventVersion_iff (hv : 0 < v) :
    (∃ k, 0 < k ∧ policy.eventVersion k = v) ↔ policy.isReserved v = false := by
  constructor
  · rintro ⟨k, hk, rfl⟩
    obtain ⟨j, rfl⟩ := Nat.exists_eq_add_of_lt hk
    rw [Nat.zero_add]
    exact (policy.free_eventVersion j).2
  · intro h
    obtain ⟨k, hk⟩ := exists_ordinal ⟨hv, h⟩
    exact ⟨k + 1, Nat.succ_pos k, hk⟩

theorem reserved_iff (hv : 0 < v) :
    policy.isReserved v = true ↔ ∃ n, policy.period? = some n ∧ n ∣ v := by
  cases policy with
  | sequential => simp [isReserved, period?]
  | reserving n hn => simp [isReserved_reserving, period?, Nat.ne_of_gt hv]

/-- The `k`-th ordinal has the `k`-th version that is not reserved. -/
theorem eventVersion_eq_nth (policy : VersionPolicy) (k : Nat) :
    policy.eventVersion (k + 1) = Nat.nth policy.Free k := by
  have hmono : StrictMono fun k => policy.eventVersion (k + 1) :=
    fun _ _ h => policy.eventVersion_lt (Nat.succ_lt_succ h)
  have hinfinite : ∀ hfinite : (Set.ofPred policy.Free).Finite, k < hfinite.toFinset.card := by
    intro hfinite
    exact absurd (hfinite.subset (Set.range_subset_iff.mpr policy.free_eventVersion))
      (Set.infinite_range_of_injective hmono.injective)
  rw [← Nat.nth_comp_of_strictMono hmono (fun v hv => exists_ordinal hv) hinfinite]
  simp only [policy.free_eventVersion, Nat.nth_true]

/-- A policy enumerates the versions that are not reserved. Event versions rise with the ordinals and none of them is
reserved; each version from 1 on that is not reserved belongs to exactly one ordinal, so that of the `k`-th ordinal is
the `k`-th of those; and only the multiples of the period are left out. -/
theorem enumerates_unreserved (policy : VersionPolicy) :
    (∀ k l, 1 ≤ k → k < l → policy.eventVersion k < policy.eventVersion l) ∧
    (∀ k, 1 ≤ k → policy.isReserved (policy.eventVersion k) = false) ∧
    (∀ v, 1 ≤ v → policy.isReserved v = false → ∃! k, 1 ≤ k ∧ policy.eventVersion k = v) ∧
    (∀ k, policy.eventVersion (k + 1) = Nat.nth (fun v => 1 ≤ v ∧ policy.isReserved v = false) k) ∧
    ∀ v, 1 ≤ v → ((¬ ∃ k, 1 ≤ k ∧ policy.eventVersion k = v) ↔ ∃ n, policy.period? = some n ∧ n ∣ v) := by
  refine ⟨?_, ?_, ?_, ?_, ?_⟩
  · exact fun k l _ hkl => policy.eventVersion_lt hkl
  · intro k hk
    exact (exists_eventVersion_iff (Nat.lt_of_lt_of_le hk (policy.le_eventVersion k))).mp ⟨k, hk, rfl⟩
  · intro v hv hfree
    obtain ⟨k, hk, rfl⟩ := (exists_eventVersion_iff hv).mpr hfree
    refine ⟨k, ⟨hk, rfl⟩, ?_⟩
    rintro l ⟨-, hl⟩
    exact policy.strictMono_eventVersion.injective hl
  · exact policy.eventVersion_eq_nth
  · intro v hv
    calc (¬ ∃ k, 1 ≤ k ∧ policy.eventVersion k = v)
        ↔ ¬ policy.isReserved v = false := not_congr (exists_eventVersion_iff hv)
      _ ↔ policy.isReserved v = true := by rw [Bool.not_eq_false]
      _ ↔ ∃ n, policy.period? = some n ∧ n ∣ v := reserved_iff hv

end EventJournal.VersionPolicy
