import EventJournal.Routing
import Mathlib.Logic.Function.Basic

/-!
What the hash of a key keeps. Each of its steps can be taken back, so a key only permutes the seeds, and a byte that
differs makes a difference to the end.
-/
namespace EventJournal.Routing

open Function

/-- Takes a byte out of the hash again. The factor is the inverse of 33. -/
def unmix (d : UInt32) (b : UInt8) : UInt32 :=
  (d ^^^ b.toUInt32) * 1041204193

theorem unmix_mix (d : UInt32) (b : UInt8) : unmix (mix d b) b = d := by
  have hinverse : (33 : UInt32) * 1041204193 = 1 := by decide
  rw [unmix, mix, UInt32.xor_assoc, UInt32.xor_self, UInt32.xor_zero, UInt32.mul_assoc, hinverse, UInt32.mul_one]

theorem mix_unmix (d : UInt32) (b : UInt8) : mix (unmix d b) b = d := by
  have hinverse : (1041204193 : UInt32) * 33 = 1 := by decide
  rw [mix, unmix, UInt32.mul_assoc, hinverse, UInt32.mul_one, UInt32.xor_assoc, UInt32.xor_self, UInt32.xor_zero]

theorem mix_bijective (b : UInt8) : Bijective fun d => mix d b :=
  bijective_iff_has_inverse.mpr ⟨fun d => unmix d b, fun d => unmix_mix d b, fun d => mix_unmix d b⟩

/-- Two bytes are never taken in alike. -/
theorem mix_injective (d : UInt32) : Injective (mix d) := by
  intro a b h
  exact UInt8.toUInt32_inj.mp ((UInt32.xor_right_inj (d * 33)).mp h)

/-- Folding once more brings the high half back, and there is nothing above it. -/
theorem fold_involutive : Involutive fold := by
  intro d
  have hnone : d >>> 16 >>> 16 = 0 := by
    have htwice : (d >>> 16 >>> 16).toNat = d.toNat >>> (16 + 16) := (Nat.shiftRight_add d.toNat 16 16).symm
    apply UInt32.toNat_inj.mp
    rw [htwice, Nat.shiftRight_eq_div_pow, Nat.div_eq_of_lt d.toNat_lt]
    rfl
  rw [fold, fold, UInt32.shiftRight_xor, hnone, UInt32.xor_zero, UInt32.xor_assoc, UInt32.xor_self, UInt32.xor_zero]

theorem foldl_mix_bijective (key : List UInt8) : Bijective fun d => key.foldl mix d := by
  induction key with
  | nil => exact bijective_id
  | cons b rest ih => exact ih.comp (mix_bijective b)

theorem start_bijective (length : UInt32) : Bijective fun seed : UInt32 => 5381 + seed + length := by
  refine bijective_iff_has_inverse.mpr ⟨fun d => d - length - 5381, ?_, ?_⟩
  · intro seed
    change 5381 + seed + length - length - 5381 = seed
    rw [UInt32.add_sub_cancel, UInt32.add_comm, UInt32.add_sub_cancel]
  · intro d
    change 5381 + (d - length - 5381) + length = d
    rw [UInt32.add_comm 5381, UInt32.sub_add_cancel, UInt32.sub_add_cancel]

theorem djb2_bijective (key : List UInt8) : Bijective fun seed => djb2 seed key :=
  fold_involutive.bijective.comp ((foldl_mix_bijective key).comp (start_bijective _))

section OneByte

/-- Lists that differ at exactly one place are alike before and behind it. -/
theorem exists_split_of_one_differs {α : Type} {k l : List α} (hlength : k.length = l.length)
    (h : ∃! i : Nat, k[i]? ≠ l[i]?) :
    ∃ p a b s, k = p ++ a :: s ∧ l = p ++ b :: s ∧ a ≠ b := by
  obtain ⟨i, hi, honly⟩ := h
  have hk : i < k.length := by
    by_contra hge
    rw [Nat.not_lt] at hge
    exact hi (by rw [List.getElem?_eq_none hge, List.getElem?_eq_none (hlength ▸ hge)])
  have hl : i < l.length := hlength ▸ hk
  have halike : ∀ j, j ≠ i → k[j]? = l[j]? := fun j hj => by_contra fun hne => hj (honly j hne)
  have hbefore : k.take i = l.take i := by
    apply List.ext_getElem?
    intro j
    by_cases hj : j < i
    · rw [List.getElem?_take_of_lt hj, List.getElem?_take_of_lt hj, halike j (Nat.ne_of_lt hj)]
    · rw [List.getElem?_take_eq_none (Nat.le_of_not_lt hj), List.getElem?_take_eq_none (Nat.le_of_not_lt hj)]
  have hbehind : k.drop (i + 1) = l.drop (i + 1) := by
    apply List.ext_getElem?
    intro j
    rw [List.getElem?_drop, List.getElem?_drop, halike _ (by omega)]
  refine ⟨k.take i, k[i], l[i], k.drop (i + 1), ?_, ?_, ?_⟩
  · rw [← List.drop_eq_getElem_cons hk, List.take_append_drop]
  · rw [hbefore, hbehind, ← List.drop_eq_getElem_cons hl, List.take_append_drop]
  · intro he
    rw [List.getElem?_eq_getElem hk, List.getElem?_eq_getElem hl, he] at hi
    exact hi rfl

theorem djb2_ne_of_byte_ne (seed : UInt32) (p s : List UInt8) {a b : UInt8} (h : a ≠ b) :
    djb2 seed (p ++ a :: s) ≠ djb2 seed (p ++ b :: s) := by
  intro he
  -- the keys have one length, so both hashes start from one number
  simp only [djb2, List.length_append, List.length_cons, List.foldl_append, List.foldl_cons] at he
  exact h (mix_injective _ ((foldl_mix_bijective s).injective (fold_involutive.injective he)))

end OneByte

/-- The hash loses nothing that it should keep. Each key permutes the seeds, so that no two of them give it one hash;
and under each seed, keys of one length that differ in exactly one byte have different hashes. -/
theorem djb2_separates :
    (∀ key : List UInt8, Bijective fun seed => djb2 seed key) ∧
    (∀ (key : List UInt8) (s t : UInt32), s ≠ t → djb2 s key ≠ djb2 t key) ∧
    ∀ (seed : UInt32) (k l : List UInt8), k.length = l.length → (∃! i : Nat, k[i]? ≠ l[i]?) →
      djb2 seed k ≠ djb2 seed l := by
  refine ⟨djb2_bijective, ?_, ?_⟩
  · exact fun key s t hne => (djb2_bijective key).injective.ne hne
  · intro seed k l hlength hone
    obtain ⟨p, a, b, s, rfl, rfl, hne⟩ := exists_split_of_one_differs hlength hone
    exact djb2_ne_of_byte_ne seed p s hne

/-- Seeds 1 and 2 tell one key apart, and each seed tells the keys `a1` and `a2` apart. -/
theorem djb2_separates_short_keys :
    djb2 1 [97, 49] ≠ djb2 2 [97, 49] ∧ ∀ seed, djb2 seed [97, 49] ≠ djb2 seed [97, 50] := by
  obtain ⟨-, hseeds, hkeys⟩ := djb2_separates
  refine ⟨hseeds [97, 49] 1 2 (by decide), fun seed => hkeys seed [97, 49] [97, 50] rfl ⟨1, by decide, ?_⟩⟩
  rintro (_ | _ | i) hi
  · exact absurd rfl hi
  · rfl
  · exact absurd rfl hi

end EventJournal.Routing
