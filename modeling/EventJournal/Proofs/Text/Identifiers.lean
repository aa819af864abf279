import EventJournal.Uuid.Parser

/-!
Identifiers are read back from what is written of them.
-/
namespace EventJournal

theorem Text.hexDigits_add (a b n : Nat) :
    hexDigits (a + b) n = hexDigits a (n / Nat.pow 16 b) ++ hexDigits b n := by
  induction a with
  | zero => rw [Nat.zero_add, hexDigits, List.nil_append]
  | succ a ih =>
    have hpow : Nat.pow 16 (a + b) = Nat.pow 16 b * Nat.pow 16 a := by
      rw [Nat.mul_comm]
      exact Nat.pow_add 16 a b
    rw [Nat.succ_add, hexDigits, hexDigits, ih, hpow, Nat.div_div_eq_div_mul, List.cons_append]

theorem Text.utf8Size_of_mem_hexDigits {width n : Nat} {c : Char} (h : c ∈ hexDigits width n) : c.utf8Size = 1 := by
  have hdigit : ∀ d < 16, (hexDigit d).utf8Size = 1 := by decide
  induction width with
  | zero => cases h
  | succ width ih =>
    rcases List.mem_cons.mp h with rfl | h
    · exact hdigit _ (Nat.mod_lt _ (by decide))
    · exact ih h

namespace Uuid

theorem width_eq_length {s : List Char} (h : ∀ c ∈ s, c.utf8Size = 1) : width s = s.length := by
  have hfold : ∀ n, s.foldl (fun n c => n + c.utf8Size) n = n + s.length := by
    induction s with
    | nil => exact fun _ => rfl
    | cons c s ih =>
      intro n
      rw [List.foldl_cons, h c List.mem_cons_self, ih (fun d hd => h d (List.mem_cons_of_mem c hd)),
        List.length_cons]
      omega
  rw [width, hfold, Nat.zero_add]

/-- The groups between the hyphens. -/
theorem ungroup?_groups {a b c d e : List Char} (ha : a.length = 8) (hb : b.length = 4) (hc : c.length = 4)
    (hd : d.length = 4) (he : e.length = 12) :
    ungroup? (a ++ '-' :: b ++ '-' :: c ++ '-' :: d ++ '-' :: e) = some (a ++ b ++ c ++ d ++ e) := by
  simp [ungroup?, hyphens, ha, hb, hc, hd, he, List.getElem?_append, List.drop_append,
    List.drop_eq_nil_of_le]

/-- The groups together have all the digits. -/
theorem hexDigits_eq_groups (n : Nat) :
    Text.hexDigits 32 n =
      Text.hexDigits 8 (n / Nat.pow 2 96) ++ Text.hexDigits 4 (n / Nat.pow 2 80) ++
      Text.hexDigits 4 (n / Nat.pow 2 64) ++ Text.hexDigits 4 (n / Nat.pow 2 48) ++ Text.hexDigits 12 n := by
  rw [Text.hexDigits_add 20 12, Text.hexDigits_add 16 4, Text.hexDigits_add 12 4, Text.hexDigits_add 8 4]
  simp only [Nat.div_div_eq_div_mul]

theorem digits_chars (u : Uuid) : ungroup? u.chars = some (Text.hexDigits 32 u.number.val) := by
  rw [hexDigits_eq_groups, chars]
  exact ungroup?_groups (by simp) (by simp) (by simp) (by simp) (by simp)

theorem width_chars (u : Uuid) : width u.chars = 36 := by
  rw [width_eq_length, length_chars]
  intro c hc
  simp only [chars, List.mem_append, List.mem_cons] at hc
  have hhyphen : ('-' : Char).utf8Size = 1 := by decide
  have hhex : ∀ {width n : Nat}, c ∈ Text.hexDigits width n → c.utf8Size = 1 := Text.utf8Size_of_mem_hexDigits
  rcases hc with (((h | h | h) | h | h) | h | h) | h | h
  all_goals first | exact hhex h | exact h ▸ hhyphen

/-- An identifier is read as itself. -/
theorem ofText_text (u : Uuid) : ofText u.text = .ok u := by
  have hlt : u.number.val < Nat.pow 16 32 := Nat.lt_of_lt_of_eq u.number.isLt (by decide)
  have hnumber := Text.hexNumber?_hexDigits u.number.val 32 0 hlt
  have hof : ofNat u.number.val = u := congrArg Uuid.mk (Fin.ext (Nat.mod_eq_of_lt u.number.isLt))
  rw [Nat.zero_mul, Nat.zero_add] at hnumber
  have hread : parseHyphenated? u.chars = some u := by
    simp only [parseHyphenated?, digits_chars, Option.bind_eq_bind, Option.bind_some, hnumber, hof]
  simp [ofText, text, parse, hyphenated?, width_chars, hread]

end Uuid

end EventJournal
