import EventJournal.Ident
import EventJournal.Proofs.Text.Identifiers

/-!
The written form of identifiers, said apart from how it is made: hyphens at four of 36 places, and at the others the
hexadecimal digits of the number, in lower case and with zeros in front. An identifier has one such text, and a text is
that of one identifier.
-/
namespace EventJournal

namespace Text

variable {n width : Nat}

theorem hexDigit_eq_digitChar : ∀ n < 16, hexDigit n = n.digitChar := by
  decide

/-- The lowest digit comes last. -/
theorem hexDigits_concat (width n : Nat) :
    hexDigits (width + 1) n = hexDigits width (n / 16) ++ [(n % 16).digitChar] := by
  rw [hexDigits_add width 1, hexDigits, hexDigits, hexDigit_eq_digitChar _ (Nat.mod_lt _ (by decide))]
  simp [Nat.pow]

theorem hexDigits_zero (width : Nat) : hexDigits width 0 = List.replicate width '0' := by
  induction width with
  | zero => rfl
  | succ width ih => rw [hexDigits, ih, Nat.zero_div]; rfl

/-- The digits of a number that fits, with zeros in front. -/
theorem hexDigits_eq_leftpad (h : n < Nat.pow 16 (width + 1)) :
    hexDigits (width + 1) n = (Nat.toDigits 16 n).leftpad (width + 1) '0' := by
  induction width generalizing n with
  | zero =>
    have hn : n < 16 := h
    rw [hexDigits_concat, Nat.toDigits_of_lt_base hn, Nat.mod_eq_of_lt hn]
    rfl
  | succ width ih =>
    rw [hexDigits_concat]
    by_cases hn : n < 16
    · rw [Nat.div_eq_of_lt hn, hexDigits_zero, Nat.toDigits_of_lt_base hn, Nat.mod_eq_of_lt hn]
      rfl
    · have hdiv : n / 16 < Nat.pow 16 (width + 1) := Nat.div_lt_of_lt_mul (Nat.mul_comm 16 _ ▸ h)
      rw [ih hdiv, Nat.toDigits_of_base_le (by decide) (Nat.le_of_not_lt hn), List.leftpad, List.leftpad,
        List.length_append, List.append_assoc]
      congr 2
      simp

/-- The digits, and the letters of lower case that count as such. -/
def lowerHex : List Char :=
  "0123456789abcdef".toList

theorem mem_lowerHex_of_mem_hexDigits {c : Char} (h : c ∈ hexDigits width n) : c ∈ lowerHex := by
  have hdigit : ∀ d < 16, hexDigit d ∈ lowerHex := by decide
  induction width with
  | zero => cases h
  | succ width ih =>
    rcases List.mem_cons.mp h with rfl | h
    · exact hdigit _ (Nat.mod_lt _ (by decide))
    · exact ih h

theorem hyphen_notMem_hexDigits (width n : Nat) : '-' ∉ hexDigits width n := by
  intro h
  exact absurd (mem_lowerHex_of_mem_hexDigits h) (by decide)

section Hyphens

variable {a rest s t : List Char}

/-- The hyphens of a text whose first group ends with one. -/
theorem getElem?_eq_hyphen_iff (ha : '-' ∉ a) (i : Nat) :
    (a ++ '-' :: rest)[i]? = some '-' ↔ i = a.length ∨ a.length < i ∧ rest[i - (a.length + 1)]? = some '-' := by
  rcases Nat.lt_trichotomy i a.length with hi | rfl | hi
  · rw [List.getElem?_append_left hi]
    constructor
    · intro h
      exact absurd (List.mem_of_getElem? h) ha
    · omega
  · simp
  · have hsplit : i - a.length = (i - (a.length + 1)) + 1 := by omega
    rw [List.getElem?_append_right (Nat.le_of_lt hi), hsplit, List.getElem?_cons_succ]
    constructor
    · exact fun h => .inr ⟨hi, h⟩
    · rintro (he | ⟨-, h⟩)
      · omega
      · exact h

theorem filter_ne_hyphen (ha : '-' ∉ a) : a.filter (· != '-') = a := by
  rw [List.filter_eq_self]
  intro c hc
  rw [bne_iff_ne]
  rintro rfl
  exact ha hc

/-- The places of the hyphens and the characters between them make up the text. -/
theorem eq_of_hyphens_eq (hlength : s.length = t.length) (hplaces : ∀ i : Nat, s[i]? = some '-' ↔ t[i]? = some '-')
    (hothers : s.filter (· != '-') = t.filter (· != '-')) : s = t := by
  induction s generalizing t with
  | nil => exact (List.eq_nil_of_length_eq_zero hlength.symm).symm
  | cons x s ih =>
    cases t with
    | nil => cases hlength
    | cons y t =>
      have hhead : x = '-' ↔ y = '-' := by simpa using hplaces 0
      have htail : ∀ i : Nat, s[i]? = some '-' ↔ t[i]? = some '-' := fun i => hplaces (i + 1)
      by_cases hx : x = '-'
      · obtain rfl := hx
        obtain rfl := hhead.mp rfl
        rw [ih (Nat.succ.inj hlength) htail hothers]
      · have hy : y ≠ '-' := fun hy => hx (hhead.mpr hy)
        rw [List.filter_cons_of_pos (by simpa using hx), List.filter_cons_of_pos (by simpa using hy)] at hothers
        obtain ⟨rfl, hrest⟩ := List.cons.inj hothers
        rw [ih (Nat.succ.inj hlength) htail hrest]

end Hyphens

end Text

namespace Uuid

/-- A text that is the written form of an identifier. -/
structure Hyphenated (u : Uuid) (s : List Char) : Prop where
  length : s.length = 36
  hyphen_iff : ∀ i : Nat, s[i]? = some '-' ↔ i ∈ [8, 13, 18, 23]
  lower : ∀ c ∈ s, c ≠ '-' → c ∈ Text.lowerHex
  digits : s.filter (· != '-') = (Nat.toDigits 16 u.number.val).leftpad 32 '0'

theorem hyphenated_chars (u : Uuid) : u.Hyphenated u.chars where
  length := u.length_chars
  hyphen_iff i := by
    have hlast : ∀ j : Nat, ¬ (Text.hexDigits 12 u.number.val)[j]? = some '-' :=
      fun j h => Text.hyphen_notMem_hexDigits _ _ (List.mem_of_getElem? h)
    simp only [chars, List.append_assoc, List.cons_append, Text.getElem?_eq_hyphen_iff (Text.hyphen_notMem_hexDigits _ _),
      hlast, Text.length_hexDigits, List.mem_cons, List.not_mem_nil, and_false, or_false]
    omega
  lower c hc hne := by
    simp only [chars, List.mem_append, List.mem_cons, hne, false_or] at hc
    rcases hc with (((h | h) | h) | h) | h
    all_goals exact Text.mem_lowerHex_of_mem_hexDigits h
  digits := by
    have hlt : u.number.val < Nat.pow 16 32 := Nat.lt_of_lt_of_eq u.number.isLt (by decide)
    rw [← Text.hexDigits_eq_leftpad hlt, hexDigits_eq_groups]
    simp [chars, Text.filter_ne_hyphen (Text.hyphen_notMem_hexDigits _ _)]

/-- There is no other text of that form. -/
theorem hyphenated_iff (u : Uuid) (s : List Char) : u.Hyphenated s ↔ s = u.chars := by
  have hown := u.hyphenated_chars
  constructor
  · intro h
    apply Text.eq_of_hyphens_eq (h.length.trans hown.length.symm)
    · exact fun i => (h.hyphen_iff i).trans (hown.hyphen_iff i).symm
    · exact h.digits.trans hown.digits.symm
  · rintro rfl
    exact hown

theorem chars_injective : Function.Injective chars := by
  intro u v h
  have hread := ofText_text u
  rw [text, h, ← text, ofText_text v] at hread
  exact (Except.ok.inj hread).symm

end Uuid

end EventJournal
