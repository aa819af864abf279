import EventJournal.Json.Printer
import EventJournal.Json.Scanner

/-!
Reading back the smallest parts of written JSON: blanks, words, texts and whole numbers. Each is read from the
front of a text whose rest cannot be taken for a part of it, and the rest is left.
-/
namespace EventJournal.Json.Scan

open Text (Symbol)

/-- Written characters in front of further symbols. -/
def front (cs : List Char) (rest : List Symbol) : List Symbol :=
  cs.map some ++ rest

variable {rest s : List Symbol}

@[simp] theorem front_nil (rest : List Symbol) : front [] rest = rest := rfl

@[simp] theorem front_cons (c : Char) (cs : List Char) (rest : List Symbol) :
    front (c :: cs) rest = some c :: front cs rest := rfl

@[simp] theorem front_append (cs ds : List Char) (rest : List Symbol) :
    front (cs ++ ds) rest = front cs (front ds rest) := by
  simp [front]

/-- What follows on a value in written text: a comma, a closing bracket, a new line, or nothing. -/
def Stops (rest : List Symbol) : Prop :=
  ∀ x r, rest = x :: r → x = some ',' ∨ x = some ']' ∨ x = some '}' ∨ x = some '\n'

theorem stops_nil : Stops [] :=
  fun _ _ h => nomatch h

section Blanks

theorem skipSpaces_of_not {x : Symbol} (hx : isSpace x = false) (r : List Symbol) :
    skipSpaces (x :: r) = x :: r :=
  List.dropWhile_cons_of_neg (by simp [hx])

@[simp] theorem skipSpaces_newline (layout : Layout) (level : Nat) (rest : List Symbol) :
    skipSpaces (front (newline layout level) rest) = skipSpaces rest := by
  cases layout with
  | compact => rfl
  | pretty =>
    change skipSpaces (front (List.replicate (2 * level) ' ') rest) = skipSpaces rest
    induction 2 * level with
    | zero => rfl
    | succ n ih => exact ih

theorem colonSign_colon (layout : Layout) (s : List Symbol) :
    ∃ r, colonSign (front (colon layout) s) = .ok r ∧ skipSpaces r = skipSpaces s := by
  cases layout with
  | compact => exact ⟨s, rfl, rfl⟩
  | pretty => exact ⟨some ' ' :: s, rfl, rfl⟩

end Blanks

theorem word_front (cs : List Char) (rest : List Symbol) : word cs (front cs rest) = .ok rest := by
  induction cs with
  | nil => rfl
  | cons c cs ih =>
    rw [front_cons, word, if_pos rfl]
    exact ih

section Texts

theorem eq_ofNat {c : Char} {n : Nat} (h : c.toNat = n) : c = Char.ofNat n := by
  rw [← h, Char.ofNat_toNat]

/-- A character that is written by its number. -/
theorem piece_numbered {c : Char} (h : c.toNat < 0x20) (rest : List Symbol) :
    piece (front (['\\', 'u'] ++ Text.hexDigits 4 c.toNat) rest) = .ok (.char c, rest) := by
  have hfour : hexFour (front (Text.hexDigits 4 c.toNat) rest) = .ok (c.toNat, rest) := by
    have hread := Text.hexNumber?_hexDigits c.toNat 4 0 (Nat.lt_trans h (by decide))
    rw [Nat.zero_mul, Nat.zero_add] at hread
    simp only [Text.hexDigits] at hread ⊢
    simp only [front_cons, front_nil, hexFour, hread]
  have htrail : isTrail c.toNat = false := by simp [isTrail]; omega
  have hlead : isLead c.toNat = false := by simp [isLead]; omega
  have hescape : escape (some 'u' :: front (Text.hexDigits 4 c.toNat) rest) = .ok (c, rest) := by
    change unicodeEscape (front (Text.hexDigits 4 c.toNat) rest) = .ok (c, rest)
    simp only [unicodeEscape, hfour, bind, Except.bind, htrail, hlead, Bool.false_eq_true, if_false,
      Char.ofNat_toNat]
  have hu : ('\\' : Char) ≠ '"' := by decide
  simp only [front_append, front_cons, front_nil, piece, if_neg hu, if_true, hescape, bind, Except.bind]
  rfl

/-- A written character is one piece, and is read as that character. -/
theorem piece_escapedChar (c : Char) (rest : List Symbol) :
    piece (front (escapedChar c) rest) = .ok (.char c, rest) := by
  by_cases hquote : c = '"'
  · subst hquote
    rfl
  by_cases hslash : c = '\\'
  · subst hslash
    rfl
  by_cases hlow : c.toNat < 0x20
  · by_cases hback : c.toNat = 8
    · rw [eq_ofNat hback]
      rfl
    by_cases hfeed : c.toNat = 12
    · rw [eq_ofNat hfeed]
      rfl
    by_cases hline : c = '\n'
    · subst hline
      rfl
    by_cases hreturn : c = '\r'
    · subst hreturn
      rfl
    by_cases htab : c = '\t'
    · subst htab
      rfl
    have hesc : escapedChar c = ['\\', 'u'] ++ Text.hexDigits 4 c.toNat := by
      simp [escapedChar, hquote, hslash, hback, hfeed, hline, hreturn, htab, hlow]
    rw [hesc]
    exact piece_numbered hlow rest
  · have hne : ∀ d : Char, d.toNat < 0x20 → c ≠ d := by
      rintro d hd rfl
      exact hlow hd
    have hback : c.toNat ≠ 8 := fun h => hlow (h ▸ by decide)
    have hfeed : c.toNat ≠ 12 := fun h => hlow (h ▸ by decide)
    have hesc : escapedChar c = [c] := by
      simp [escapedChar, hquote, hslash, hback, hfeed, hne '\n' (by decide), hne '\r' (by decide),
        hne '\t' (by decide), hlow]
    rw [hesc]
    simp only [front_cons, front_nil, piece, if_neg hquote, if_neg hslash, if_neg hlow]

theorem length_escapedChar_pos (c : Char) : 0 < (escapedChar c).length := by
  apply List.length_pos_iff.mpr
  intro h
  have hp := piece_escapedChar c [none]
  rw [h] at hp
  cases hp

theorem textFrom_escaped (cs : List Char) (rest : List Symbol) {fuel : Nat} (hf : cs.length < fuel) :
    textFrom fuel true (front (cs.flatMap escapedChar) (some '"' :: rest)) = .ok (cs, rest) := by
  induction cs generalizing fuel with
  | nil =>
    cases fuel with
    | zero => cases hf
    | succ fuel => rfl
  | cons c cs ih =>
    cases fuel with
    | zero => cases hf
    | succ fuel =>
      have hcs := ih (Nat.lt_of_succ_lt_succ hf)
      rw [List.flatMap_cons, front_append, textFrom, piece_escapedChar]
      simp only [bind, Except.bind, hcs]
      rfl

/-- Behind the opening quote of a written text stands the text. -/
theorem text_escaped (t : String) (rest : List Symbol) :
    text (front (t.toList.flatMap escapedChar) (some '"' :: rest)) = .ok (t, rest) := by
  have hlength : t.toList.length ≤ (t.toList.flatMap escapedChar).length := by
    generalize t.toList = cs
    induction cs with
    | nil => exact Nat.le_refl _
    | cons c cs ih =>
      have := length_escapedChar_pos c
      rw [List.flatMap_cons, List.length_append, List.length_cons]
      omega
  have hread : ∀ fuel, t.toList.length < fuel →
      textFrom fuel true (front (t.toList.flatMap escapedChar) (some '"' :: rest)) = .ok (t.toList, rest) :=
    fun fuel hf => textFrom_escaped t.toList rest hf
  rw [text, hread]
  · simp [bind, Except.bind, pure, Except.pure]
  · simp only [front, List.length_append, List.length_map, List.length_cons]
    omega

theorem front_textChars (t : String) (rest : List Symbol) :
    front (textChars t) rest = some '"' :: front (t.toList.flatMap escapedChar) (some '"' :: rest) := by
  simp [textChars]

end Texts

section Numbers

/-- The digits of whole numbers. -/
theorem isDigit_of_mem_toDigits {n : Nat} {c : Char} (h : c ∈ Nat.toDigits 10 n) : isDigit (some c) = true := by
  have hc := Nat.isDigit_of_mem_toDigits (by decide) (by decide) h
  simp only [Char.isDigit, Bool.and_eq_true, decide_eq_true_eq] at hc
  simp only [isDigit, Bool.and_eq_true, decide_eq_true_eq]
  exact hc

theorem ne_of_isDigit {c d : Char} (hc : isDigit (some c) = true) (hd : isDigit (some d) = false) : c ≠ d := by
  rintro rfl
  rw [hc] at hd
  cases hd

theorem exists_first_digit (n : Nat) : ∃ c cs, Nat.toDigits 10 n = c :: cs ∧ isDigit (some c) = true := by
  obtain ⟨c, cs, hcs⟩ := List.exists_cons_of_ne_nil (Nat.toDigits_ne_nil (b := 10) (n := n))
  exact ⟨c, cs, hcs, isDigit_of_mem_toDigits (by rw [hcs]; exact List.mem_cons_self)⟩

/-- Only zero has a zero in front. -/
theorem eq_zero_of_head {n : Nat} (h : (Nat.toDigits 10 n).head? = some '0') : n = 0 := by
  induction n using Nat.strongRecOn with
  | ind n ih =>
    by_cases hlt : n < 10
    · rw [Nat.toDigits_of_lt_base hlt] at h
      exact Nat.digitChar_eq_zero.mp (Option.some.inj h)
    · have hle : 10 ≤ n := Nat.le_of_not_lt hlt
      obtain ⟨c, cs, hcs⟩ := List.exists_cons_of_ne_nil (Nat.toDigits_ne_nil (b := 10) (n := n / 10))
      rw [Nat.toDigits_of_base_le (by decide) hle, hcs] at h
      have hzero : n / 10 = 0 := by
        apply ih (n / 10) (by omega)
        rw [hcs]
        exact h
      omega

theorem digitRun_front {cs : List Char} (hcs : ∀ c ∈ cs, isDigit (some c) = true) (hrest : Stops rest) :
    digitRun (front cs rest) = (cs.map some, rest) := by
  have hstop : rest.takeWhile isDigit = [] ∧ rest.dropWhile isDigit = rest := by
    cases rest with
    | nil => exact ⟨rfl, rfl⟩
    | cons x r =>
      have hx : isDigit x = false := by
        obtain rfl | rfl | rfl | rfl := hrest x r rfl <;> rfl
      simp [hx]
  have hall : ∀ x ∈ cs.map some, isDigit x = true := by
    intro x hx
    obtain ⟨c, hc, rfl⟩ := List.mem_map.mp hx
    exact hcs c hc
  rw [digitRun, front, List.takeWhile_append_of_pos hall, List.dropWhile_append_of_pos hall, hstop.1, hstop.2,
    List.append_nil]

theorem le_ofDigitChars (m : Nat) (cs : List Char) : m ≤ Nat.ofDigitChars 10 cs m := by
  rw [Nat.ofDigitChars_eq_ofDigitChars_zero]
  exact Nat.le_trans (Nat.le_mul_of_pos_left m (Nat.pow_pos (by decide))) (Nat.le_add_right _ _)

/-- Digits are all taken as long as they fit. -/
theorem accumulate_of_le {m : Nat} {cs : List Char} (h : Nat.ofDigitChars 10 cs m ≤ greatestWord) :
    accumulate m (cs.map some) = (Nat.ofDigitChars 10 cs m, cs.length) := by
  induction cs generalizing m with
  | nil => rfl
  | cons c cs ih =>
    rw [Nat.ofDigitChars_cons, Nat.mul_comm 10 m, show '0'.toNat = 48 from rfl] at h ⊢
    have hle : ¬ greatestWord < m * 10 + (c.toNat - 48) :=
      Nat.not_lt.mpr (Nat.le_trans (le_ofDigitChars _ cs) h)
    rw [List.map_cons, accumulate]
    simp only [if_neg hle, ih h, List.length_cons]

/-- Otherwise some are left. -/
theorem accumulate_lt {m : Nat} {cs : List Char} (hm : m ≤ greatestWord)
    (h : greatestWord < Nat.ofDigitChars 10 cs m) : (accumulate m (cs.map some)).2 < cs.length := by
  induction cs generalizing m with
  | nil => exact absurd h (Nat.not_lt.mpr hm)
  | cons c cs ih =>
    rw [Nat.ofDigitChars_cons, Nat.mul_comm 10 m] at h
    rw [List.map_cons, accumulate]
    by_cases hlt : greatestWord < m * 10 + (c.toNat - 48)
    · simp [hlt]
    · simp only [if_neg hlt, List.length_cons]
      exact Nat.succ_lt_succ (ih (Nat.le_of_not_lt hlt) h)

theorem ne_int_of_float {negative : Bool} {significand : Nat} {exponent : Int} (z : Int) (r : List Symbol) :
    (do return (← floatOf negative significand exponent, rest) : Except Reason (Numeral × List Symbol)) ≠
      .ok (.int z, r) := by
  intro h
  rw [floatOf] at h
  split at h <;> cases h

/-- A whole number behind which nothing goes on with it is taken as it is written, or as a float. -/
theorem numeral_front (negative : Bool) (n : Nat) (hrest : Stops rest) :
    numeral negative (front (Nat.toDigits 10 n) rest) =
      let (k, used) := accumulate 0 ((Nat.toDigits 10 n).map some)
      let dropped : Nat := (Nat.toDigits 10 n).length - used
      if 0 < dropped then do return (← floatOf negative k dropped, rest)
      else if !negative then .ok (.int k, rest)
      else if 0 < k ∧ k ≤ Nat.pow 2 63 then .ok (.int (-k), rest)
      else do return (← floatOf true k 0, rest) := by
  have hdigits := digitRun_front (fun _ hc => isDigit_of_mem_toDigits (n := n) hc) hrest
  obtain ⟨c, cs, hcs⟩ := List.exists_cons_of_ne_nil (Nat.toDigits_ne_nil (b := 10) (n := n))
  have hzero : ¬ (((Nat.toDigits 10 n).map some).head? = some (some '0') ∧
      1 < (Nat.toDigits 10 n).length) := by
    rintro ⟨hhead, hlong⟩
    have hn : n = 0 := by
      apply eq_zero_of_head
      rw [List.head?_map] at hhead
      obtain ⟨d, hd, hd'⟩ := Option.map_eq_some_iff.mp hhead
      rw [hd, Option.some.inj hd']
    rw [hn] at hlong
    exact absurd hlong (by decide)
  have hsome : (front (Nat.toDigits 10 n) rest).isEmpty = false := by
    rw [hcs]
    rfl
  have hsome' : ((Nat.toDigits 10 n).map some).isEmpty = false := by
    rw [hcs]
    rfl
  rw [numeral]
  simp only [hsome, Bool.false_eq_true, if_false, hdigits, hsome', if_neg hzero, List.length_map]
  cases rest with
  | nil => rfl
  | cons x r => obtain rfl | rfl | rfl | rfl := hrest x r rfl <;> rfl

variable {n : Nat}

theorem accumulate_toDigits (h : n ≤ greatestWord) :
    accumulate 0 ((Nat.toDigits 10 n).map some) = (n, (Nat.toDigits 10 n).length) := by
  have hvalue := Nat.ofDigitChars_ten_toDigits (n := n)
  rw [accumulate_of_le (by rw [hvalue]; exact h), hvalue]

theorem dropped_toDigits (h : greatestWord < n) :
    0 < (Nat.toDigits 10 n).length - (accumulate 0 ((Nat.toDigits 10 n).map some)).2 := by
  apply Nat.sub_pos_of_lt
  apply accumulate_lt (Nat.zero_le _)
  rw [Nat.ofDigitChars_ten_toDigits]
  exact h

theorem numeral_of_le (hrest : Stops rest) (h : n ≤ greatestWord) :
    numeral false (front (Nat.toDigits 10 n) rest) = .ok (.int n, rest) := by
  rw [numeral_front false n hrest, accumulate_toDigits h]
  simp

theorem numeral_negative_of_le (hrest : Stops rest) (hn : 0 < n) (h : n ≤ Nat.pow 2 63) :
    numeral true (front (Nat.toDigits 10 n) rest) = .ok (.int (-n), rest) := by
  rw [numeral_front true n hrest, accumulate_toDigits (Nat.le_trans h (by decide))]
  simp only [Nat.sub_self, Nat.lt_irrefl, if_false, Bool.not_true, Bool.false_eq_true, if_pos (And.intro hn h)]

/-- What does not fit is no whole number any more. -/
theorem numeral_ne_int_of_lt {negative : Bool} (hrest : Stops rest) (h : greatestWord < n) (z : Int)
    (r : List Symbol) : numeral negative (front (Nat.toDigits 10 n) rest) ≠ .ok (.int z, r) := by
  rw [numeral_front negative n hrest]
  simp only [if_pos (dropped_toDigits h)]
  exact ne_int_of_float z r

theorem numeral_negative_ne_int_of_lt (hrest : Stops rest) (h : Nat.pow 2 63 < n) (z : Int) (r : List Symbol) :
    numeral true (front (Nat.toDigits 10 n) rest) ≠ .ok (.int z, r) := by
  by_cases hle : n ≤ greatestWord
  · rw [numeral_front true n hrest, accumulate_toDigits hle]
    have hn : ¬ (0 < n ∧ n ≤ Nat.pow 2 63) := fun hn => Nat.not_lt.mpr hn.2 h
    simp only [Nat.sub_self, Nat.lt_irrefl, if_false, Bool.not_true, Bool.false_eq_true, if_neg hn]
    exact ne_int_of_float z r
  · exact numeral_ne_int_of_lt hrest (Nat.lt_of_not_le hle) z r

end Numbers

end EventJournal.Json.Scan
