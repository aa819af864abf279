import EventJournal.Timestamp.Parser

/-!
Points in time are read back from what is written of them, in the years that are written with four digits. Each
part is read from the front of a text, and the rest is left.
-/
namespace EventJournal.Timestamp

section Digits

theorem digit_spec : ∀ n < 10, isDigit (digit n) = true ∧ (digit n).toNat - 48 = n ∧ Text.isBlank (digit n) = false := by
  decide

theorem digit_mod (n : Nat) : digit (n % 10) = digit n := by
  rw [digit, digit, Nat.mod_mod]

theorem isDigit_digit (n : Nat) : isDigit (digit n) = true := by
  rw [← digit_mod]
  exact (digit_spec _ (Nat.mod_lt n (by decide))).1

theorem value_digit (n : Nat) : (digit n).toNat - 48 = n % 10 := by
  rw [← digit_mod]
  exact (digit_spec _ (Nat.mod_lt n (by decide))).2.1

theorem isBlank_digit (n : Nat) : Text.isBlank (digit n) = false := by
  rw [← digit_mod]
  exact (digit_spec _ (Nat.mod_lt n (by decide))).2.2

theorem isDigit_of_mem_digits {width n : Nat} {c : Char} (h : c ∈ digits width n) : isDigit c = true := by
  induction width with
  | zero => cases h
  | succ width ih =>
    rcases List.mem_cons.mp h with rfl | h
    · exact isDigit_digit _
    · exact ih h

/-- Written digits stand for the number as far as they show it. -/
theorem decimalValue_digits (m width n : Nat) :
    decimalValue m (digits width n) = m * Nat.pow 10 width + n % Nat.pow 10 width := by
  induction width generalizing m with
  | zero =>
    change m = m * 1 + n % 1
    rw [Nat.mul_one, Nat.mod_one, Nat.add_zero]
  | succ width ih =>
    have hstep : decimalValue m (digits (width + 1) n) =
        decimalValue (m * 10 + ((digit (n / Nat.pow 10 width)).toNat - 48)) (digits width n) := rfl
    have hpow : Nat.pow 10 (width + 1) = Nat.pow 10 width * 10 := rfl
    rw [hstep, ih, value_digit, hpow, Nat.mod_mul, Nat.add_mul, Nat.mul_assoc, Nat.mul_comm 10,
      Nat.mul_comm (n / Nat.pow 10 width % 10)]
    omega

end Digits

section Readers

variable {α β : Type} {s r : List Char}

/-- A text that is taken over from what was read before. -/
theorem bind_ok {x : Reader α} {f : α → Reader β} {a : α} (h : x s = .ok (a, r)) : (x >>= f) s = f a r := by
  change (x s >>= fun p => f p.1 p.2) = f a r
  rw [h]
  rfl

theorem trimStart_of_not {c : Char} (hc : Text.isBlank c = false) (r : List Char) :
    Text.trimStart (c :: r) = c :: r :=
  List.dropWhile_cons_of_neg (by simp [hc])

theorem blanks_of_not {c : Char} (hc : Text.isBlank c = false) (r : List Char) : blanks (c :: r) = .ok ((), c :: r) :=
  congrArg (fun s => Except.ok ((), s)) (trimStart_of_not hc r)

theorem blanks_digits (width n : Nat) (r : List Char) :
    blanks (digits (width + 1) n ++ r) = .ok ((), digits (width + 1) n ++ r) :=
  blanks_of_not (isBlank_digit _) _

/-- All digits are taken when no more may be, or when no more stand there. -/
theorem number_digits {most width n : Nat} (hwidth : width + 1 ≤ most)
    (hr : width + 1 = most ∨ ∀ c t, r = c :: t → isDigit c = false) :
    number most (digits (width + 1) n ++ r) = .ok (n % Nat.pow 10 (width + 1), r) := by
  have hlength : (digits (width + 1) n).length = width + 1 := length_digits (width + 1) n
  have htake : ((digits (width + 1) n ++ r).take most).takeWhile isDigit = digits (width + 1) n := by
    have hrest : (r.take (most - (width + 1))).takeWhile isDigit = [] := by
      rcases hr with hr | hr
      · rw [hr, Nat.sub_self, List.take_zero, List.takeWhile_nil]
      · cases r with
        | nil => rw [List.take_nil, List.takeWhile_nil]
        | cons c t =>
          cases most - (width + 1) with
          | zero => rfl
          | succ k => simp [hr c t rfl]
    rw [List.take_append, hlength, List.take_of_length_le (by omega),
      List.takeWhile_append_of_pos fun c hc => isDigit_of_mem_digits hc, hrest, List.append_nil]
  have hvalue := decimalValue_digits 0 (width + 1) n
  rw [Nat.zero_mul, Nat.zero_add] at hvalue
  have hstep : number most (digits (width + 1) n ++ r) =
      (let ds := ((digits (width + 1) n ++ r).take most).takeWhile isDigit
      if ds.isEmpty then .error .invalid
      else .ok (decimalValue 0 ds, (digits (width + 1) n ++ r).drop ds.length)) := rfl
  have hsome : (digits (width + 1) n).isEmpty = false := rfl
  rw [hstep]
  simp only [htake, hvalue, hsome, Bool.false_eq_true, if_false, List.drop_left]

theorem require_of {ok : Bool} (h : ok = true) (s : List Char) : require ok s = .ok ((), s) := by
  rw [h]
  rfl

theorem field_digits {low high n : Nat} (hlow : low ≤ n) (hhigh : n ≤ high) (hn : n < 100) (r : List Char) :
    field low high (digits 2 n ++ r) = .ok (n, r) := by
  have hnumber := number_digits (n := n) (r := r) (Nat.le_refl 2) (.inl rfl)
  rw [Nat.mod_eq_of_lt hn] at hnumber
  rw [field, bind_ok (blanks_digits 1 n r), bind_ok hnumber, bind_ok (require_of (by simp [hlow, hhigh]) r)]
  rfl

theorem separator_self {c : Char} (hc : Text.isBlank c = false) (r : List Char) :
    separator c (c :: r) = .ok ((), r) := by
  rw [separator, bind_ok (blanks_of_not hc r), literal, if_pos rfl]

theorem dateTimeSeparator_self (r : List Char) : dateTimeSeparator ('T' :: r) = .ok ((), r) := rfl

theorem yearField_digits {year : Int} (hlow : 0 ≤ year) (hhigh : year ≤ 9999) (r : List Char) :
    yearField (yearChars year ++ r) = .ok (year, r) := by
  obtain ⟨n, rfl⟩ := Int.eq_ofNat_of_zero_le hlow
  have hn : n < 10000 := by omega
  have hnumber := number_digits (n := n) (r := r) (Nat.le_refl 4) (.inl rfl)
  rw [Nat.mod_eq_of_lt hn] at hnumber
  have hsigns : ∀ c : Char, isDigit c = false → digit (n / Nat.pow 10 3) ≠ c := by
    rintro c hc rfl
    rw [isDigit_digit] at hc
    cases hc
  have hget : (get : Reader (List Char)) (digits 4 n ++ r) = .ok (digits 4 n ++ r, digits 4 n ++ r) := rfl
  have hrange : (-Int.pow 2 31 ≤ (n : Int) && (n : Int) < Int.pow 2 31) = true := by
    have hpow : Int.pow 2 31 = 2147483648 := by decide
    rw [hpow]
    simp
    omega
  rw [yearChars, if_pos ⟨hlow, hhigh⟩, Int.toNat_natCast, yearField, bind_ok (blanks_digits 3 n r), bind_ok hget]
  change number 4 (digits 4 n ++ r) = .ok (n, r) at hnumber
  generalize hs : digits 4 n ++ r = s at hnumber ⊢
  split
  next => exact absurd (List.cons.inj hs).1 (hsigns '-' rfl)
  next => exact absurd (List.cons.inj hs).1 (hsigns '+' rfl)
  next =>
    rw [bind_ok hnumber, pure_bind]
    exact bind_ok (require_of hrange r)

/-- Behind the point. -/
def fractionDigits (r : List Char) : Reader Nat := do
  set r
  let n ← number 9
  let rest ← get
  set (rest.dropWhile isDigit)
  return n * Nat.pow 10 (9 - (r.length - rest.length))

theorem fraction_point (r : List Char) : fraction ('.' :: r) = fractionDigits r ('.' :: r) := rfl

/-- A fraction of three, six or nine digits, with the zeros that are left out. -/
theorem fraction_digits (width : Nat) {n : Nat} (hwidth : width + 1 ≤ 9) (hn : n < Nat.pow 10 (width + 1)) :
    fraction ('.' :: (digits (width + 1) n ++ ['Z'])) = .ok (n * Nat.pow 10 (9 - (width + 1)), ['Z']) := by
  have hnumber := number_digits (n := n) (r := ['Z']) hwidth (.inr (by rintro c t ⟨⟩; rfl))
  rw [Nat.mod_eq_of_lt hn] at hnumber
  have hget : ∀ s : List Char, (get : Reader (List Char)) s = .ok (s, s) := fun _ => rfl
  have hset : ∀ t s : List Char, (set t : Reader PUnit) s = .ok (⟨⟩, t) := fun _ _ => rfl
  have hlength : (digits (width + 1) n ++ ['Z']).length - ['Z'].length = width + 1 := by
    rw [List.length_append, length_digits, Nat.add_sub_cancel]
  rw [fraction_point, fractionDigits, bind_ok (hset _ _), bind_ok hnumber, bind_ok (hget _), bind_ok (hset _ _), hlength]
  rfl

theorem fraction_chars {nano : Nat} (h : nano < Nat.pow 10 9) :
    fraction (fractionChars nano ++ ['Z']) = .ok (nano, ['Z']) := by
  have hpow : Nat.pow 10 9 = 1000000000 := by decide
  rw [hpow] at h
  rw [fractionChars]
  split
  next hzero =>
    rw [hzero]
    rfl
  next =>
    split
    next hmillis =>
      have hread := fraction_digits 2 (n := nano / 1000000) (by decide) (show _ < 1000 by omega)
      rw [show nano / 1000000 * Nat.pow 10 (9 - (2 + 1)) = nano by
        change nano / 1000000 * 1000000 = nano
        omega] at hread
      exact hread
    next =>
      split
      next hmicros =>
        have hread := fraction_digits 5 (n := nano / 1000) (by decide) (show _ < 1000000 by omega)
        rw [show nano / 1000 * Nat.pow 10 (9 - (5 + 1)) = nano by
          change nano / 1000 * 1000 = nano
          omega] at hread
        exact hread
      next =>
        have hread := fraction_digits 8 (n := nano) (by decide) (show _ < 1000000000 by omega)
        rw [show nano * Nat.pow 10 (9 - (8 + 1)) = nano from Nat.mul_one nano] at hread
        exact hread

theorem offset_universal : offset ['Z'] = .ok (0, []) := rfl

end Readers

theorem minusMinutes_zero {t : Timestamp} (h : t.Valid) : t.minusMinutes 0 = t := by
  have hhour := h.hour_lt
  have hminute := h.minute_lt
  have hrest : (((t.hour : Int) * 60 + t.minute - 0) % 1440).toNat = t.hour * 60 + t.minute := by omega
  have hday : ¬ ((t.hour : Int) * 60 + t.minute - 0 < 0) := by omega
  have hnext : ¬ (1440 ≤ (t.hour : Int) * 60 + t.minute - 0) := by omega
  simp only [minusMinutes, hrest, if_neg hday, if_neg hnext]
  rw [show (t.hour * 60 + t.minute) / 60 = t.hour by omega, show (t.hour * 60 + t.minute) % 60 = t.minute by omega]

theorem daysIn_le (year : Int) (month : Nat) : daysIn year month ≤ 31 := by
  rw [daysIn]
  split
  · split <;> decide
  · split <;> decide

/-- The years of such points in time are written with four digits. -/
structure Common (t : Timestamp) : Prop extends t.Valid where
  year_nonneg : 0 ≤ t.year
  year_le : t.year ≤ 9999

/-- They are read as themselves. -/
theorem ofText_text {t : Timestamp} (h : t.Common) : ofText t.text = .ok t := by
  have hlow := h.year_nonneg
  have hhigh := h.year_le
  have hday : t.day ≤ 31 := Nat.le_trans h.day_le (daysIn_le t.year t.month)
  have hmonth := h.month_le
  have hhour := h.hour_lt
  have hminute := h.minute_lt
  have hsecond := h.second_le
  have hget : ∀ s : List Char, (get : Reader (List Char)) s = .ok (s, s) := fun _ => rfl
  have hblanks : blanks [] = .ok ((), []) := rfl
  have hsame : minusMinutes ⟨t.year, t.month, t.day, t.hour, t.minute, t.second, t.nano⟩ 0 = t :=
    minusMinutes_zero h.toValid
  have hyear : leastYear ≤ t.year ∧ t.year ≤ greatestYear := by
    rw [leastYear, greatestYear]
    omega
  have hdate : (leastYear ≤ t.year && t.year ≤ greatestYear && t.day ≤ daysIn t.year t.month) = true := by
    simp [hyear, h.day_le]
  have hread : reader t.chars = .ok (t, []) := by
    simp only [chars, List.append_assoc, List.cons_append]
    rw [reader, bind_ok (yearField_digits hlow hhigh _), bind_ok (separator_self (by decide) _),
      bind_ok (field_digits h.month_pos hmonth (by omega) _), bind_ok (separator_self (by decide) _),
      bind_ok (field_digits h.day_pos hday (by omega) _), bind_ok (dateTimeSeparator_self _),
      bind_ok (field_digits (Nat.zero_le _) (by omega) (by omega) _), bind_ok (separator_self (by decide) _),
      bind_ok (field_digits (Nat.zero_le _) (by omega) (by omega) _), bind_ok (separator_self (by decide) _),
      bind_ok (field_digits (Nat.zero_le _) hsecond (by omega) _), bind_ok (fraction_chars h.nano_lt),
      bind_ok offset_universal, bind_ok hblanks, bind_ok (hget _)]
    simp only [List.isEmpty_nil, if_true]
    rw [bind_ok (require_of hdate []), bind_ok (require_of (by decide) [])]
    simp only [hsame, if_pos hyear]
    rfl
  rw [ofText, text, String.toList_ofList, parse, hread]
  rfl

end EventJournal.Timestamp
