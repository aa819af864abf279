import EventJournal.Proofs.Text.Trimming
import EventJournal.Settings.Lookup
import Mathlib.Data.List.Forall2

/-!
The texts of single settings. A truth value, a number and a list of names are read back from what is written of them,
and numbers and names that are read can be written again.
-/
namespace EventJournal.Settings

open Text

section Words

variable {n m : Nat} {s : List Char}

theorem parseWord?_lt (h : parseWord? s = some n) : n < Nat.pow 2 64 := by
  unfold parseWord? at h
  -- whichever digits are left behind a plus sign
  extract_lets digits at h
  cases hv : digitsValue? 0 digits with
  | none => simp [hv] at h
  | some k =>
    simp only [hv, Option.ite_none_left_eq_some, Option.ite_none_right_eq_some, Option.some.injEq] at h
    obtain ⟨-, hlt, rfl⟩ := h
    exact hlt

theorem digitsValue?_eq (hs : ∀ c ∈ s, c.isDigit = true) : digitsValue? m s = some (Nat.ofDigitChars 10 s m) := by
  induction s generalizing m with
  | nil => rfl
  | cons c r ih =>
    have hc := hs c List.mem_cons_self
    simp only [Char.isDigit, Bool.and_eq_true, decide_eq_true_eq] at hc
    have hrange : '0' ≤ c ∧ c ≤ '9' := hc
    rw [digitsValue?, if_pos hrange, ih fun d hd => hs d (List.mem_cons_of_mem c hd), Nat.ofDigitChars_cons, Nat.mul_comm m]
    rfl

theorem isBlank_of_isDigit {c : Char} (h : c.isDigit = true) : isBlank c = false := by
  have hlow : 48 ≤ c.toNat := (Char.isDigit_iff_toNat.mp h).1
  have hhigh : c.toNat ≤ 57 := (Char.isDigit_iff_toNat.mp h).2
  simp only [isBlank]
  grind

theorem isDigit_of_mem_repr {c : Char} (h : c ∈ n.repr.toList) : c.isDigit = true := by
  rw [Nat.repr_eq_ofList_toDigits, String.toList_ofList] at h
  exact Nat.isDigit_of_mem_toDigits (by decide) (by decide) h

theorem trimmed_repr (n : Nat) : Trimmed n.repr.toList :=
  trimmed_of_not_any <| List.any_eq_false.mpr fun _ hc =>
    Bool.eq_false_iff.mp (isBlank_of_isDigit (isDigit_of_mem_repr hc))

theorem parseWord?_repr (h : n < Nat.pow 2 64) : parseWord? n.repr.toList = some n := by
  obtain ⟨c, cs, hcs⟩ := List.exists_cons_of_ne_nil (Nat.toDigits_ne_nil (b := 10) (n := n))
  have hdigits : ∀ d ∈ c :: cs, d.isDigit = true := fun d hd =>
    Nat.isDigit_of_mem_toDigits (by decide) (by decide) (hcs ▸ hd)
  have hvalue : digitsValue? 0 (c :: cs) = some n := by
    rw [digitsValue?_eq hdigits, ← hcs, Nat.ofDigitChars_toDigits (by decide) (by decide)]
  have hplus : c ≠ '+' := by
    rintro rfl
    exact absurd (hdigits '+' List.mem_cons_self) (by decide)
  rw [Nat.repr_eq_ofList_toDigits, String.toList_ofList, hcs]
  simp [parseWord?, hplus, hvalue, h]

/-- How a truth value is written. -/
def truthText (b : Bool) : String :=
  if b then "true" else "false"

theorem trimmed_truthText (b : Bool) : Trimmed (truthText b).toList := by
  cases b <;> exact trimmed_of_not_any (by decide)

theorem parseBool?_truthText (b : Bool) : parseBool? (truthText b).toList = some b := by
  cases b <;> decide

end Words

section Names

variable {s t : List Char} {parts : List (List Char)}

theorem splitCommas_eq_splitOn (s : List Char) : splitCommas s = s.splitOn ',' := by
  rw [List.splitOn_eq_splitOnP]
  induction s with
  | nil => rfl
  | cons c r ih =>
    rw [splitCommas, List.splitOnP_cons_eq_if_modifyHead, ih]
    by_cases hc : c = ','
    · rw [if_pos hc, if_pos (beq_iff_eq.mpr hc)]
    · rw [if_neg hc, if_neg (by simpa using hc)]
      obtain ⟨p, ps, hp⟩ := List.exists_cons_of_ne_nil (List.splitOnP_ne_nil (· == ',') r)
      rw [hp]
      rfl

/-- A character that is no comma goes into the first part. -/
theorem splitCommas_cons_of_ne {c : Char} (hc : c ≠ ',') (s : List Char) :
    ∃ p ps, splitCommas s = p :: ps ∧ splitCommas (c :: s) = (c :: p) :: ps := by
  have hne : splitCommas s ≠ [] := by
    rw [splitCommas_eq_splitOn, List.splitOn_eq_splitOnP]
    exact List.splitOnP_ne_nil _ s
  obtain ⟨p, ps, hp⟩ := List.exists_cons_of_ne_nil hne
  refine ⟨p, ps, hp, ?_⟩
  rw [splitCommas, if_neg hc, hp]

theorem splitCommas_cons_comma (s : List Char) : splitCommas (',' :: s) = [] :: splitCommas s := rfl

theorem comma_notMem_of_mem_splitCommas {p : List Char} (h : p ∈ splitCommas s) : ',' ∉ p := by
  induction s generalizing p with
  | nil =>
    rw [List.mem_singleton.mp h]
    exact List.not_mem_nil
  | cons c r ih =>
    by_cases hc : c = ','
    · rw [hc, splitCommas_cons_comma] at h
      rcases List.mem_cons.mp h with rfl | h
      · exact List.not_mem_nil
      · exact ih h
    · obtain ⟨q, qs, hr, hsplit⟩ := splitCommas_cons_of_ne hc r
      rw [hsplit] at h
      rw [hr] at ih
      rcases List.mem_cons.mp h with rfl | h
      · rw [List.mem_cons, not_or]
        exact ⟨Ne.symm hc, ih List.mem_cons_self⟩
      · exact ih (List.mem_cons_of_mem q h)

/-- What is put in front of a text goes into the first part, if it has no comma. -/
theorem splitCommas_append_left {b : List Char} (hb : ',' ∉ b) (s : List Char) :
    ∃ p ps, splitCommas s = p :: ps ∧ splitCommas (b ++ s) = (b ++ p) :: ps := by
  induction b with
  | nil =>
    obtain ⟨p, ps, hs, -⟩ := splitCommas_cons_of_ne (c := '.') (by decide) s
    exact ⟨p, ps, hs, hs⟩
  | cons c b ih =>
    rw [List.mem_cons, not_or] at hb
    obtain ⟨p, ps, hs, hmore⟩ := ih hb.2
    obtain ⟨q, qs, hq, hsplit⟩ := splitCommas_cons_of_ne (Ne.symm hb.1) (b ++ s)
    obtain ⟨hfirst, hrest⟩ := List.cons.inj (hq.symm.trans hmore)
    rw [hfirst, hrest] at hsplit
    exact ⟨p, ps, hs, hsplit⟩

/-- And what is put behind it, into the last one. -/
theorem splitCommas_append_right {b : List Char} (hb : ',' ∉ b) (s : List Char) :
    ∃ ps p, splitCommas s = ps ++ [p] ∧ splitCommas (s ++ b) = ps ++ [p ++ b] := by
  induction s with
  | nil =>
    obtain ⟨p, ps, hnil, hsplit⟩ := splitCommas_append_left hb []
    obtain ⟨rfl, rfl⟩ := List.cons.inj hnil
    rw [List.append_nil] at hsplit
    exact ⟨[], [], rfl, hsplit⟩
  | cons c s ih =>
    obtain ⟨ps, p, hs, hmore⟩ := ih
    by_cases hc : c = ','
    · refine ⟨[] :: ps, p, ?_, ?_⟩
      · rw [hc, splitCommas_cons_comma, hs, List.cons_append]
      · rw [hc, List.cons_append, splitCommas_cons_comma, hmore, List.cons_append]
    · obtain ⟨q, qs, hq, hsplit⟩ := splitCommas_cons_of_ne hc s
      obtain ⟨r, rs, hr, hsplit'⟩ := splitCommas_cons_of_ne hc (s ++ b)
      rw [hs] at hq
      rw [hmore] at hr
      rw [hsplit, List.cons_append, hsplit']
      cases ps with
      | nil =>
        obtain ⟨rfl, rfl⟩ := List.cons.inj hq
        obtain ⟨rfl, rfl⟩ := List.cons.inj hr
        exact ⟨[], c :: p, rfl, rfl⟩
      | cons first ps =>
        obtain ⟨rfl, rfl⟩ := List.cons.inj hq
        obtain ⟨rfl, rfl⟩ := List.cons.inj hr
        exact ⟨(c :: first) :: ps, p, rfl, rfl⟩

theorem comma_notMem_of_blank {b : List Char} (hb : ∀ c ∈ b, isBlank c = true) : ',' ∉ b :=
  fun h => absurd (hb ',' h) (by decide)

/-- White space around a list of names does not matter. -/
theorem map_trim_splitCommas (h : Padded s t) : (splitCommas t).map trim = (splitCommas s).map trim := by
  obtain ⟨before, behind, hbefore, hbehind, rfl⟩ := h
  obtain ⟨p, ps, hs, hleft⟩ := splitCommas_append_left (comma_notMem_of_blank hbefore) s
  obtain ⟨qs, q, hq, hright⟩ := splitCommas_append_right (comma_notMem_of_blank hbehind) (before ++ s)
  calc (splitCommas (before ++ s ++ behind)).map trim
      = (splitCommas (before ++ s)).map trim := by
        rw [hq, hright, List.map_append, List.map_append, List.map_singleton, List.map_singleton,
          trim_append_right hbehind]
    _ = (splitCommas s).map trim := by
        rw [hs, hleft, List.map_cons, List.map_cons, trim_append_left hbefore]

/-- A name that can be listed between commas. -/
structure Listable (name : String) : Prop where
  ne_empty : name ≠ ""
  no_comma : ',' ∉ name.toList
  trimmed : Trimmed name.toList

theorem listable_of_mem_parseNames {name raw : String} (h : name ∈ parseNames raw) : Listable name := by
  obtain ⟨chars, hchars, rfl⟩ := List.mem_map.mp h
  obtain ⟨htrim, hne⟩ := List.mem_filter.mp hchars
  obtain ⟨part, hpart, rfl⟩ := List.mem_map.mp htrim
  constructor
  case ne_empty =>
    intro he
    rw [← String.toList_inj, String.toList_ofList] at he
    simp [he] at hne
  case no_comma =>
    rw [String.toList_ofList]
    exact fun hc => comma_notMem_of_mem_splitCommas hpart (trim_subset part hc)
  case trimmed =>
    rw [String.toList_ofList]
    exact trimmed_trim part

theorem trim_parts_of_padded {names parts : List String} (hnames : ∀ name ∈ names, Listable name)
    (hparts : List.Forall₂ (fun name part => Padded name.toList part.toList) names parts) :
    (parts.map String.toList).map trim = names.map String.toList ∧ ∀ p ∈ parts.map String.toList, ',' ∉ p := by
  induction hparts with
  | nil => exact ⟨rfl, by simp⟩
  | @cons name part names parts hpart _ ih =>
    have hname := hnames name List.mem_cons_self
    obtain ⟨htrim, hcommas⟩ := ih fun n hn => hnames n (List.mem_cons_of_mem name hn)
    have hcomma : ',' ∉ part.toList := by
      obtain ⟨before, behind, hbefore, hbehind, hp⟩ := hpart
      rw [hp, List.mem_append, List.mem_append, not_or, not_or]
      exact ⟨⟨comma_notMem_of_blank hbefore, hname.no_comma⟩, comma_notMem_of_blank hbehind⟩
    constructor
    · rw [List.map_cons, List.map_cons, List.map_cons, htrim, hpart.trim_eq, hname.trimmed.trim_eq]
    · intro p hp
      rcases List.mem_cons.mp hp with rfl | hp
      · exact hcomma
      · exact hcommas p hp

/-- Names are read back from their list, with any white space around each of them and around the whole. -/
theorem parseNames_of_padded {names parts : List String} {raw : String} (hnames : ∀ name ∈ names, Listable name)
    (hparts : List.Forall₂ (fun name part => Padded name.toList part.toList) names parts)
    (hraw : Padded (",".intercalate parts).toList raw.toList) : parseNames raw = names := by
  obtain ⟨htrim, hcommas⟩ := trim_parts_of_padded hnames hparts
  have hkept : (names.map String.toList).filter (!·.isEmpty) = names.map String.toList := by
    rw [List.filter_eq_self]
    intro p hp
    obtain ⟨name, hn, rfl⟩ := List.mem_map.mp hp
    simpa using (hnames name hn).ne_empty
  rw [parseNames, map_trim_splitCommas hraw, String.toList_intercalate]
  cases parts with
  | nil =>
    cases hparts
    rfl
  | cons part parts =>
    have hsplit : splitCommas ([','].intercalate ((part :: parts).map String.toList)) =
        (part :: parts).map String.toList := by
      rw [splitCommas_eq_splitOn]
      exact List.splitOn_intercalate ',' hcommas (by simp)
    rw [show ",".toList = [','] from rfl, hsplit, htrim, hkept]
    simp

end Names

end EventJournal.Settings
