import EventJournal.Text.Blank

/-!
White space around a text. What is left of a text without it begins and ends with something else, and a text like that
comes back whatever white space was put around it.
-/
namespace EventJournal.Text

variable {s t : List Char}

/-- Neither the first character nor the last one is blank. -/
structure Trimmed (s : List Char) : Prop where
  first : ∀ c, s.head? = some c → isBlank c = false
  last : ∀ c, s.getLast? = some c → isBlank c = false

/-- A text with any white space before and behind it. -/
def Padded (s t : List Char) : Prop :=
  ∃ before behind, (∀ c ∈ before, isBlank c = true) ∧ (∀ c ∈ behind, isBlank c = true) ∧ t = before ++ s ++ behind

theorem Padded.of_all (before behind : List Char) (hbefore : before.all isBlank = true)
    (hbehind : behind.all isBlank = true) (ht : t = before ++ s ++ behind) : Padded s t :=
  ⟨before, behind, List.all_eq_true.mp hbefore, List.all_eq_true.mp hbehind, ht⟩

theorem Padded.refl (s : List Char) : Padded s s :=
  .of_all [] [] rfl rfl (List.append_nil s).symm

theorem trimStart_eq_self (h : ∀ c, s.head? = some c → isBlank c = false) : trimStart s = s := by
  cases s with
  | nil => rfl
  | cons c r => exact List.dropWhile_cons_of_neg (by rw [h c rfl]; decide)

theorem head?_trimStart {c : Char} (h : (trimStart s).head? = some c) : isBlank c = false := by
  have hnot := List.head?_dropWhile_not isBlank s
  rw [trimStart] at h
  rwa [h] at hnot

theorem trimStart_isSuffix (s : List Char) : trimStart s <:+ s :=
  List.dropWhile_suffix isBlank

theorem trimEnd_isPrefix (s : List Char) : trimEnd s <+: s := by
  rw [← List.reverse_suffix, trimEnd, List.reverse_reverse]
  exact trimStart_isSuffix s.reverse

theorem trim_subset (s : List Char) : trim s ⊆ s :=
  fun _ hc => (trimStart_isSuffix s).subset ((trimEnd_isPrefix _).subset hc)

theorem trimmed_trim (s : List Char) : Trimmed (trim s) where
  first c hc := by
    -- the end that is taken off leaves the first character, if it leaves any
    obtain ⟨behind, hbehind⟩ := trimEnd_isPrefix (trimStart s)
    apply head?_trimStart (s := s)
    rw [← hbehind, List.head?_append]
    rw [trim] at hc
    rw [hc]
    rfl
  last c hc := by
    rw [trim, trimEnd, List.getLast?_reverse] at hc
    exact head?_trimStart hc

theorem trim_append_left {b : List Char} (hb : ∀ c ∈ b, isBlank c = true) (s : List Char) :
    trim (b ++ s) = trim s := by
  rw [trim, trimStart_append hb, trim]

theorem trimEnd_append {b : List Char} (hb : ∀ c ∈ b, isBlank c = true) (s : List Char) :
    trimEnd (s ++ b) = trimEnd s := by
  have hreversed : ∀ c ∈ b.reverse, isBlank c = true := fun c hc => hb c (List.mem_reverse.mp hc)
  rw [trimEnd, List.reverse_append, trimStart_append hreversed, trimEnd]

theorem trim_append_right {b : List Char} (hb : ∀ c ∈ b, isBlank c = true) (s : List Char) :
    trim (s ++ b) = trim s := by
  rw [trim, trim, trimStart, List.dropWhile_append]
  split
  next h =>
    have hnone : s.dropWhile isBlank = [] := List.isEmpty_iff.mp h
    rw [trimStart, hnone, ← trimStart, trimStart_eq_nil hb]
  next => exact trimEnd_append hb _

/-- White space around a text does not matter. -/
theorem Padded.trim_eq (h : Padded s t) : trim t = trim s := by
  obtain ⟨before, behind, hbefore, hbehind, rfl⟩ := h
  rw [trim_append_right hbehind, trim_append_left hbefore]

theorem Trimmed.trim_eq (h : Trimmed s) : trim s = s := by
  have hlast : ∀ c, s.reverse.head? = some c → isBlank c = false := by
    intro c hc
    rw [List.head?_reverse] at hc
    exact h.last c hc
  rw [trim, trimStart_eq_self h.first, trimEnd, trimStart_eq_self hlast, List.reverse_reverse]

theorem trimmed_of_not_any (h : s.any isBlank = false) : Trimmed s where
  first c hc := Bool.eq_false_iff.mpr (List.any_eq_false.mp h c (List.mem_of_mem_head? hc))
  last c hc := Bool.eq_false_iff.mpr (List.any_eq_false.mp h c (List.mem_of_getLast? hc))

end EventJournal.Text
