/-!
White space as Unicode lists it, and text with the white space at its ends taken off.
-/
namespace EventJournal.Text

/-- The characters with the Unicode property White_Space. -/
def isBlank (c : Char) : Bool :=
  let n := c.toNat
  (9 ≤ n && n ≤ 13) || n == 0x20 || n == 0x85 || n == 0xA0 || n == 0x1680 ||
    (0x2000 ≤ n && n ≤ 0x200A) || n == 0x2028 || n == 0x2029 || n == 0x202F || n == 0x205F ||
    n == 0x3000

def trimStart (s : List Char) : List Char :=
  s.dropWhile isBlank

def trimEnd (s : List Char) : List Char :=
  (trimStart s.reverse).reverse

def trim (s : List Char) : List Char :=
  trimEnd (trimStart s)

@[simp] theorem trim_nil : trim [] = [] := rfl

theorem trimStart_append {b : List Char} (hb : ∀ c ∈ b, isBlank c = true) (s : List Char) :
    trimStart (b ++ s) = trimStart s := by
  induction b with
  | nil => rfl
  | cons c r ih =>
    have hc : isBlank c = true := hb c (by simp)
    have hr : trimStart (r ++ s) = trimStart s := ih fun d hd => hb d (by simp [hd])
    simpa [trimStart, hc] using hr

theorem trimStart_eq_nil {s : List Char} (h : ∀ c ∈ s, isBlank c = true) : trimStart s = [] := by
  simpa [trimStart] using trimStart_append h []

end EventJournal.Text
