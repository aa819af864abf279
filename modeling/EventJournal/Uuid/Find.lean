import EventJournal.Uuid

/-!
Identifiers inside a longer text, in their written form.
-/
namespace EventJournal.Uuid

def isLowerHex (c : Char) : Bool :=
  ('0' ≤ c && c ≤ '9') || ('a' ≤ c && c ≤ 'f')

/-- Whether the characters begin with a written identifier. -/
def standsIn (s : List Char) : Bool :=
  let front := s.take 36
  front.length == 36 && front.zipIdx.all fun (c, i) =>
    if hyphens.contains i then c == '-' else isLowerHex c

/-- Copies the characters behind the `skip` first ones, from left to right, with each identifier replaced. -/
def replaceFrom {m : Type → Type} [Monad m] (name : String → m String) :
    (skip : Nat) → List Char → m (List Char)
  | _, [] => return []
  | k + 1, _ :: rest => replaceFrom name k rest
  | 0, c :: rest => do
    if standsIn (c :: rest) then
      let front ← name (String.ofList ((c :: rest).take 36))
      return front.toList ++ (← replaceFrom name 35 rest)
    else return c :: (← replaceFrom name 0 rest)

/-- A text with each identifier in it replaced by what it is to be called. -/
def replaceIn {m : Type → Type} [Monad m] (name : String → m String) (text : String) : m String := do
  return String.ofList (← replaceFrom name 0 text.toList)

end EventJournal.Uuid
