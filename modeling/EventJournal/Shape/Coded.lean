import EventJournal.Json.Printer
import EventJournal.Shape.OfText

/-!
Types that have a shape. They are written and read through it.
-/
namespace EventJournal

class Coded (α : Type) where
  shape : Shape
  toVal : α → shape.Val
  ofVal : shape.Val → α
  ofVal_toVal : ∀ a : α, ofVal (toVal a) = a

namespace Coded

def toJson [Coded α] (a : α) : Json :=
  (shape α).toJson (toVal a)

/-- The plain JSON form, as payloads carry it. -/
def toPlain [Coded α] (a : α) : Json :=
  (toJson a).plain

def ofJson (α : Type) [Coded α] (j : Json) : Except Json.Reason α :=
  ((shape α).ofJson j).map ofVal

def ofSymbols (α : Type) [Coded α] (s : List Text.Symbol) : Except Json.Reason α :=
  ((shape α).ofText s).map ofVal

instance : Coded Bool := ⟨.bool, id, id, fun _ => rfl⟩
instance : Coded Int := ⟨.int, id, id, fun _ => rfl⟩
instance : Coded String := ⟨.text, id, id, fun _ => rfl⟩
instance : Coded Uuid := ⟨.uuid, id, id, fun _ => rfl⟩
instance : Coded Timestamp := ⟨.time, id, id, fun _ => rfl⟩
instance : Coded Json := ⟨.json, id, id, fun _ => rfl⟩

instance [Coded α] : Coded (Option α) where
  shape := .option (shape α)
  toVal := Option.map toVal
  ofVal := Option.map ofVal
  ofVal_toVal a := by cases a <;> simp [ofVal_toVal]

instance [Coded α] : Coded (List α) where
  shape := .list (shape α)
  toVal := List.map toVal
  ofVal := List.map ofVal
  ofVal_toVal a := by simp [Function.comp_def, ofVal_toVal]

end Coded

end EventJournal
