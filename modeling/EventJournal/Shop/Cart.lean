import EventJournal.Shop.Line
import EventJournal.Stream

/-!
The cart as a state: one line per article, until it is checked out.
-/
namespace EventJournal.Shop

structure Cart where
  lines : List Line
  checkedOut : Bool
  deriving DecidableEq, Repr

namespace Cart

def blank : Cart :=
  ⟨[], false⟩

/-- Raises the line of the article, or starts one at the end. -/
def addLine (sku : String) (quantity : Nat) : List Line → List Line
  | [] => [⟨sku, quantity⟩]
  | l :: rest =>
    if l.sku = sku then { l with quantity := l.quantity + quantity } :: rest
    else l :: addLine sku quantity rest

def apply (event : Event) : EStateM PayloadError Cart Unit := fun cart =>
  match event.name with
  | "cartOpened" => .ok () cart
  | "itemAdded" =>
    match event.decode ItemAdded with
    | .ok item => .ok () { cart with lines := addLine item.sku item.quantity cart.lines }
    | .error e => .error e cart
  | "checkedOut" => .ok () { cart with checkedOut := true }
  | other => .error (.unexpected other) cart

instance : State Cart where
  shape := .record "Cart" false <|
    .required "lines" (Coded.shape (List Line)) <| .required "checked_out" .bool .nil
  toVal c := (Coded.toVal c.lines, c.checkedOut, ())
  ofVal := fun (lines, checkedOut, _) => ⟨Coded.ofVal lines, checkedOut⟩
  ofVal_toVal c := congrArg (Cart.mk · c.checkedOut) (Coded.ofVal_toVal c.lines)
  blank := blank
  apply := apply

end Cart

end EventJournal.Shop
