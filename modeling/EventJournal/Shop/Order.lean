import EventJournal.Shop.Line
import EventJournal.Stream

/-!
The order as a state: the cart it came from, and its lines.
-/
namespace EventJournal.Shop

structure Order where
  cartId : Option StreamId
  lines : List Line
  deriving DecidableEq, Repr

namespace Order

def blank : Order :=
  ⟨none, []⟩

def units (order : Order) : Nat :=
  Shop.units order.lines

def apply (event : Event) : EStateM PayloadError Order Unit := fun order =>
  match event.name with
  | "orderPlaced" =>
    match event.decode OrderPlaced with
    | .ok placed => .ok () ⟨some placed.cartId, placed.lines⟩
    | .error e => .error e order
  | other => .error (.unexpected other) order

instance : State Order where
  shape := .record "Order" false <|
    .optional "cart_id" .uuid <| .required "lines" (Coded.shape (List Line)) .nil
  toVal o := (o.cartId.map StreamId.uuid, Coded.toVal o.lines, ())
  ofVal := fun (cart, lines, _) => ⟨cart.map StreamId.mk, Coded.ofVal lines⟩
  ofVal_toVal := fun ⟨cart, lines⟩ => by
    have h := Coded.ofVal_toVal lines
    cases cart <;> exact congrArg (Order.mk _) h
  blank := blank
  apply := apply

end Order

end EventJournal.Shop
