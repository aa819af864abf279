import EventJournal.Shape.Coded
import EventJournal.Ident

/-!
What carts and orders hold, and what their events tell.
-/
namespace EventJournal.Shop

structure Line where
  sku : String
  quantity : Nat
  deriving DecidableEq, Repr

structure ItemAdded where
  sku : String
  quantity : Nat
  deriving DecidableEq, Repr

/-- The cart names the order that it asks for. -/
structure CheckedOut where
  orderId : StreamId
  lines : List Line
  deriving DecidableEq, Repr

structure OrderPlaced where
  cartId : StreamId
  lines : List Line
  deriving DecidableEq, Repr

instance : Coded Line where
  shape := .record "Line" false <| .required "sku" .text <| .required "quantity" .u32 .nil
  toVal l := (l.sku, l.quantity, ())
  ofVal := fun (sku, quantity, _) => ⟨sku, quantity⟩
  ofVal_toVal _ := rfl

instance : Coded ItemAdded where
  shape := .record "ItemAdded" false <| .required "sku" .text <| .required "quantity" .u32 .nil
  toVal l := (l.sku, l.quantity, ())
  ofVal := fun (sku, quantity, _) => ⟨sku, quantity⟩
  ofVal_toVal _ := rfl

instance : Coded CheckedOut where
  shape := .record "CheckedOut" false <|
    .required "order_id" .uuid <| .required "lines" (Coded.shape (List Line)) .nil
  toVal c := (c.orderId.uuid, Coded.toVal c.lines, ())
  ofVal := fun (order, lines, _) => ⟨⟨order⟩, Coded.ofVal lines⟩
  ofVal_toVal c := congrArg (CheckedOut.mk c.orderId) (Coded.ofVal_toVal c.lines)

instance : Coded OrderPlaced where
  shape := .record "OrderPlaced" false <|
    .required "cart_id" .uuid <| .required "lines" (Coded.shape (List Line)) .nil
  toVal o := (o.cartId.uuid, Coded.toVal o.lines, ())
  ofVal := fun (cart, lines, _) => ⟨⟨cart⟩, Coded.ofVal lines⟩
  ofVal_toVal o := congrArg (OrderPlaced.mk o.cartId) (Coded.ofVal_toVal o.lines)

/-- The sum of the quantities. -/
def units : List Line → Nat
  | [] => 0
  | l :: ls => l.quantity + units ls

@[simp] theorem units_nil : units [] = 0 := rfl

@[simp] theorem units_cons (l : Line) (ls : List Line) : units (l :: ls) = l.quantity + units ls := rfl

end EventJournal.Shop
