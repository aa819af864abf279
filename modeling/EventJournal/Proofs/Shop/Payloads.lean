import EventJournal.Proofs.Json.Payloads
import EventJournal.Proofs.Store.Snapshots
import EventJournal.Shop.Cart
import EventJournal.Shop.Order

/-!
What the shop writes into payloads and snapshots, and what it reads there. The quantities that it reads are numbers
of 32 bits, and lines of such quantities are read as they were written.
-/
namespace EventJournal.Shop

def greatestQuantity : Nat :=
  Nat.pow 2 32 - 1

/-- Lines of quantities that can be read. -/
def Fitting (lines : List Line) : Prop :=
  ∀ l ∈ lines, l.quantity ≤ greatestQuantity

instance (lines : List Line) : Decidable (Fitting lines) :=
  inferInstanceAs (Decidable (∀ l ∈ lines, l.quantity ≤ greatestQuantity))

theorem bounded_lines {lines : List Line} (h : Fitting lines) :
    (Coded.shape (List Line)).Bounded (Coded.toVal lines) := by
  intro v hv
  obtain ⟨l, hl, rfl⟩ := List.mem_map.mp hv
  exact And.intro trivial (And.intro (h l hl) trivial)

theorem fitting_of_bounded {v : (Coded.shape (List Line)).Val} (h : (Coded.shape (List Line)).Bounded v) :
    Fitting (Coded.ofVal v) := by
  intro l hl
  obtain ⟨u, hu, rfl⟩ := List.mem_map.mp hl
  exact (h u hu).2.1

section Decoding

variable {event : Event}

theorem fitting_of_decode {c : CheckedOut} (h : event.decode CheckedOut = .ok c) : Fitting c.lines := by
  obtain ⟨v, hv, rfl⟩ := Payload.bounded_of_decode h
  exact fitting_of_bounded hv.2.1

theorem le_of_decode {item : ItemAdded} {name : String} {payload : Json}
    (h : Payload.decode ItemAdded name payload = .ok item) : item.quantity ≤ greatestQuantity := by
  obtain ⟨v, hv, rfl⟩ := Payload.bounded_of_decode h
  exact hv.2.1

end Decoding

theorem returns_lines {lines : List Line} (h : Fitting lines) :
    (Coded.shape (List Line)).Returns (Coded.toVal lines) := by
  apply Shape.returns_list
  intro v hv
  obtain ⟨l, hl, rfl⟩ := List.mem_map.mp hv
  exact Shape.returns_pair "Line" false (by decide) (Shape.returns_text l.sku) (Shape.returns_nat "u32" (h l hl))

theorem returns_itemAdded {item : ItemAdded} (h : item.quantity ≤ greatestQuantity) :
    (Coded.shape ItemAdded).Returns (Coded.toVal item) :=
  Shape.returns_pair "ItemAdded" false (by decide) (Shape.returns_text item.sku) (Shape.returns_nat "u32" h)

theorem returns_checkedOut {c : CheckedOut} (h : Fitting c.lines) :
    (Coded.shape CheckedOut).Returns (Coded.toVal c) :=
  Shape.returns_pair "CheckedOut" false (by decide) (Shape.returns_uuid c.orderId.uuid) (returns_lines h)

theorem returns_orderPlaced {o : OrderPlaced} (h : Fitting o.lines) :
    (Coded.shape OrderPlaced).Returns (Coded.toVal o) :=
  Shape.returns_pair "OrderPlaced" false (by decide) (Shape.returns_uuid o.cartId.uuid) (returns_lines h)

theorem plain_cart : Coded.Plain Cart := by
  constructor <;> decide

theorem plain_order : Coded.Plain Order := by
  constructor <;> decide

theorem bounded_cart {cart : Cart} (h : Fitting cart.lines) : (Coded.shape Cart).Bounded (Coded.toVal cart) :=
  And.intro (bounded_lines h) (And.intro trivial trivial)

theorem bounded_order {order : Order} (h : Fitting order.lines) : (Coded.shape Order).Bounded (Coded.toVal order) := by
  refine And.intro ?_ (And.intro (bounded_lines h) trivial)
  cases order.cartId <;> trivial

end EventJournal.Shop
