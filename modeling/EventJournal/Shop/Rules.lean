import EventJournal.Engine.Controller
import EventJournal.Shop.Cart
import EventJournal.Shop.Order

/-!
The rules of the shop. A cart is opened, filled and checked out once; a checkout asks for an order, whose
id the cart chooses.
-/
namespace EventJournal.Shop

variable {m : Type → Type} [Monad m] [Ambient m]

def openCart : CommandController m Cart := fun _ _ => do
  let _ ← Revision.emit "cartOpened" (.ok .null)
  return none

def stillOpen : Revision m Cart Unit := do
  if (← get).state.checkedOut then throw (.invariant "cart already checked out")

def addItem : CommandController m Cart := fun _ command => do
  let item ← Revision.ofPayload (command.decode ItemAdded)
  stillOpen
  if item.quantity = 0 then throw (.validation "quantity must be positive")
  let _ ← Revision.emit "itemAdded" (.of item)
  return none

def checkOut : CommandController m Cart := fun _ command => do
  stillOpen
  let lines := (← get).state.lines
  if lines.isEmpty then throw (.validation "cart is empty")
  let stamp ← Revision.lift Ambient.stamp
  let _ ← Revision.emit "checkedOut" (.of (CheckedOut.mk ⟨stamp.id⟩ lines))
  return some (command.replyOk (← Revision.lift Ambient.now) (← get).version)

/-- The order that a checkout names. -/
def pickOrder (event : Event) : Pick :=
  match event.decode CheckedOut with
  | .ok c => .one c.orderId
  | .error _ => .none

def placeOrder (event : Event) : Revision m Order Unit := do
  let c ← Revision.ofPayload (event.decode CheckedOut)
  let _ ← Revision.emit "orderPlaced" (.of (OrderPlaced.mk event.streamId c.lines))

end EventJournal.Shop
