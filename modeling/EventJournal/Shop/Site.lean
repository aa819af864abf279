import EventJournal.Engine.Builder
import EventJournal.Handler.Projection
import EventJournal.Handler.Feed
import EventJournal.Watched
import EventJournal.Shop.Rules

/-!
The engines of the shop and the handlers between them.
-/
namespace EventJournal.Shop

def cartName := "cart"
def orderName := "order"

variable {m : Type → Type} [Monad m] [Ambient m]

def cartEngine (storage : Storage m Cart) (publisher : Publisher m) (config : EngineConfig) :
    Except EngineError (Engine m Cart) :=
  ((((Engine.Builder.create storage publisher).withConfig config).commandCreate "openCart"
    openCart).command "addItem" addItem).command "checkOut" checkOut |>.build

def orderEngine (storage : Storage m Order) (publisher : Publisher m) (config : EngineConfig) :
    Except EngineError (Engine m Order) :=
  (((Engine.Builder.create storage publisher).withConfig config).ignoreEvents
    ["orderPlaced"]).eventCreate "checkedOut" ⟨pickOrder, fun _ => placeOrder⟩ |>.build

def noteOrder (event : Event) : m (Except Failure Unit) := do
  match event.decode OrderPlaced with
  | .ok placed =>
    Ambient.record ⟨.info, "shop", "order placed",
      [("order_id", .text event.streamId.text), ("cart_id", .text placed.cartId.text),
        ("lines", .nat placed.lines.length)], none⟩
    return .ok ()
  | .error e => return .error (.payload e)

/-- Tells the log of placed orders. -/
def orderFeed : Handler m :=
  Watched.handler (Projection.empty.on "orderPlaced" noteOrder).handler "order-feed"

end EventJournal.Shop
