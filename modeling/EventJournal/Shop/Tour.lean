import EventJournal.Bus.Publish
import EventJournal.Bus.Serve
import EventJournal.Relay
import EventJournal.Settings.Lookup
import EventJournal.Shop.Site

/-!
A tour of the shop: a cart is opened, filled and checked out, a second checkout is refused, and the order
appears. The tour runs on a clock of its own.
-/
namespace EventJournal.Shop

/-- What the bus feeds. -/
inductive Feed where
  | orders
  | orderLog
  deriving DecidableEq, Repr

structure Stores where
  carts : Store Cart
  orders : Store Order

abbrev Hall := World Feed Stores

namespace Tour

/-- What the tour may end with instead of a result. -/
inductive Failed where
  | settings (error : ConfigError)
  | storage (error : StorageError)
  | bus (error : BusError)
  | engine (error : EngineError)
  deriving DecidableEq, Repr

/-- The text on the error channel. -/
def Failed.message : Failed → String
  | .settings e =>
    "Error: invalid TIDEWATER_* configuration\n\nCaused by:\n    " ++ e.message ++ "\n"
  | .storage e => "Error: " ++ e.message ++ "\n"
  | .bus e => "Error: " ++ e.message ++ "\n"
  | .engine e => "Error: " ++ e.message ++ "\n"

def target := "shop"

def cartCell : Cell (Fiber Hall) (Store Cart) :=
  World.part Stores.carts fun carts s => { s with carts }

def orderCell : Cell (Fiber Hall) (Store Order) :=
  World.part Stores.orders fun orders s => { s with orders }

def note (message : String) (fields : List (String × Json)) : Fiber Hall Unit :=
  Ambient.record ⟨.info, target, message, fields, none⟩

/-- The parts of the shop that the tour talks to. -/
structure Guide where
  carts : CommandIntake (Fiber Hall)
  wiring : Wiring Feed Stores
  cartRelay : Relay (Fiber Hall)
  orderRelay : Relay (Fiber Hall)
  world : Hall

def prepare (settings : Settings) (millis : Nat) : Except Failed Guide := do
  let policy := settings.engine.versionPolicy
  let bus ← (Bus.create? settings.bus 0).mapError .bus
  let carts ← (Store.create? cartName (.json .compact) policy).mapError .storage
  let orders ← (Store.create? orderName (.json .compact) policy).mapError .storage
  let cartEngine ←
    (cartEngine (Store.inCell cartName policy cartCell) Bus.publisher settings.engine).mapError
      .engine
  let orderEngine ←
    (orderEngine (Store.inCell orderName policy orderCell) Bus.publisher settings.engine).mapError
      .engine
  let bus ← (bus.subscribe cartName [Feed.orders]).mapError .bus
  let bus ← (bus.subscribe orderName [Feed.orderLog]).mapError .bus
  let handler : Feed → Handler (Fiber Hall)
    | .orders => EventIntake.handler (Watched.events orderEngine.takeIn "order") ["checkedOut"]
    | .orderLog => orderFeed
  return {
    carts := Watched.commands cartEngine.carryOut "cart"
    wiring := ⟨handler, .log⟩
    cartRelay := ⟨Store.backlog cartCell, Bus.publisher, settings.relay⟩
    orderRelay := ⟨Store.backlog orderCell, Bus.publisher, settings.relay⟩
    world := .create bus millis ⟨carts, orders⟩ }

/-- Sends a command to one cart. -/
def ask (guide : Guide) (ctx : Context) (cart : StreamId) (name : String) (payload : Json) :
    ExceptT EngineError (Fiber Hall) Reply := do
  let stamp ← ExceptT.lift Ambient.stamp
  let command := { Command.stamped stamp name cartName payload with streamId := some cart }
  ExceptT.mk (guide.carts ctx command)

/-- What is put into the cart. -/
def purchases : List ItemAdded :=
  [⟨"kettle", 1⟩, ⟨"mug", 2⟩, ⟨"mug", 2⟩]

def fill (guide : Guide) (ctx : Context) (cart : StreamId) :
    List ItemAdded → ExceptT EngineError (Fiber Hall) Unit
  | [] => return ()
  | item :: rest => do
    let _ ← ask guide ctx cart "addItem" (Coded.toPlain item)
    fill guide ctx cart rest

def visit (guide : Guide) (ctx : Context) (cart : StreamId) :
    ExceptT EngineError (Fiber Hall) Unit := do
  let reply ← ask guide ctx cart "openCart" .null
  ExceptT.lift <|
    note "cart opened" [("cart_id", .text cart.text), ("version", .nat reply.version)]
  fill guide ctx cart purchases
  let reply ← ask guide ctx cart "checkOut" .null
  ExceptT.lift <| note "cart checked out" [("version", .nat reply.version)]
  match ← ExceptT.lift (ask guide ctx cart "checkOut" .null).run with
  | .ok _ => return ()
  | .error e => ExceptT.lift <| note "second checkout rejected" [("error", .text e.message)]

/-- Tells what the storages hold in the end. -/
def report (cart : StreamId) : Fiber Hall (Except StorageError Unit) := ExceptT.run do
  let stream ← ExceptT.mk (cartCell.read fun carts => carts.load cart none)
  ExceptT.lift <| note "final cart"
    [("cart_id", .text stream.id.text), ("version", .nat stream.previousVersion),
      ("lines", .nat stream.state.lines.length)]
  let ids ← ExceptT.lift (orderCell.read Store.ids)
  ids.forM fun id => do
    let order ← ExceptT.mk (orderCell.read fun orders => orders.load id none)
    ExceptT.lift <| note "final order" [("order_id", .text id.text), ("units", .nat order.state.units)]

/-- Runs one fiber, and the others with it until all wait. -/
def play (guide : Guide) (pool : Pool Hall) (fiber : Fiber Hall Unit) : Pool Hall :=
  (pool.start (.once fiber)).settle (Bus.calls guide.wiring) 1000000

/-- How long the tour waits for the order, in milliseconds. -/
def patience : Nat := 100

/-- Ends the tour on the first failure, which the log does not show. -/
def finish (result : Fiber Hall (Except ε Unit)) : Fiber Hall Unit := do
  let _ ← result

/-- The log of the tour. -/
def walk (guide : Guide) : List Record :=
  let (signal, signals) := guide.world.signals.make
  let ctx := Context.ofSignal signal
  let (stamp, supply) := guide.world.supply.draw
  let cart : StreamId := ⟨stamp.id⟩
  let relays := [guide.cartRelay, guide.orderRelay]
  let pool : Pool Hall := .idle { guide.world with signals, supply }
  let pool := play guide pool (finish (Bus.listen ctx))
  let pool := play guide pool (relays.forM fun r => r.started ctx)
  let pool := play guide pool (finish (visit guide ctx cart).run)
  let pool := { pool with state := { pool.state with supply := pool.state.supply.wait patience } }
  let pool := play guide pool (relays.forM fun r => r.passes ctx (patience / r.config.intervalMs))
  let pool := play guide pool (finish (report cart))
  let pool := { pool with state := pool.state.fire signal }
  let pool := play guide pool (Bus.close guide.wiring)
  let pool := play guide pool (relays.forM fun _ => Relay.stopped ctx)
  pool.state.records

end Tour

/-- The log of a tour with settings found by name, and why it came to nothing, if so. -/
def tour (lookup : String → Option String) (millis : Nat) : List Record × Option Tour.Failed :=
  match Settings.ofLookup lookup with
  | (.error e, warnings) => (warnings, some (.settings e))
  | (.ok settings, warnings) =>
    match Tour.prepare settings millis with
    | .error e => (warnings, some e)
    | .ok guide => (warnings ++ Tour.walk guide, none)

end EventJournal.Shop
