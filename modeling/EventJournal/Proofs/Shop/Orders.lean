import EventJournal.Proofs.Engine.Branch
import EventJournal.Proofs.Engine.Publication
import EventJournal.Proofs.Shop.Payloads
import EventJournal.Proofs.Store.Laws
import EventJournal.Shop.Site

/-!
Orders. A checkout may be delivered more than once, and more than one may name the same order. The first of them
places the order, and the others find it placed.
-/
namespace EventJournal.Shop

variable {W κ : Type}

/-- The order that an event asks for, if it is a checkout that can be read. -/
def request? (event : Event) : Option CheckedOut :=
  if event.name = "checkedOut" then (event.decode CheckedOut).toOption else none

/-- An event that is delivered to the engine of orders. -/
abbrev Delivery :=
  Context × Event

abbrev OrderBranch :=
  Branch Order Delivery (Except EngineError Unit)

def asks (id : StreamId) (call : Delivery) : Bool :=
  (request? call.2).any fun c => c.orderId = id

theorem asks_iff {id : StreamId} {call : Delivery} :
    asks id call = true ↔ ∃ c, request? call.2 = some c ∧ c.orderId = id := by
  unfold asks
  cases request? call.2 <;> simp

/-- Orders are as the first call wants them that asks for them. -/
def Order.law (calls : List Delivery) : Law Order := fun id owner journal order =>
  ∃ call c placed, calls.find? (asks id) = some call ∧ request? call.2 = some c ∧ owner = call.2.owner ∧
    journal = [placed] ∧ placed.name = "orderPlaced" ∧
    placed.payload = Coded.toPlain (OrderPlaced.mk call.2.streamId c.lines) ∧ order = ⟨some call.2.streamId, c.lines⟩

/-- How a call ends. Unless it is the first that asks for an order, it changes nothing. -/
inductive Ends (v : Exchange Order Delivery (Except EngineError Unit)) : Prop
  | ignored (asked : request? v.call.2 = none) (answer : v.answer = .ok ()) (after : v.after = v.before)
  | repeated (c : CheckedOut) (asked : request? v.call.2 = some c) (stored : v.before.store.entry? c.orderId ≠ none)
      (answer : v.answer = .error (.versionConflict (.versionConflict orderName c.orderId 0 1)))
      (after : v.after = v.before)
  | placed (c : CheckedOut) (event : Event) (asked : request? v.call.2 = some c)
      (new : v.before.store.entry? c.orderId = none) (stored : v.after.store.journal c.orderId = [event])
      (others : ∀ id, id ≠ c.orderId → v.after.store.entry? id = v.before.store.entry? id)
      (handed : v.after.handed = v.before.handed ++ [[event]])
      (answer : v.answer = .ok () ∧ v.after.store.outbox = v.before.store.outbox ∨
        ∃ source batch, v.answer = .error (.publishFailed source none) ∧ batch.events = [event] ∧
          v.after.store.outbox.batches = v.before.store.outbox.batches ++ [batch])

theorem decode_of_request {event : Event} {c : CheckedOut} (h : request? event = some c) :
    event.name = "checkedOut" ∧ event.decode CheckedOut = .ok c := by
  unfold request? at h
  split at h
  next hname => exact ⟨hname, Json.toOption_eq_some_iff.mp h⟩
  · cases h

section Controllers

variable [Ambient (Fiber W)] {B : Type} {keeper : Keeper B W κ} {s : Stream Order} {event : Event} {c : CheckedOut}

/-- A stream of an order as a checkout wants it. -/
structure Places (event : Event) (c : CheckedOut) (s : Stream Order) (placed : Event) (t : Stream Order) : Prop where
  name : placed.name = "orderPlaced"
  payload : placed.payload = Coded.toPlain (OrderPlaced.mk event.streamId c.lines)
  takes : s.Takes placed t
  state : t.state = ⟨some event.streamId, c.lines⟩

theorem Order.take_placed {order : Order} {o : OrderPlaced} (hname : event.name = "orderPlaced")
    (ho : event.decode OrderPlaced = .ok o) : State.take order event = .ok ⟨some o.cartId, o.lines⟩ := by
  simp only [State.take, State.apply, Order.apply, hname, ho]

/-- What can be read of a checkout is enough to place the order. -/
theorem works_placeOrder (hc : event.decode CheckedOut = .ok c) :
    keeper.Works (fun r t => r = .ok () ∧ ∃ placed, Places event c s placed t) (placeOrder event) s := by
  have hdecode : ∀ stamp, Event.decode OrderPlaced
      (s.nextEvent stamp "orderPlaced" (Coded.toPlain (OrderPlaced.mk event.streamId c.lines))) =
        .ok ⟨event.streamId, c.lines⟩ :=
    fun _ => Payload.decode_toPlain (returns_orderPlaced (fitting_of_decode hc)) "orderPlaced"
  apply Keeper.Works.bind
  apply Keeper.works_ofPayload
  · intro c' hc'
    rw [hc] at hc'
    cases hc'
    apply Keeper.Works.bind
    apply Keeper.works_emit
    · intro stamp t ht
      refine Keeper.works_pure ⟨rfl, _, rfl, rfl, ht, ?_⟩
      exact Except.ok.inj (ht.take.symm.trans (Order.take_placed rfl (hdecode stamp)))
    · intro stamp e t he
      rw [Order.take_placed rfl (hdecode stamp)] at he
      cases he
  · intro e he
    rw [hc] at he
    cases he

end Controllers

section Engine

def orderEvents {m : Type → Type} [Monad m] [Ambient m] : List (String × Registered (EventController m Order)) :=
  [("checkedOut", ⟨.create, ⟨pickOrder, fun _ => placeOrder⟩⟩)]

theorem lookup_orderEvents {m : Type → Type} [Monad m] [Ambient m] (name : String) :
    (orderEvents : List (String × Registered (EventController m Order))).lookup name =
      if name = "checkedOut" then some ⟨.create, ⟨pickOrder, fun _ => placeOrder⟩⟩ else none := by
  rw [orderEvents, List.lookup_cons, List.lookup_nil]
  by_cases h : name = "checkedOut"
  · rw [if_pos h, h]
    rfl
  · rw [if_neg h, beq_false_of_ne h]

theorem orderEngine_eq_ok {m : Type → Type} [Monad m] [Ambient m] (storage : Storage m Order)
    (publisher : Publisher m) (config : EngineConfig) : orderEngine storage publisher config =
      .ok ⟨storage, publisher, [], orderEvents, config.ignoredEvents ++ ["orderPlaced"], config.strict⟩ := rfl

variable [Ambient (Fiber W)]

/-- An engine of orders on a branch, which lets no checkout pass. -/
structure Serves (engine : Engine (Keeping OrderBranch W) Order) (policy : VersionPolicy)
    (inner : Publisher (Fiber W)) : Prop where
  storage : engine.storage = Branch.storage orderName policy
  publisher : engine.publisher = Branch.publisher inner
  events : engine.events = orderEvents
  lenient : engine.strict = false
  listens : "checkedOut" ∉ engine.ignored

variable {policy : VersionPolicy} {keeper : Keeper OrderBranch W κ} {b : OrderBranch}
  {engine : Engine (Keeping OrderBranch W) Order} {inner : Publisher (Fiber W)} {ctx : Context} {event : Event}
  {post : Except EngineError Unit → OrderBranch → Prop}

omit [Ambient (Fiber W)] in
theorem makes_astray (hlenient : engine.strict = false) {e : EngineError} (hp : post (.ok ()) b) :
    keeper.Makes post (engine.astray e).run b := by
  rw [Engine.astray, hlenient]
  exact Keeper.makes_pure hp

theorem pickOrder_of_request (h : request? event = none) (hname : event.name = "checkedOut") :
    pickOrder event = .none := by
  rw [request?, if_pos hname] at h
  rw [pickOrder]
  cases hd : event.decode CheckedOut with
  | ok c =>
    rw [hd] at h
    cases h
  | error e => rfl

theorem makes_takeIn_other (hserves : Serves engine policy inner) (hctx : ctx.Lasts W) (hi : keeper.inv b)
    (hnone : request? event = none) (hp : post (.ok ()) b) : keeper.Makes post (engine.takeIn ctx event) b := by
  apply Branch.makes_lasting hctx hi
  split
  · exact makes_astray hserves.lenient hp
  · rw [hserves.events, lookup_orderEvents]
    by_cases hname : event.name = "checkedOut"
    · rw [if_pos hname]
      dsimp only
      rw [pickOrder_of_request hnone hname]
      exact makes_astray hserves.lenient hp
    · rw [if_neg hname]
      exact makes_astray hserves.lenient hp

theorem makes_takeIn_checkout (hserves : Serves engine policy inner) (hctx : ctx.Lasts W) (hi : keeper.inv b)
    (hname : b.store.name = orderName) (hpolicy : b.store.policy = policy) {c : CheckedOut}
    (hc : request? event = some c)
    (hp : ∀ stamp placed t, Places event c ((b.store.blankStream stamp).assign c.orderId event.owner) placed t →
      (∀ b', b.Passes t b' → keeper.inv b') ∧ ∀ r b', b.Commits t r b' → post r b') :
    keeper.Makes post (engine.takeIn ctx event) b := by
  have hblank : ∀ stamp, b.store.blankStream stamp = (Stream.blank orderName stamp).withPolicy policy := by
    intro stamp
    rw [Store.blankStream, hname, hpolicy]
  obtain ⟨hname, hdecode⟩ := decode_of_request hc
  apply Branch.makes_lasting hctx hi
  have hlistens : ¬ engine.ignored.contains event.name = true := by
    rw [hname]
    simpa using hserves.listens
  rw [if_neg hlistens, hserves.events, lookup_orderEvents, if_pos hname]
  have hpick : pickOrder event = .one c.orderId := by rw [pickOrder, hdecode]
  dsimp only
  rw [hpick]
  apply Keeper.Makes.bindExcept
  apply Branch.makes_openStream hserves.storage hi
  · intro _ stamp
    apply Keeper.Makes.bindExcept
    refine (works_placeOrder hdecode).control hi ?_ ?_
    · rintro _ t ⟨-, placed, ht⟩
      obtain ⟨hpasses, hpost⟩ := hp stamp placed t (hblank stamp ▸ ht)
      apply Keeper.Makes.bindExcept
      apply Branch.makes_commit hserves.storage hserves.publisher hctx ht.takes.changes_ne_nil hpasses
      · intro h
        cases h
      · intro r b' hr
        cases r with
        | ok u => exact Keeper.makes_pure (hpost _ b' hr)
        | error e => exact hpost _ b' hr
    · rintro _ _ ⟨⟨⟩, -⟩
  · intro h
    cases h
  · intro h
    cases h

end Engine

section Endings

variable {v : Exchange Order Delivery (Except EngineError Unit)} {c : CheckedOut} {id : StreamId}

/-- What is stored stays stored. -/
theorem Ends.kept (h : Ends v) (hid : v.before.store.entry? id ≠ none) : v.after.store.entry? id ≠ none := by
  cases h with
  | ignored asked answer after =>
    rw [after]
    exact hid
  | repeated c asked stored answer after =>
    rw [after]
    exact hid
  | placed c event asked new stored others handed answer =>
    rw [others id fun h => hid (h ▸ new)]
    exact hid

/-- The order that was asked for is there. -/
theorem Ends.stored (h : Ends v) (hc : request? v.call.2 = some c) : v.after.store.entry? c.orderId ≠ none := by
  cases h with
  | ignored asked answer after =>
    rw [hc] at asked
    cases asked
  | repeated c' asked stored answer after =>
    rw [hc] at asked
    cases asked
    rw [after]
    exact stored
  | placed c' event asked new stored others handed answer =>
    rw [hc] at asked
    cases asked
    intro hnone
    rw [Store.journal, hnone] at stored
    cases stored

end Endings

/-- A branch on which every order was placed by the first call that asked for it. -/
structure Orderly (layout : Json.Layout) (policy : VersionPolicy) (calls : List Delivery) (b : OrderBranch) :
    Prop where
  obeys : b.store.Obeys (Order.law calls) layout orderName policy
  answered : b.exchanges.map Exchange.call <+: calls
  ends : ∀ v ∈ b.exchanges, Ends v

/-- Between two calls, with those that are left. -/
structure AtRest (calls queue : List Delivery) (b : OrderBranch) : Prop where
  left : b.exchanges.map Exchange.call ++ queue = calls
  placed : ∀ v ∈ b.exchanges, ∀ c, request? v.call.2 = some c → b.store.entry? c.orderId ≠ none

section Orderly

variable {layout : Json.Layout} {policy : VersionPolicy} {calls queue : List Delivery} {b b' : OrderBranch}
  {ctx : Context} {event placed : Event} {c : CheckedOut} {stamp : Stamp} {t : Stream Order}
  {r : Except EngineError Unit}

/-- A call that asks for an order that is not there is the first that asks for it. -/
theorem AtRest.find?_eq (h : AtRest calls ((ctx, event) :: queue) b) (hc : request? event = some c)
    (hnone : b.store.entry? c.orderId = none) : calls.find? (asks c.orderId) = some (ctx, event) := by
  have hasks : asks c.orderId (ctx, event) = true := asks_iff.mpr ⟨c, hc, rfl⟩
  have hbefore : (b.exchanges.map Exchange.call).find? (asks c.orderId) = none := by
    rw [List.find?_eq_none]
    intro call hcall hask
    obtain ⟨v, hv, rfl⟩ := List.mem_map.mp hcall
    obtain ⟨c', hc', hid⟩ := asks_iff.mp hask
    exact h.placed v hv c' hc' (hid ▸ hnone)
  rw [← h.left, List.find?_append, hbefore, Option.none_or, List.find?_cons, hasks]

/-- What a checkout makes of a new stream may be stored. -/
theorem Orderly.persist (h : Orderly layout policy calls b) (hrest : AtRest calls ((ctx, event) :: queue) b)
    (hc : request? event = some c)
    (ht : Places event c ((b.store.blankStream stamp).assign c.orderId event.owner) placed t) {store : Store Order}
    (hp : b.store.persist t = .ok store) : store.Obeys (Order.law calls) layout orderName policy := by
  have hfirst := hrest.find?_eq hc (h.obeys.entry?_of_persist ht.takes hp)
  exact h.obeys.persist_first ht.takes hp ⟨(ctx, event), c, placed, hfirst, hc, rfl, rfl, ht.name, ht.payload, ht.state⟩

theorem Orderly.version_eq (h : Orderly layout policy calls b) {id : StreamId} {entry : Entry}
    (he : b.store.entry? id = some entry) : entry.version = 1 := by
  obtain ⟨order, hentry⟩ := h.obeys.entries id entry he
  obtain ⟨_, _, placed, -, -, -, hjournal, -⟩ := hentry.law
  rw [hentry.length, hjournal]
  rfl

theorem Orderly.ends_of_commits (h : Orderly layout policy calls b) (hc : request? event = some c)
    (ht : Places event c ((b.store.blankStream stamp).assign c.orderId event.owner) placed t)
    (hr : b.Commits t r b') : Ends ⟨(ctx, event), b.toHoldings, r, b'.toHoldings⟩ := by
  have hchanges : t.changes = [placed] := ht.takes.changes_eq
  have hid : t.id = c.orderId := ht.takes.id_eq
  have hjournal : ∀ store, b.store.persist t = .ok store → b.store.entry? c.orderId = none ∧
      store.journal c.orderId = [placed] ∧ (∀ id, id ≠ c.orderId → store.entry? id = b.store.entry? id) ∧
        store.outbox = b.store.outbox := by
    intro store hp
    have hnone := h.obeys.entry?_of_persist ht.takes hp
    obtain ⟨-, -, snapshot, -, rfl⟩ := Store.persist_eq_ok hp
    rw [← hid] at hnone ⊢
    refine ⟨hnone, ?_, fun id hne => Store.entry?_extended_other _ _ _ hne, rfl⟩
    rw [Store.journal_extended, hchanges, Store.journal, hnone]
    rfl
  cases hr with
  | refused hpersist =>
    obtain ⟨-, store, hstore⟩ | ⟨entry, hentry, hconflict⟩ := h.obeys.persist_blank ht.takes
    · rw [hstore] at hpersist
      cases hpersist
    · rw [hconflict] at hpersist
      cases hpersist
      refine .repeated c hc (by simp [hentry]) ?_ rfl
      rw [h.version_eq hentry]
      rfl
  | published hpersist =>
    obtain ⟨hnone, hstored, hothers, houtbox⟩ := hjournal _ hpersist
    exact .placed c placed hc hnone hstored hothers (by rw [← hchanges]; rfl) (.inl ⟨rfl, houtbox⟩)
  | @stranded store hpersist source now =>
    obtain ⟨hnone, hstored, hothers, houtbox⟩ := hjournal store hpersist
    let batch : PendingBatch := ⟨store.outbox.lastId + 1, store.name, t.id, t.version, t.changes, now⟩
    refine .placed c placed hc hnone hstored hothers (by rw [← hchanges]; rfl)
      (.inr ⟨source, batch, rfl, hchanges, ?_⟩)
    rw [← houtbox]
    rfl

/-- A call that was answered is noted. -/
theorem Orderly.note (h : Orderly layout policy calls b') (hrest : AtRest calls ((ctx, event) :: queue) b)
    (hexchanges : b'.exchanges = b.exchanges) (hends : Ends ⟨(ctx, event), b.toHoldings, r, b'.toHoldings⟩) :
    Orderly layout policy calls (b'.note (ctx, event) b.toHoldings r) ∧
      AtRest calls queue (b'.note (ctx, event) b.toHoldings r) := by
  have hleft : (b'.note (ctx, event) b.toHoldings r).exchanges.map Exchange.call ++ queue = calls := by
    simp [Branch.note, hexchanges, ← hrest.left]
  refine ⟨⟨h.obeys, ⟨queue, hleft⟩, ?_⟩, hleft, ?_⟩
  · intro v hv
    obtain hv | hv := List.mem_append.mp hv
    · exact h.ends v hv
    · rw [List.mem_singleton.mp hv]
      exact hends
  · intro v hv c hc
    obtain hv | hv := List.mem_append.mp hv
    · exact hends.kept (hrest.placed v (hexchanges ▸ hv) c hc)
    · rw [List.mem_singleton.mp hv] at hc
      exact hends.stored hc

variable [Ambient (Fiber W)] {keeper : Keeper OrderBranch W κ} {engine : Engine (Keeping OrderBranch W) Order}
  {inner : Publisher (Fiber W)}

theorem makes_delivery (hserves : Serves engine policy inner) (hctx : ctx.Lasts W)
    (hkeeper : keeper.inv = Orderly layout policy calls) (h : Orderly layout policy calls b)
    (hrest : AtRest calls ((ctx, event) :: queue) b) :
    keeper.Makes (fun r b' => Orderly layout policy calls b' ∧
        Orderly layout policy calls (b'.note (ctx, event) b.toHoldings r) ∧
          AtRest calls queue (b'.note (ctx, event) b.toHoldings r)) (engine.takeIn ctx event) b := by
  cases hc : request? event with
  | none =>
    apply makes_takeIn_other hserves hctx (hkeeper ▸ h) hc
    exact ⟨h, h.note hrest rfl (.ignored hc rfl rfl)⟩
  | some c =>
    apply makes_takeIn_checkout hserves hctx (hkeeper ▸ h) h.obeys.name_eq h.obeys.policy_eq hc
    intro stamp placed t ht
    have hpasses : ∀ b', b.Passes t b' → Orderly layout policy calls b' := by
      intro b' hb'
      refine ⟨?_, hb'.exchanges_eq ▸ h.answered, hb'.exchanges_eq ▸ h.ends⟩
      obtain hstore | ⟨store, outbox, hpersist, hstore⟩ := hb'.store_cases
      · exact hstore ▸ h.obeys
      · exact hstore ▸ (h.persist hrest hc ht hpersist).withOutbox outbox
    refine ⟨hkeeper ▸ hpasses, fun r b' hr => ?_⟩
    have hb' := hpasses b' hr.passes
    exact ⟨hb', hb'.note hrest hr.passes.exchanges_eq (h.ends_of_commits hc ht hr)⟩

omit [Ambient (Fiber W)] in
theorem orderly_opened : Orderly layout policy calls (Branch.opened orderName (.json layout) policy) where
  obeys := Store.obeys_fresh
  answered := List.nil_prefix
  ends _ hv := by cases hv

omit [Ambient (Fiber W)] in
theorem atRest_opened : AtRest calls calls (Branch.opened orderName (.json layout) policy) where
  left := rfl
  placed _ hv := by cases hv

section Reached

variable (hserves : Serves engine policy inner) (hctx : ∀ call ∈ calls, call.1.Lasts W)
include hserves hctx

theorem makes_served (call : Delivery) (queue : List Delivery) (b : OrderBranch) (hb : Orderly layout policy calls b)
    (hrest : AtRest calls (call :: queue) b) :
    (Branch.keeper (fun call => engine.takeIn call.1 call.2) (Orderly layout policy calls) (AtRest calls)).Makes
      (fun r b' => Orderly layout policy calls b' ∧ Orderly layout policy calls (b'.note call b.toHoldings r) ∧
        AtRest calls queue (b'.note call b.toHoldings r)) (engine.takeIn call.1 call.2) b := by
  have hcall : call ∈ calls := hrest.left ▸ List.mem_append_right _ List.mem_cons_self
  exact makes_delivery hserves (hctx call hcall) rfl hb hrest

variable (w : W)

theorem orderly_reached (moves : List (Move (W → W))) :
    Orderly layout policy calls (Branch.reached (fun call => engine.takeIn call.1 call.2) orderName (.json layout)
      policy calls w moves) :=
  Branch.reached_of_served (Orderly layout policy calls) (AtRest calls) (makes_served hserves hctx) orderly_opened
    atRest_opened w moves

theorem all_answered {schedule : Nat → Move (W → W)}
    (hf : Branch.Fair (fun call => engine.takeIn call.1 call.2) orderName (.json layout) policy calls w schedule) :
    ∃ n, (Branch.reached (fun call => engine.takeIn call.1 call.2) orderName (.json layout) policy calls w
      ((List.range n).map schedule)).exchanges.map Exchange.call = calls := by
  obtain ⟨n, hn⟩ := Branch.rest_of_fair (Orderly layout policy calls) (AtRest calls) (makes_served hserves hctx)
    orderly_opened atRest_opened w hf
  have hleft := hn.left
  rw [List.append_nil] at hleft
  exact ⟨n, hleft⟩

end Reached

end Orderly

theorem foldl_quantity (lines : List Line) (n : Nat) :
    lines.foldl (fun total l => total + l.quantity) n = n + units lines := by
  induction lines generalizing n with
  | nil => rfl
  | cons l rest ih => rw [List.foldl_cons, ih, units_cons, Nat.add_assoc]

/-- The order that a delivery asks for, with the lines of the checkout. -/
def orderOf (call : Delivery) (c : CheckedOut) : Order :=
  ⟨some call.2.streamId, c.lines⟩

/-- A stored order with the call that placed it, which is the first that asks for it. It can be loaded if the time can
be read that its snapshot was written with. -/
structure Stands (layout : Json.Layout) (policy : VersionPolicy) (calls : List Delivery) (store : Store Order)
    (id : StreamId) (entry : Entry) (call : Delivery) (c : CheckedOut) (placed : Event) : Prop where
  first : calls.find? (asks id) = some call
  asked : request? call.2 = some c
  owner : entry.owner = call.2.owner
  journal : entry.journal = [placed]
  name : placed.name = "orderPlaced"
  decode : placed.decode OrderPlaced = .ok ⟨call.2.streamId, c.lines⟩
  keeps : store.Keeps id (orderOf call c)
  units : (orderOf call c).units = c.lines.foldl (fun total l => total + l.quantity) 0
  load : ∃ updatedAt, entry.Shows layout orderName id updatedAt (orderOf call c) ∧
    (store.load id none).toOption = updatedAt.reread.map fun updatedAt =>
      ⟨id, orderName, call.2.owner, 1, updatedAt, orderOf call c, [], policy⟩

theorem Orderly.stands {layout : Json.Layout} {policy : VersionPolicy} {calls : List Delivery} {b : OrderBranch}
    (h : Orderly layout policy calls b) {id : StreamId} {entry : Entry} (he : b.store.entry? id = some entry) :
    ∃ call c placed, Stands layout policy calls b.store id entry call c placed := by
  obtain ⟨order, hentry⟩ := h.obeys.entries id entry he
  obtain ⟨call, c, placed, hfirst, hc, howner, hjournal, hname, hpayload, rfl⟩ := hentry.law
  have hversion := h.version_eq he
  have hfitting := fitting_of_decode (decode_of_request hc).2
  refine ⟨call, c, placed, ?_⟩
  exact {
    first := hfirst
    asked := hc
    owner := howner
    journal := hjournal
    name := hname
    decode := by
      rw [Event.decode, hpayload]
      exact Payload.decode_toPlain (returns_orderPlaced hfitting) placed.name
    keeps := h.obeys.keeps plain_order he hentry
    units := by rw [foldl_quantity, Nat.zero_add]; rfl
    load := by
      obtain ⟨updatedAt, hshows, hload⟩ := h.obeys.toOption_load plain_order he hentry
      refine ⟨updatedAt, hshows, ?_⟩
      rw [hload (bounded_order hfitting) (by rw [hversion]; decide), howner, hversion]
      rfl }

/-- Whatever is delivered to a lenient engine of orders, how often, and whether or not what it stores can be
published: every stored order stands as the first checkout wants it that names it, and was placed by one event.
Calls that ask for no order, or for one that is there, change nothing. No call is left without an answer. -/
theorem one_order_per_checkout [Ambient (Fiber W)] (inner : Publisher (Fiber W)) (config : EngineConfig)
    (hlenient : config.strict = false) (hlistens : "checkedOut" ∉ config.ignoredEvents) (layout : Json.Layout)
    (policy : VersionPolicy) (calls : List Delivery) (hctx : ∀ call ∈ calls, call.1.Lasts W) (w : W) :
    ∃ engine : Engine (Keeping OrderBranch W) Order,
      orderEngine (Branch.storage orderName policy) (Branch.publisher inner) config = .ok engine ∧
      let serve : Delivery → Keeping OrderBranch W (Except EngineError Unit) := fun call => engine.takeIn call.1 call.2
      (∀ moves, let b := Branch.reached serve orderName (.json layout) policy calls w moves
        b.exchanges.map Exchange.call <+: calls ∧ (∀ v ∈ b.exchanges, Ends v) ∧
        ∀ id entry, b.store.entry? id = some entry →
          ∃ call c placed, Stands layout policy calls b.store id entry call c placed) ∧
      ∀ schedule, Branch.Fair serve orderName (.json layout) policy calls w schedule →
        ∃ n, (Branch.reached serve orderName (.json layout) policy calls w
          ((List.range n).map schedule)).exchanges.map Exchange.call = calls := by
  refine ⟨_, orderEngine_eq_ok _ _ config, ?_⟩
  intro serve
  have hserves : Serves (W := W) ⟨Branch.storage orderName policy, Branch.publisher inner, [], orderEvents,
      config.ignoredEvents ++ ["orderPlaced"], config.strict⟩ policy inner :=
    ⟨rfl, rfl, rfl, hlenient, by simpa using hlistens⟩
  refine ⟨?_, fun schedule hf => all_answered hserves hctx w hf⟩
  intro moves b
  have hb : Orderly layout policy calls b := orderly_reached hserves hctx w moves
  exact ⟨hb.answered, hb.ends, fun id entry he => hb.stands he⟩

/-- Surroundings in which no signal is given. -/
def Calm :=
  { w : Moody // w.signals.fired = [] }

namespace Calm

def create (refusals : List Bool) : Calm :=
  ⟨Moody.create refusals, rfl⟩

instance : Ambient (Fiber Calm) where
  stamp := Fiber.perform fun w =>
    let (stamp, supply) := w.1.supply.draw
    (stamp, ⟨{ w.1 with supply }, w.2⟩)
  now := Fiber.perform fun w => (w.1.supply.now, w)
  isCancelled ctx := Fiber.perform fun w => (w.1.isCancelled ctx, w)
  record r := Fiber.perform fun w => ((), ⟨{ w.1 with records := w.1.records ++ [r] }, w.2⟩)

def publisher : Publisher (Fiber Calm) := fun _ _ =>
  Fiber.perform fun w => (if w.1.rest.headD false then .error .closed else .ok (), ⟨w.1.withRest List.tail, w.2⟩)

/-- So every context lasts, also one with a signal. -/
theorem lasts (ctx : Context) : ctx.Lasts Calm := by
  intro w
  change ctx.isCancelled w.1.signals = false
  rw [Context.isCancelled, w.2]
  cases ctx.signal <;> rfl

end Calm

namespace Rush

/-- A cart is checked out that asks for a certain order. -/
def checkout (cart : Nat) (lines : List Line) : Delivery :=
  (.ofSignal 0, ⟨⟨.ofNat 9⟩, "checkedOut", ⟨.ofNat cart⟩, cartName, none, 3, ⟨2024, 1, 1, 0, 0, 0, 0⟩,
    Coded.toPlain (CheckedOut.mk ⟨.ofNat 7⟩ lines)⟩)

def calls : List Delivery :=
  [checkout 1 [⟨"tea", 2⟩], checkout 2 [⟨"milk", 1⟩], checkout 1 [⟨"tea", 2⟩]]

def engine : Engine (Keeping OrderBranch Calm) Order :=
  ⟨Branch.storage orderName .sequential, Branch.publisher Calm.publisher, [], orderEvents, ["orderPlaced"], false⟩

/-- The branch after some acts, where the order cannot be published. -/
def reached (moves : List (Move (Calm → Calm))) : OrderBranch :=
  Branch.reached (fun call => engine.takeIn call.1 call.2) orderName (.json .compact) .sequential calls
    (Calm.create [true]) moves

/-- The branch in the end. -/
def branch : OrderBranch :=
  reached (.replicate 80 (.job 0))

theorem errors_branch : branch.exchanges.map Exchange.error? = [some (.publishFailed .closed none),
    some (.versionConflict (.versionConflict orderName ⟨.ofNat 7⟩ 0 1)),
    some (.versionConflict (.versionConflict orderName ⟨.ofNat 7⟩ 0 1))] := by
  decide +kernel

theorem fair : Branch.Fair (fun call => engine.takeIn call.1 call.2) orderName (.json .compact) .sequential calls
    (Calm.create [true]) fun _ => .job 0 := by
  have hleft : (((Keeper.start (Branch.opened orderName (.json .compact) .sequential) (Calm.create [true])
      calls).reached (Keeper.rules (Branch.round fun call => engine.takeIn call.1 call.2)) (fun _ => .job 0)
        80).jobs[0]?.bind Told.result?).map List.length = some 0 := by
    decide +kernel
  obtain ⟨queue, hqueue, hlength⟩ := Option.map_eq_some_iff.mp hleft
  obtain ⟨t, ht, hresult⟩ := Option.bind_eq_some_iff.mp hqueue
  obtain rfl := Told.eq_done_of_result? hresult
  obtain rfl := List.length_eq_zero_iff.mp hlength
  exact Keeper.fair_of_ended ht rfl

end Rush

/-- So there is one order when it was asked for three times. -/
theorem one_order_after_redelivery :
    EngineConfig.default.strict = false ∧ "checkedOut" ∉ EngineConfig.default.ignoredEvents ∧
      (∀ call ∈ Rush.calls, call.1.Lasts Calm) ∧
      Rush.branch.exchanges.map Exchange.error? = [some (.publishFailed .closed none),
        some (.versionConflict (.versionConflict orderName ⟨.ofNat 7⟩ 0 1)),
        some (.versionConflict (.versionConflict orderName ⟨.ofNat 7⟩ 0 1))] ∧
      (∃ entry call c placed, Rush.branch.store.entry? ⟨.ofNat 7⟩ = some entry ∧
        Stands .compact .sequential Rush.calls Rush.branch.store ⟨.ofNat 7⟩ entry call c placed) ∧
      ∃ n, (Rush.reached ((List.range n).map fun _ => .job 0)).exchanges.map Exchange.call = Rush.calls := by
  have hctx : ∀ call ∈ Rush.calls, call.1.Lasts Calm := fun call _ => Calm.lasts call.1
  obtain ⟨engine, hengine, hreached, hanswered⟩ := one_order_per_checkout Calm.publisher .default rfl (by decide)
    .compact .sequential Rush.calls hctx (Calm.create [true])
  obtain rfl : Rush.engine = engine := Except.ok.inj hengine
  refine ⟨rfl, by decide, hctx, Rush.errors_branch, ?_, hanswered (fun _ => .job 0) Rush.fair⟩
  have hstored : (Rush.branch.store.entry? ⟨.ofNat 7⟩).isSome = true := by decide +kernel
  obtain ⟨entry, he⟩ := Option.isSome_iff_exists.mp hstored
  rw [Rush.branch, Rush.reached] at he ⊢
  obtain ⟨-, -, hstands⟩ := hreached (.replicate 80 (.job 0))
  obtain ⟨call, c, placed, h⟩ := hstands ⟨.ofNat 7⟩ entry he
  exact ⟨entry, call, c, placed, he, h⟩

end EventJournal.Shop
