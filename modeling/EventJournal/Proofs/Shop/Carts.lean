import EventJournal.Proofs.Engine.Branch
import EventJournal.Proofs.Engine.Publication
import EventJournal.Proofs.Shop.Payloads
import EventJournal.Proofs.Store.Laws
import EventJournal.Shop.Site

/-!
The law of carts. A cart is opened, filled and checked out once. Its lines are the sums of what was added, and a
checkout tells them as they are.
-/
namespace EventJournal.Shop

variable {W κ : Type}

/-- What was added, by the events of a cart. -/
def additions (journal : List Event) : List ItemAdded :=
  journal.filterMap fun e => if e.name = "itemAdded" then (e.decode ItemAdded).toOption else none

/-- How much was added of an article. -/
def quantityAdded (journal : List Event) (sku : String) : Nat :=
  ((additions journal).filter (·.sku = sku)).foldl (fun total item => total + item.quantity) 0

namespace Cart

/-- First a cart is opened, then it is filled, then it may be checked out. -/
structure Course (journal : List Event) (checkedOut : Bool) : Prop where
  parts : ∃ opening fillings endings, journal = opening :: (fillings ++ endings) ∧ opening.name = "cartOpened" ∧
    (∀ e ∈ fillings, e.name = "itemAdded" ∧ ∃ item, e.decode ItemAdded = .ok item) ∧
    (∀ e ∈ endings, e.name = "checkedOut") ∧ endings.length = checkedOut.toNat

/-- What a checkout tells are the lines of the cart. -/
def Tells (event : Event) (lines : List Line) : Prop :=
  ∃ order, event.payload = Coded.toPlain (CheckedOut.mk order lines) ∧
    (Fitting lines → event.decode CheckedOut = .ok ⟨order, lines⟩)

structure Lawful (journal : List Event) (cart : Cart) : Prop where
  course : Course journal cart.checkedOut
  /-- The articles stand in the order in which they were first added. -/
  skus : cart.lines.map Line.sku = ((additions journal).map ItemAdded.sku).eraseDups
  distinct : (cart.lines.map Line.sku).Nodup
  quantities : ∀ l ∈ cart.lines, 0 < l.quantity ∧ l.quantity = quantityAdded journal l.sku
  checkout : ∀ e ∈ journal, e.name = "checkedOut" → cart.lines ≠ [] ∧ Tells e cart.lines

end Cart

section Additions

variable {journal : List Event} {event : Event} {item : ItemAdded} {sku : String}

theorem additions_concat (hname : event.name = "itemAdded") (hitem : event.decode ItemAdded = .ok item) :
    additions (journal ++ [event]) = additions journal ++ [item] := by
  simp [additions, List.filterMap_append, hname, hitem, Except.toOption]

theorem additions_concat_other (hname : event.name ≠ "itemAdded") :
    additions (journal ++ [event]) = additions journal := by
  simp [additions, List.filterMap_append, hname]

theorem quantityAdded_concat (hname : event.name = "itemAdded") (hitem : event.decode ItemAdded = .ok item) :
    quantityAdded (journal ++ [event]) sku =
      quantityAdded journal sku + if item.sku = sku then item.quantity else 0 := by
  rw [quantityAdded, additions_concat hname hitem, List.filter_append, List.foldl_append, ← quantityAdded]
  by_cases h : item.sku = sku <;> simp [h]

theorem quantityAdded_eq_zero (h : sku ∉ (additions journal).map ItemAdded.sku) : quantityAdded journal sku = 0 := by
  have hnone : (additions journal).filter (·.sku = sku) = [] := by
    rw [List.filter_eq_nil_iff]
    intro item hitem hsku
    exact h (List.mem_map.mpr ⟨item, hitem, of_decide_eq_true hsku⟩)
  rw [quantityAdded, hnone]
  rfl

/-- Of a list without its repetitions, the last one is new or changes nothing. -/
theorem eraseDups_concat (skus : List String) :
    (skus ++ [sku]).eraseDups = if sku ∈ skus then skus.eraseDups else skus.eraseDups ++ [sku] := by
  rw [List.eraseDups_append]
  by_cases h : sku ∈ skus
  · simp [List.removeAll, h]
  · simp [List.removeAll, h, List.eraseDups_cons]

end Additions

namespace Cart

section Lines

variable {sku : String} {quantity : Nat} {lines : List Line}

theorem map_sku_addLine : (addLine sku quantity lines).map Line.sku =
    if sku ∈ lines.map Line.sku then lines.map Line.sku else lines.map Line.sku ++ [sku] := by
  induction lines with
  | nil => rfl
  | cons l rest ih =>
    unfold addLine
    by_cases hl : l.sku = sku
    · simp [hl]
    · rw [if_neg hl, List.map_cons, ih, List.map_cons]
      by_cases hmem : sku ∈ rest.map Line.sku
      · rw [if_pos hmem, if_pos (List.mem_cons_of_mem _ hmem)]
      · rw [if_neg hmem, if_neg (List.not_mem_cons_of_ne_of_not_mem (Ne.symm hl) hmem), List.cons_append]

/-- A line is one that there was, or the line of the article, raised or started. -/
theorem mem_addLine (hn : (lines.map Line.sku).Nodup) {l : Line} (hl : l ∈ addLine sku quantity lines) :
    l.sku ≠ sku ∧ l ∈ lines ∨ (∃ old ∈ lines, old.sku = sku ∧ l = ⟨sku, old.quantity + quantity⟩) ∨
      sku ∉ lines.map Line.sku ∧ l = ⟨sku, quantity⟩ := by
  induction lines with
  | nil => exact .inr (.inr ⟨List.not_mem_nil, List.mem_singleton.mp hl⟩)
  | cons first rest ih =>
    obtain ⟨hfirst, hrest⟩ := List.nodup_cons.mp hn
    unfold addLine at hl
    by_cases hsku : first.sku = sku
    · rw [if_pos hsku] at hl
      obtain rfl | hl := List.mem_cons.mp hl
      · exact .inr (.inl ⟨first, List.mem_cons_self, hsku, by rw [hsku]⟩)
      · refine .inl ⟨fun h => hfirst ?_, List.mem_cons_of_mem _ hl⟩
        rw [hsku, ← h]
        exact List.mem_map_of_mem hl
    · rw [if_neg hsku] at hl
      obtain rfl | hl := List.mem_cons.mp hl
      · exact .inl ⟨hsku, List.mem_cons_self⟩
      · obtain ⟨hne, hl⟩ | ⟨old, hold, hl⟩ | ⟨hnew, hl⟩ := ih hrest hl
        · exact .inl ⟨hne, List.mem_cons_of_mem _ hl⟩
        · exact .inr (.inl ⟨old, List.mem_cons_of_mem _ hold, hl⟩)
        · exact .inr (.inr ⟨List.not_mem_cons_of_ne_of_not_mem (Ne.symm hsku) hnew, hl⟩)

end Lines

section Law

variable {journal : List Event} {cart : Cart} {event : Event}

theorem Course.opened (h : event.name = "cartOpened") : Course [event] false :=
  ⟨event, [], [], rfl, h, nofun, nofun, rfl⟩

theorem Course.filled (h : Course journal false) (hname : event.name = "itemAdded") {item : ItemAdded}
    (hitem : event.decode ItemAdded = .ok item) : Course (journal ++ [event]) false := by
  obtain ⟨opening, fillings, endings, rfl, hopening, hfillings, -, hlength⟩ := h.parts
  obtain rfl := List.length_eq_zero_iff.mp hlength
  refine ⟨opening, fillings ++ [event], [], by simp, hopening, ?_, nofun, rfl⟩
  intro e he
  obtain he | he := List.mem_append.mp he
  · exact hfillings e he
  · rw [List.mem_singleton.mp he]
    exact ⟨hname, item, hitem⟩

theorem Course.ended (h : Course journal false) (hname : event.name = "checkedOut") :
    Course (journal ++ [event]) true := by
  obtain ⟨opening, fillings, endings, rfl, hopening, hfillings, -, hlength⟩ := h.parts
  obtain rfl := List.length_eq_zero_iff.mp hlength
  refine ⟨opening, fillings, [event], by simp, hopening, hfillings, ?_, rfl⟩
  intro e he
  rw [List.mem_singleton.mp he]
  exact hname

/-- A cart that is open was never checked out. -/
theorem Course.name_ne (h : Course journal false) : ∀ e ∈ journal, e.name ≠ "checkedOut" := by
  obtain ⟨opening, fillings, endings, rfl, hopening, hfillings, -, hlength⟩ := h.parts
  obtain rfl := List.length_eq_zero_iff.mp hlength
  intro e he
  obtain rfl | he := List.mem_cons.mp he
  · rw [hopening]
    decide
  · rw [List.append_nil] at he
    rw [(hfillings e he).1]
    decide

theorem lawful_opened (h : event.name = "cartOpened") : Lawful [event] blank where
  course := .opened h
  skus := by
    have hnone : additions ([] ++ [event]) = additions [] := additions_concat_other (by rw [h]; decide)
    rw [List.nil_append] at hnone
    rw [hnone]
    rfl
  distinct := List.nodup_nil
  quantities := nofun
  checkout e he hname := by
    rw [List.mem_singleton.mp he, h] at hname
    exact absurd hname (by decide)

theorem Lawful.filled (h : Lawful journal cart) (hopen : cart.checkedOut = false) (hname : event.name = "itemAdded")
    {item : ItemAdded} (hitem : event.decode ItemAdded = .ok item) (hpos : 0 < item.quantity) :
    Lawful (journal ++ [event]) { cart with lines := addLine item.sku item.quantity cart.lines } where
  course := by
    have hcourse := hopen ▸ h.course
    exact hopen ▸ hcourse.filled hname hitem
  skus := by
    have hmem : item.sku ∈ cart.lines.map Line.sku ↔ item.sku ∈ (additions journal).map ItemAdded.sku := by
      rw [h.skus, List.mem_eraseDups]
    rw [map_sku_addLine, additions_concat hname hitem, List.map_append, List.map_singleton, eraseDups_concat,
      ← h.skus]
    by_cases hsku : item.sku ∈ cart.lines.map Line.sku
    · rw [if_pos hsku, if_pos (hmem.mp hsku)]
    · rw [if_neg hsku, if_neg fun hin => hsku (hmem.mpr hin)]
  distinct := by
    rw [map_sku_addLine]
    split
    · exact h.distinct
    next hsku => exact List.nodup_append.mpr ⟨h.distinct, List.pairwise_singleton _ _, by
        rintro a ha b hb rfl
        exact hsku (List.mem_singleton.mp hb ▸ ha)⟩
  quantities l hl := by
    rw [quantityAdded_concat hname hitem]
    obtain ⟨hne, hl⟩ | ⟨old, hold, hsku, rfl⟩ | ⟨hnew, rfl⟩ := mem_addLine h.distinct hl
    · rw [if_neg (Ne.symm hne)]
      exact h.quantities l hl
    · obtain ⟨holdpos, hquantity⟩ := h.quantities old hold
      rw [hsku] at hquantity
      rw [if_pos rfl]
      exact ⟨Nat.add_pos_left holdpos _, by rw [hquantity]⟩
    · rw [h.skus, List.mem_eraseDups] at hnew
      rw [if_pos rfl, quantityAdded_eq_zero hnew, Nat.zero_add]
      exact ⟨hpos, rfl⟩
  checkout e he hend := by
    obtain he | he := List.mem_append.mp he
    · exact absurd hend ((hopen ▸ h.course).name_ne e he)
    · rw [List.mem_singleton.mp he, hname] at hend
      exact absurd hend (by decide)

theorem Lawful.ended (h : Lawful journal cart) (hopen : cart.checkedOut = false) (hname : event.name = "checkedOut")
    (hlines : cart.lines ≠ []) (htells : Tells event cart.lines) :
    Lawful (journal ++ [event]) { cart with checkedOut := true } := by
  have hsame : additions (journal ++ [event]) = additions journal :=
    additions_concat_other (by rw [hname]; decide)
  exact {
    course := (hopen ▸ h.course).ended hname
    skus := by rw [hsame]; exact h.skus
    distinct := h.distinct
    quantities := by
      intro l hl
      rw [quantityAdded, hsame]
      exact h.quantities l hl
    checkout := by
      intro e he hend
      obtain he | he := List.mem_append.mp he
      · exact h.checkout e he hend
      · rw [List.mem_singleton.mp he]
        exact ⟨hlines, htells⟩ }

end Law

section Take

variable {cart cart' : Cart} {event : Event}

theorem take_opened (h : event.name = "cartOpened") : State.take cart event = .ok cart := by
  simp only [State.take, State.apply, apply, h]

theorem take_filled (h : event.name = "itemAdded") {item : ItemAdded} (hitem : event.decode ItemAdded = .ok item) :
    State.take cart event = .ok { cart with lines := addLine item.sku item.quantity cart.lines } := by
  simp only [State.take, State.apply, apply, h, hitem]

theorem take_ended (h : event.name = "checkedOut") : State.take cart event = .ok { cart with checkedOut := true } := by
  simp only [State.take, State.apply, apply, h]

end Take

/-- One more event of a lawful cart. -/
inductive Step (cart : Cart) (event : Event) : Prop
  | filled (name : event.name = "itemAdded") (item : ItemAdded) (decode : event.decode ItemAdded = .ok item)
      (positive : 0 < item.quantity) : Step cart event
  | ended (name : event.name = "checkedOut") (lines : cart.lines ≠ []) (tells : Tells event cart.lines) :
      Step cart event

theorem Lawful.take {journal : List Event} {cart cart' : Cart} {event : Event} (h : Lawful journal cart)
    (hopen : cart.checkedOut = false) (hstep : Step cart event) (htake : State.take cart event = .ok cart') :
    Lawful (journal ++ [event]) cart' := by
  cases hstep with
  | filled name item decode positive =>
    rw [take_filled name decode] at htake
    cases htake
    exact h.filled hopen name decode positive
  | ended name lines tells =>
    rw [take_ended name] at htake
    cases htake
    exact h.ended hopen name lines tells

end Cart

section Controllers

variable [Ambient (Fiber W)] {B : Type} {keeper : Keeper B W κ} {s : Stream Cart}

theorem works_openCart (ctx : Context) (command : Command) : keeper.Works (fun r t => ∀ a, r = .ok a →
    ∃ event, event.name = "cartOpened" ∧ s.Takes event t) (openCart ctx command) s := by
  apply Keeper.Works.bind
  apply Keeper.works_emit
  · intro stamp t ht
    exact Keeper.works_pure fun _ _ => ⟨_, rfl, ht⟩
  · rintro _ _ _ _ _ ⟨⟩

omit [Ambient (Fiber W)] in
theorem works_stillOpen {post : Except DomainError Unit → Stream Cart → Prop}
    (hopen : s.state.checkedOut = false → post (.ok ()) s) (herror : ∀ e, post (.error e) s) :
    keeper.Works post stillOpen s := by
  apply Keeper.Works.bind
  apply Keeper.works_get
  dsimp only
  cases hc : s.state.checkedOut with
  | true => exact Keeper.works_throw (herror _)
  | false => exact Keeper.works_pure (hopen hc)

theorem works_addItem (ctx : Context) (command : Command) : keeper.Works (fun r t => ∀ a, r = .ok a →
    s.state.checkedOut = false ∧ ∃ event, s.state.Step event ∧ s.Takes event t) (addItem ctx command) s := by
  apply Keeper.Works.bind
  apply Keeper.works_ofPayload
  · intro item hitem
    apply Keeper.Works.bind
    refine works_stillOpen ?_ fun _ => nofun
    intro hopen
    dsimp only
    by_cases hquantity : item.quantity = 0
    · rw [if_pos hquantity]
      exact Keeper.works_throw nofun
    · rw [if_neg hquantity]
      apply Keeper.Works.bind
      refine Keeper.works_emit ?_ fun _ _ _ _ => nofun
      intro stamp t ht
      refine Keeper.works_pure fun _ _ => ⟨hopen, _, ?_, ht⟩
      refine .filled rfl item ?_ (Nat.pos_of_ne_zero hquantity)
      exact Payload.decode_toPlain (returns_itemAdded (le_of_decode hitem)) "itemAdded"
  · exact fun _ _ => nofun

theorem works_checkOut (ctx : Context) (command : Command) : keeper.Works (fun r t => ∀ a, r = .ok a →
    s.state.checkedOut = false ∧ ∃ event, s.state.Step event ∧ s.Takes event t) (checkOut ctx command) s := by
  apply Keeper.Works.bind
  refine works_stillOpen ?_ fun _ => nofun
  intro hopen
  dsimp only
  apply Keeper.Works.bind
  apply Keeper.works_get
  dsimp only
  by_cases hlines : s.state.lines.isEmpty
  · rw [if_pos hlines]
    exact Keeper.works_throw nofun
  · rw [if_neg hlines]
    apply Keeper.Works.bind
    apply Keeper.works_beside
    intro order
    dsimp only
    apply Keeper.Works.bind
    refine Keeper.works_emit ?_ fun _ _ _ _ => nofun
    intro stamp t ht
    dsimp only
    apply Keeper.Works.bind
    apply Keeper.works_beside
    intro now
    dsimp only
    apply Keeper.Works.bind
    apply Keeper.works_get
    refine Keeper.works_pure fun _ _ => ⟨hopen, _, ?_, ht⟩
    refine .ended rfl (by simpa using hlines) ⟨⟨order.id⟩, rfl, fun hfitting => ?_⟩
    exact Payload.decode_toPlain (returns_checkedOut hfitting) "checkedOut"

end Controllers

def Cart.law : Law Cart := fun _ _ journal cart =>
  cart.Lawful journal

section Engine

variable [Ambient (Fiber W)]

/-- A call of the engine of carts. -/
abbrev CartCall :=
  Context × Command

abbrev CartBranch :=
  Branch Cart CartCall (Except EngineError Reply)

def cartCommands {m : Type → Type} [Monad m] [Ambient m] : List (String × Registered (CommandController m Cart)) :=
  [("openCart", ⟨.create, openCart⟩), ("addItem", ⟨.load, addItem⟩), ("checkOut", ⟨.load, checkOut⟩)]

theorem cartEngine_eq_ok {m : Type → Type} [Monad m] [Ambient m] (storage : Storage m Cart) (publisher : Publisher m)
    (config : EngineConfig) : cartEngine storage publisher config =
      .ok ⟨storage, publisher, cartCommands, [], config.ignoredEvents, config.strict⟩ := rfl

variable {layout : Json.Layout} {policy : VersionPolicy} {keeper : Keeper CartBranch W κ} {b : CartBranch}
  {engine : Engine (Keeping CartBranch W) Cart} {inner : Publisher (Fiber W)} {ctx : Context} {command : Command}

/-- A stream that may be stored where carts obey the law, with changes. -/
def Storable (layout : Json.Layout) (policy : VersionPolicy) (store : Store Cart) (s : Stream Cart) : Prop :=
  s.changes ≠ [] ∧ ∀ store', store.persist s = .ok store' → store'.Obeys Cart.law layout cartName policy

variable {store : Store Cart} {opened : Stream Cart}

theorem storable_first (h : store.Obeys Cart.law layout cartName policy) (hopened : command.Opens store .create opened)
    {event : Event} (hname : event.name = "cartOpened") {s : Stream Cart} (hs : opened.Takes event s) :
    Storable layout policy store s := by
  obtain ⟨stamp, rfl⟩ := hopened
  refine ⟨hs.changes_ne_nil, fun store' hstore => h.persist_first hs hstore ?_⟩
  have hstate : Cart.blank = s.state := Except.ok.inj ((Cart.take_opened hname).symm.trans hs.take)
  rw [← hstate]
  exact Cart.lawful_opened hname

theorem storable_next (h : store.Obeys Cart.law layout cartName policy) (hopened : command.Opens store .load opened)
    (hopen : opened.state.checkedOut = false) {event : Event} (hstep : opened.state.Step event) {s : Stream Cart}
    (hs : opened.Takes event s) : Storable layout policy store s := by
  obtain ⟨id, -, hload⟩ := hopened
  refine ⟨hs.changes_ne_nil, fun store' hstore => h.persist_next plain_cart hload hs hstore ?_⟩
  exact fun entry hentry => hentry.law.take hopen hstep hs.take

/-- Whatever the controllers make of an opened cart may be stored. -/
theorem works_command (h : store.Obeys Cart.law layout cartName policy)
    {registered : Registered (CommandController (Keeping CartBranch W) Cart)}
    (hlookup : cartCommands.lookup command.name = some registered)
    (hopened : command.Opens store registered.mode opened) :
    keeper.Works (fun r t => ∀ a, r = .ok a → Storable layout policy store t)
      (registered.controller ctx command) opened := by
  obtain ⟨_, _, hlist, -⟩ := List.lookup_eq_some_iff.mp hlookup
  have hmem : (command.name, registered) ∈ cartCommands := hlist ▸ List.mem_append_right _ List.mem_cons_self
  simp only [cartCommands, List.mem_cons, List.not_mem_nil, or_false, Prod.mk.injEq] at hmem
  obtain ⟨-, rfl⟩ | ⟨-, rfl⟩ | ⟨-, rfl⟩ := hmem
  · refine (works_openCart ctx command).mono fun r t ht a ha => ?_
    obtain ⟨event, hname, htakes⟩ := ht a ha
    exact storable_first h hopened hname htakes
  · refine (works_addItem ctx command).mono fun r t ht a ha => ?_
    obtain ⟨hopen, event, hstep, htakes⟩ := ht a ha
    exact storable_next h hopened hopen hstep htakes
  · refine (works_checkOut ctx command).mono fun r t ht a ha => ?_
    obtain ⟨hopen, event, hstep, htakes⟩ := ht a ha
    exact storable_next h hopened hopen hstep htakes

/-- A command leaves every cart lawful. -/
theorem makes_command (hkeeper : keeper.inv = fun b => b.store.Obeys Cart.law layout cartName policy)
    (hs : engine.storage = Branch.storage cartName policy) (hp : engine.publisher = Branch.publisher inner)
    (hc : engine.commands = cartCommands) (hb : b.store.Obeys Cart.law layout cartName policy) :
    keeper.Makes (fun _ => keeper.inv) (engine.carryOut ctx command) b := by
  apply Branch.makes_carryOut hs hp hb.name_eq hb.policy_eq (hkeeper ▸ hb)
  intro registered opened hlookup hopened
  refine (works_command hb (hc ▸ hlookup) hopened).mono fun r t ht a ha => ⟨(ht a ha).1, fun b' hb' => ?_⟩
  rw [hkeeper]
  obtain hstore | ⟨store, outbox, hpersist, hstore⟩ := hb'.store_cases
  · exact hstore ▸ hb
  · exact hstore ▸ ((ht a ha).2 store hpersist).withOutbox outbox

theorem obeys_reached (hs : engine.storage = Branch.storage cartName policy)
    (hp : engine.publisher = Branch.publisher inner) (hc : engine.commands = cartCommands) (calls : List CartCall)
    (w : W) (moves : List (Move (W → W))) :
    (Branch.reached (fun call => engine.carryOut call.1 call.2) cartName (.json layout) policy calls w
      moves).store.Obeys Cart.law layout cartName policy := by
  refine Branch.reached_of_served (fun b => b.store.Obeys Cart.law layout cartName policy) (fun _ _ => True) ?_
    Store.obeys_fresh trivial w moves
  intro call queue b hb _
  exact (makes_command rfl hs hp hc hb).mono fun r b' hb' => ⟨hb', hb', trivial⟩

/-- Whatever commands the engine of carts is given, and whether or not what it stores can be published: every stored
cart obeys the law. Its snapshot was written with some time, and it can be loaded if that can be read. -/
theorem carts_lawful (inner : Publisher (Fiber W)) (config : EngineConfig) (layout : Json.Layout)
    (policy : VersionPolicy) (calls : List CartCall) (w : W) (moves : List (Move (W → W))) :
    ∃ engine : Engine (Keeping CartBranch W) Cart,
      cartEngine (Branch.storage cartName policy) (Branch.publisher inner) config = .ok engine ∧
      let b := Branch.reached (fun call => engine.carryOut call.1 call.2) cartName (.json layout) policy calls w moves
      ∀ id entry, b.store.entry? id = some entry → ∃ cart : Cart, ∃ updatedAt,
        b.store.Keeps id cart ∧ cart.Lawful entry.journal ∧ entry.Shows layout cartName id updatedAt cart ∧
          (Fitting cart.lines → entry.version ≤ greatestVersion →
            (b.store.load id none).toOption = updatedAt.reread.map fun updatedAt =>
              ⟨id, cartName, entry.owner, entry.version, updatedAt, cart, [], policy⟩) := by
  refine ⟨_, cartEngine_eq_ok _ _ config, ?_⟩
  intro b id entry he
  have hb : b.store.Obeys Cart.law layout cartName policy := obeys_reached rfl rfl rfl calls w moves
  obtain ⟨cart, hentry⟩ := hb.entries id entry he
  obtain ⟨updatedAt, hshows, hload⟩ := hb.toOption_load plain_cart he hentry
  refine ⟨cart, updatedAt, hb.keeps plain_cart he hentry, hentry.law, hshows, ?_⟩
  exact fun hfitting => hload (bounded_cart hfitting)

end Engine

namespace Purchase

/-- What is asked of the cart with a certain id. -/
def ask (name : String) (payload : Json) : CartCall :=
  (.background, ⟨⟨.ofNat 1⟩, name, cartName, some ⟨.ofNat 2⟩, none, ⟨2024, 1, 1, 0, 0, 0, 0⟩, payload⟩)

def add (sku : String) (quantity : Nat) : CartCall :=
  ask "addItem" (Coded.toPlain (ItemAdded.mk sku quantity))

/-- A cart is opened, filled with one article in two goes, and checked out. -/
def calls : List CartCall :=
  [ask "openCart" .null, add "tea" 2, add "tea" 3, ask "checkOut" .null]

def engine : Engine (Keeping CartBranch Moody) Cart :=
  ⟨Branch.storage cartName .sequential, Branch.publisher Moody.publisher, cartCommands, [], [], false⟩

/-- The branch in the end, where the first event could not be published. -/
def branch : CartBranch :=
  Branch.reached (fun call => engine.carryOut call.1 call.2) cartName (.json .compact) .sequential calls
    (Moody.create [true]) (.replicate 120 (.job 0))

def bought : Cart :=
  ⟨[⟨"tea", 5⟩], true⟩

/-- The cart was bought in four events, the first of which could not be published. The run is evaluated once for all of
this: each command after the first reads a snapshot back. -/
theorem stored_branch :
    branch.exchanges.map Exchange.error? = [some (.publishFailed .closed none), none, none, none] ∧
    (branch.store.entry? ⟨.ofNat 2⟩).map Entry.version = some 4 ∧
      (branch.store.replay ⟨.ofNat 2⟩ ⟨2024, 1, 1, 0, 0, 0, 0⟩).toOption.map Stream.state = some bought := by
  decide +kernel

end Purchase

/-- So a cart that was checked out has what was added to it, both times in one line, and it can be loaded with that. -/
theorem carts_lawful_checked_out :
    Purchase.branch.exchanges.map Exchange.error? = [some (.publishFailed .closed none), none, none, none] ∧
    ∃ entry updatedAt, Purchase.branch.store.entry? ⟨.ofNat 2⟩ = some entry ∧ entry.version = 4 ∧
      Purchase.bought.Lawful entry.journal ∧ entry.Shows .compact cartName ⟨.ofNat 2⟩ updatedAt Purchase.bought ∧
      (Purchase.branch.store.load ⟨.ofNat 2⟩ none).toOption = updatedAt.reread.map fun updatedAt =>
        ⟨⟨.ofNat 2⟩, cartName, entry.owner, 4, updatedAt, Purchase.bought, [], .sequential⟩ := by
  obtain ⟨herrors, hstored, hreplayed⟩ := Purchase.stored_branch
  obtain ⟨entry, he, hversion⟩ := Option.map_eq_some_iff.mp hstored
  obtain ⟨engine, hengine, hcarts⟩ := carts_lawful Moody.publisher .default .compact .sequential Purchase.calls
    (Moody.create [true]) (.replicate 120 (.job 0))
  obtain rfl : Purchase.engine = engine := Except.ok.inj hengine
  rw [Purchase.branch] at he hreplayed ⊢
  obtain ⟨cart, updatedAt, hkeeps, hlawful, hshows, hload⟩ := hcarts _ entry he
  obtain ⟨s, hs, rfl⟩ := hkeeps.replayed ⟨2024, 1, 1, 0, 0, 0, 0⟩
  have hstate : s.state = Purchase.bought := by
    rw [hs] at hreplayed
    exact Option.some.inj hreplayed
  rw [hstate] at hlawful hshows hload
  refine ⟨herrors, entry, updatedAt, he, hversion, hlawful, hshows, ?_⟩
  rw [← hversion]
  exact hload (by decide) (by rw [hversion]; decide)

end EventJournal.Shop
