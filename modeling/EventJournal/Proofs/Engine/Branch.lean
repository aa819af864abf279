import EventJournal.Proofs.Crowd.Progress
import EventJournal.Proofs.Engine.Quiet
import EventJournal.Proofs.Engine.Ways

/-!
Branches. A branch keeps a store of its own, and one engine on it is called again and again. Publishers and
whatever there is beside the store act as they like. What an engine does to the branch is known step by step.
-/
namespace EventJournal

variable {W S Q A κ α ε : Type}

/-- A context that is cancelled in none of the surroundings. What is said of every `W` is said of those alone in which
no signal of certain contexts is given, so a context may last although it has a signal. -/
def Context.Lasts (W : Type) [Ambient (Fiber W)] (ctx : Context) : Prop :=
  (Ambient.isCancelled ctx : Fiber W Bool).Yields (· = false)

/-- What an engine leaves behind: a store, and the batches that went to the publisher, the oldest first. -/
structure Holdings (S : Type) where
  store : Store S
  handed : List (List Event)

/-- A call that was answered, with what there was before and after it. -/
structure Exchange (S Q A : Type) where
  call : Q
  before : Holdings S
  answer : A
  after : Holdings S

/-- The error with which a call ended. -/
def Exchange.error? (v : Exchange S Q (Except ε A)) : Option ε :=
  match v.answer with
  | .ok _ => none
  | .error e => some e

/-- A branch has its holdings and the calls answered so far, the oldest first. -/
structure Branch (S Q A : Type) extends Holdings S where
  exchanges : List (Exchange S Q A)

namespace Branch

def opened (name : String) (codec : Codec) (policy : VersionPolicy) : Branch S Q A :=
  ⟨⟨.fresh name codec policy, []⟩, []⟩

def withStore (b : Branch S Q A) (store : Store S) : Branch S Q A :=
  { b with store }

def hand (b : Branch S Q A) (events : List Event) : Branch S Q A :=
  { b with handed := b.handed ++ [events] }

/-- The changes of a stream in a new batch of the outbox. -/
def setAside (b : Branch S Q A) (stream : Stream S) (now : Timestamp) : Branch S Q A :=
  b.withStore { b.store with
    outbox := b.store.outbox.record fun id =>
      ⟨id, b.store.name, stream.id, stream.version, stream.changes, now⟩ }

def note (b : Branch S Q A) (q : Q) (before : Holdings S) (a : A) : Branch S Q A :=
  { b with exchanges := b.exchanges ++ [⟨q, before, a, b.toHoldings⟩] }

/-- The store of the branch. -/
def cell : Cell (Keeping (Branch S Q A) W) (Store S) where
  act f := Told.kept.act fun b => ((f b.store).1, b.withStore (f b.store).2)

def storage [Ambient (Fiber W)] [State S] (name : String) (policy : VersionPolicy) :
    Storage (Keeping (Branch S Q A) W) S :=
  Store.inCell name policy cell

def publisher (inner : Publisher (Fiber W)) : Publisher (Keeping (Branch S Q A) W) := fun ctx events => do
  Told.kept.modify (·.hand events)
  Told.beside (inner ctx events)

/-- The next call is answered, and the answer noted. -/
def round (serve : Q → Keeping (Branch S Q A) W A) : List Q → Option (Keeping (Branch S Q A) W (List Q))
  | [] => none
  | q :: rest => some do
    let before ← Told.kept.read Branch.toHoldings
    let a ← serve q
    Told.kept.modify (·.note q before a)
    return rest

/-- A branch that was opened with calls to answer, after some acts of its own and of others. -/
def reached (serve : Q → Keeping (Branch S Q A) W A) (name : String) (codec : Codec) (policy : VersionPolicy)
    (calls : List Q) (w : W) (moves : List (Move (W → W))) : Branch S Q A :=
  ((Keeper.start (opened name codec policy) w calls).run (Keeper.rules (round serve)) moves).state.1

/-- A branch that is never kept waiting for ever. -/
def Fair (serve : Q → Keeping (Branch S Q A) W A) (name : String) (codec : Codec) (policy : VersionPolicy)
    (calls : List Q) (w : W) (schedule : Nat → Move (W → W)) : Prop :=
  Keeper.Fair (round serve) (Keeper.start (opened name codec policy) w calls) schedule

end Branch

namespace Branch

/-- How storing and publishing the changes of a stream may end. -/
inductive Commits [State S] (b : Branch S Q A) (stream : Stream S) : Except EngineError Unit → Branch S Q A → Prop
  | refused {e : StorageError} (persist : b.store.persist stream = .error e) :
      Commits b stream (.error (.ofPersist e)) b
  | published {store : Store S} (persist : b.store.persist stream = .ok store) :
      Commits b stream (.ok ()) ((b.withStore store).hand stream.changes)
  | stranded {store : Store S} (persist : b.store.persist stream = .ok store) (source : PublishError)
      (now : Timestamp) : Commits b stream (.error (.publishFailed source none))
        (((b.withStore store).hand stream.changes).setAside stream now)

/-- What the branch may come through meanwhile. -/
inductive Passes [State S] (b : Branch S Q A) (stream : Stream S) : Branch S Q A → Prop
  | start : Passes b stream b
  | stored {store : Store S} (persist : b.store.persist stream = .ok store) : Passes b stream (b.withStore store)
  | handed {store : Store S} (persist : b.store.persist stream = .ok store) :
      Passes b stream ((b.withStore store).hand stream.changes)
  | setAside {store : Store S} (persist : b.store.persist stream = .ok store) (now : Timestamp) :
      Passes b stream (((b.withStore store).hand stream.changes).setAside stream now)

/-- Meanwhile the store is what it was, or has the stream. -/
theorem Passes.store_cases [State S] {b b' : Branch S Q A} {stream : Stream S} (h : b.Passes stream b') :
    b'.store = b.store ∨ ∃ store outbox, b.store.persist stream = .ok store ∧ b'.store = { store with outbox } := by
  cases h with
  | start => exact .inl rfl
  | stored persist => exact .inr ⟨_, _, persist, rfl⟩
  | handed persist => exact .inr ⟨_, _, persist, rfl⟩
  | setAside persist now => exact .inr ⟨_, _, persist, rfl⟩

theorem Passes.exchanges_eq [State S] {b b' : Branch S Q A} {stream : Stream S} (h : b.Passes stream b') :
    b'.exchanges = b.exchanges := by
  cases h <;> rfl

section Store

variable {keeper : Keeper (Branch S Q A) W κ} {b : Branch S Q A}

/-- An act on the store. -/
theorem makes_act {f : Store S → α × Store S} {post : α → Branch S Q A → Prop} (hi : keeper.inv b)
    (hp : post (f b.store).1 (b.withStore (f b.store).2)) : keeper.Makes post (cell.act f) b :=
  Keeper.makes_act (f := fun b => ((f b.store).1, b.withStore (f b.store).2)) hi hp

theorem makes_read {f : Store S → α} {post : α → Branch S Q A → Prop} (hi : keeper.inv b)
    (hp : post (f b.store) b) : keeper.Makes post (cell.read f) b :=
  makes_act hi hp

theorem makes_attempt {f : Store S → Except ε (Store S)} {post : Except ε Unit → Branch S Q A → Prop}
    (hi : keeper.inv b) (hok : ∀ store, f b.store = .ok store → post (.ok ()) (b.withStore store))
    (herror : ∀ e, f b.store = .error e → post (.error e) b) : keeper.Makes post (cell.attempt f) b := by
  apply makes_act hi
  cases hf : f b.store with
  | ok store => exact hok store hf
  | error e => exact herror e hf

theorem makes_publisher {inner : Publisher (Fiber W)} {ctx : Context} {events : List Event}
    {post : Except PublishError Unit → Branch S Q A → Prop} (hi : keeper.inv b) (hi' : keeper.inv (b.hand events))
    (hp : ∀ r, post r (b.hand events)) : keeper.Makes post (publisher inner ctx events) b := by
  apply Keeper.Makes.bind
  apply Keeper.makes_modify hi
  exact Keeper.makes_beside hi' hp

end Store

section Engine

variable [Ambient (Fiber W)] {keeper : Keeper (Branch S Q A) W κ} {b : Branch S Q A} {ctx : Context}

theorem quiet_checkCancelled {R : Bool → Prop} (hc : (Ambient.isCancelled ctx : Fiber W Bool).Yields R) :
    keeper.Quiet (fun r => r = .ok () ∧ R false ∨ r = .error .cancelled ∧ R true)
      (Engine.checkCancelled ctx : ExceptT EngineError (Keeping (Branch S Q A) W) Unit).run := by
  have hlift : keeper.Quiet (fun r : Except EngineError Bool => ∃ a, r = .ok a ∧ R a)
      (liftM (Ambient.isCancelled ctx : Keeping (Branch S Q A) W Bool) :
        ExceptT EngineError (Keeping (Branch S Q A) W) Bool).run :=
    Keeper.Quiet.bind (Keeper.quiet_beside hc) fun a ha => Keeper.quiet_pure ⟨a, rfl, ha⟩
  rw [Engine.checkCancelled, ExceptT.run_bind]
  refine Keeper.Quiet.bind hlift ?_
  rintro _ ⟨cancelled, rfl, hr⟩
  cases cancelled with
  | true => exact Keeper.quiet_pure (.inr ⟨rfl, hr⟩)
  | false => exact Keeper.quiet_pure (.inl ⟨rfl, hr⟩)

/-- A call whose context lasts goes on. -/
theorem makes_lasting {post : Except EngineError α → Branch S Q A → Prop}
    {f : Unit → ExceptT EngineError (Keeping (Branch S Q A) W) α} (hctx : ctx.Lasts W) (hi : keeper.inv b)
    (hp : keeper.Makes post (f ()).run b) : keeper.Makes post (Engine.checkCancelled ctx >>= f).run b := by
  refine (quiet_checkCancelled hctx).bindExcept hi (fun _ _ => hp) ?_
  rintro e (⟨h, -⟩ | ⟨-, h⟩)
  · cases h
  · cases h

variable [State S] {name : String} {policy : VersionPolicy} {stream : Stream S}

theorem makes_setAside {post : Except StorageError Unit → Branch S Q A → Prop} (hi : keeper.inv b)
    (hname : stream.name = b.store.name) (hi' : ∀ now, keeper.inv (b.setAside stream now))
    (hp : ∀ now, post (.ok ()) (b.setAside stream now)) :
    keeper.Makes post ((storage name policy).setAside ctx stream) b := by
  apply Keeper.Makes.bind
  apply Keeper.makes_beside hi
  intro now
  apply Keeper.Makes.bind
  apply makes_act hi
  have hset : b.store.setAside stream now = .ok (b.setAside stream now).store :=
    (Store.setAside_eq _ _ _).trans (if_pos hname)
  rw [hset]
  apply Keeper.Makes.bind
  apply Keeper.makes_beside (hi' now)
  intro _
  exact Keeper.makes_pure (hp now)

theorem makes_persist {post : Except StorageError Unit → Branch S Q A → Prop} (hi : keeper.inv b)
    (hok : ∀ store, b.store.persist stream = .ok store → post (.ok ()) (b.withStore store))
    (herror : ∀ e, b.store.persist stream = .error e → post (.error e) b) :
    keeper.Makes post ((storage name policy).persist ctx stream) b :=
  makes_attempt (f := (·.persist stream)) hi hok herror

theorem makes_load {id : StreamId} {owner : Option OwnerId}
    {post : Except StorageError (Stream S) → Branch S Q A → Prop} (hi : keeper.inv b) (hp : post (b.store.load id owner) b) :
    keeper.Makes post ((storage name policy).load ctx id owner) b :=
  makes_read (f := (·.load id owner)) hi hp

variable {engine : Engine (Keeping (Branch S Q A) W) S} {inner : Publisher (Fiber W)}

theorem makes_compensate (hs : engine.storage = storage name policy) {source : PublishError}
    {post : EngineError → Branch S Q A → Prop} (hi : keeper.inv b) (hname : stream.name = b.store.name)
    (hi' : ∀ now, keeper.inv (b.setAside stream now))
    (hp : ∀ now, post (.publishFailed source none) (b.setAside stream now)) :
    keeper.Makes post (engine.compensate ctx stream source) b := by
  apply Keeper.Makes.bind
  apply Keeper.makes_beside hi
  intro _
  apply Keeper.Makes.bind
  rw [hs]
  apply makes_setAside hi hname hi'
  exact fun now => Keeper.makes_pure (hp now)

/-- Changes are stored and published, or not stored; what is not published is set aside. -/
theorem makes_commit (hs : engine.storage = storage name policy) (hp : engine.publisher = publisher inner)
    {R : Bool → Prop} (hc : (Ambient.isCancelled ctx : Fiber W Bool).Yields R)
    {post : Except EngineError Unit → Branch S Q A → Prop} (hchanges : stream.changes ≠ [])
    (hi : ∀ b', b.Passes stream b' → keeper.inv b') (hcancelled : R true → post (.error .cancelled) b)
    (hpost : ∀ r b', b.Commits stream r b' → post r b') :
    keeper.Makes post (engine.commit ctx stream).run b := by
  have hsome : stream.hasChanges = true := by simpa [Stream.hasChanges] using hchanges
  rw [Engine.commit, if_pos hsome]
  refine (quiet_checkCancelled hc).bindExcept (hi b .start) ?_ ?_
  · rintro _ -
    apply Keeper.Makes.bindExcept
    rw [hs]
    apply Keeper.Makes.bind
    apply makes_persist (hi b .start)
    · intro store hstore
      apply Keeper.makes_pure
      apply Keeper.Makes.bindExcept
      rw [hp]
      apply Keeper.Makes.bind
      apply makes_publisher (hi _ (.stored hstore)) (hi _ (.handed hstore))
      rintro (source | ⟨⟩)
      · apply Keeper.makes_pure
        apply Keeper.Makes.bindExcept
        apply Keeper.Makes.bind
        apply makes_compensate hs (hi _ (.handed hstore))
        · obtain ⟨hname, -, -, -, rfl⟩ := Store.persist_eq_ok hstore
          exact hname
        · exact fun now => hi _ (.setAside hstore now)
        · exact fun now => Keeper.makes_pure (Keeper.makes_pure (hpost _ _ (.stranded hstore source now)))
      · exact Keeper.makes_pure (Keeper.makes_pure (hpost _ _ (.published hstore)))
    · intro e he
      exact Keeper.makes_pure (hpost _ _ (.refused he))
  · rintro e (⟨h, -⟩ | ⟨h, hr⟩)
    · cases h
    · cases h
      exact hcancelled hr

/-- A stream is made anew or loaded, without anything being stored. -/
theorem makes_openStream (hs : engine.storage = storage name policy) {mode : Mode} {id : Option StreamId}
    {owner : Option OwnerId} {subject : String} {post : Except EngineError (Stream S) → Branch S Q A → Prop}
    (hi : keeper.inv b)
    (hcreate : mode = .create → ∀ stamp,
      post (.ok (((Stream.blank name stamp).withPolicy policy).assign (id.getD ⟨stamp.id⟩) owner)) b)
    (hload : mode = .load → ∀ i, id = some i → ∀ s, b.store.load i owner = .ok s → post (.ok s) b)
    (herror : mode = .load → ∀ e, post (.error e) b) :
    keeper.Makes post (engine.openStream ctx mode id owner subject).run b := by
  cases mode with
  | create =>
    rw [Engine.openStream, hs]
    apply Keeper.Makes.bindExcept
    apply Keeper.Makes.bind
    apply Keeper.Makes.bind
    apply Keeper.makes_beside hi
    intro stamp
    exact Keeper.makes_pure (Keeper.makes_pure (Keeper.makes_pure (hcreate rfl stamp)))
  | load =>
    cases id with
    | none => exact Keeper.makes_pure (herror rfl _)
    | some i =>
      rw [Engine.openStream, hs]
      apply Keeper.Makes.bind
      apply makes_load hi
      cases hl : b.store.load i owner with
      | ok s => exact Keeper.makes_pure (hload rfl i rfl s hl)
      | error e => exact Keeper.makes_pure (herror rfl _)

/-- What a command opens. -/
theorem makes_opened (hs : engine.storage = storage name policy) (hname : b.store.name = name)
    (hpolicy : b.store.policy = policy) {mode : Mode} {command : Command}
    {post : Except EngineError (Stream S) → Branch S Q A → Prop} (hi : keeper.inv b)
    (hopened : ∀ s, command.Opens b.store mode s → post (.ok s) b) (herror : ∀ e, post (.error e) b) :
    keeper.Makes post (engine.openStream ctx mode command.streamId command.owner command.name).run b := by
  apply makes_openStream hs hi
  · rintro rfl stamp
    refine hopened _ ⟨stamp, ?_⟩
    rw [Store.blankStream, hname, hpolicy]
    rfl
  · rintro rfl i hid s hload
    exact hopened s ⟨i, hid, hload⟩
  · exact fun _ => herror

theorem Commits.passes {r : Except EngineError Unit} {b' : Branch S Q A} (h : b.Commits stream r b') :
    b.Passes stream b' := by
  cases h with
  | refused persist => exact .start
  | published persist => exact .handed persist
  | stranded persist source now => exact .setAside persist now

/-- A command does nothing, or the changes that its controller made are stored. -/
theorem makes_carryOut (hs : engine.storage = storage name policy) (hp : engine.publisher = publisher inner)
    (hname : b.store.name = name) (hpolicy : b.store.policy = policy) {command : Command} (hi : keeper.inv b)
    (hwork : ∀ registered opened, engine.commands.lookup command.name = some registered →
      command.Opens b.store registered.mode opened →
        keeper.Works (fun r t => ∀ a, r = .ok a → t.changes ≠ [] ∧ ∀ b', b.Passes t b' → keeper.inv b')
          (registered.controller ctx command) opened) :
    keeper.Makes (fun _ => keeper.inv) (engine.carryOut ctx command) b := by
  refine (quiet_checkCancelled (Fiber.yields_true _)).bindExcept hi ?_ fun _ _ => hi
  rintro _ -
  dsimp only
  split
  · exact Keeper.makes_pure hi
  cases hlookup : engine.commands.lookup command.name with
  | none => exact Keeper.makes_pure hi
  | some registered =>
    apply Keeper.Makes.bindExcept
    refine makes_opened hs hname hpolicy hi ?_ fun _ => hi
    intro opened hopens
    apply Keeper.Makes.bindExcept
    refine (hwork registered opened hlookup hopens).control hi ?_ fun _ _ _ => hi
    intro made stream hmade
    obtain ⟨hchanges, hpasses⟩ := hmade made rfl
    have hcommit : ∀ reply : Reply, keeper.Makes (fun _ => keeper.inv) (do
        engine.commit ctx stream
        return reply : ExceptT EngineError (Keeping (Branch S Q A) W) Reply).run b := by
      intro reply
      apply Keeper.Makes.bindExcept
      apply makes_commit hs hp (Fiber.yields_true _) hchanges hpasses fun _ => hi
      intro r b' hr
      cases r with
      | ok u => exact Keeper.makes_pure (hpasses b' hr.passes)
      | error e => exact hpasses b' hr.passes
    cases made with
    | some reply => exact hcommit reply
    | none =>
      apply Keeper.Makes.bindExcept
      apply Keeper.Makes.bind
      apply Keeper.makes_beside hi
      exact fun now => Keeper.makes_pure (hcommit _)

end Engine

section Rounds

variable {serve : Q → Keeping (Branch S Q A) W A}

/-- The keeper of a branch, with what is to hold before every act and what between two calls. -/
def keeper (serve : Q → Keeping (Branch S Q A) W A) (inv : Branch S Q A → Prop)
    (rest : List Q → Branch S Q A → Prop) : Keeper (Branch S Q A) W (List Q) :=
  ⟨round serve, inv, rest⟩

section Served

variable (inv : Branch S Q A → Prop) (rest : List Q → Branch S Q A → Prop)
  (hserve : ∀ q queue b, inv b → rest (q :: queue) b → (keeper serve inv rest).Makes
    (fun a b' => inv b' ∧ inv (b'.note q b.toHoldings a) ∧ rest queue (b'.note q b.toHoldings a)) (serve q) b)
include hserve

theorem steady_of_served : (keeper serve inv rest).Steady := by
  intro queue t ht b hi hr
  cases queue with
  | nil => cases ht
  | cons q queue =>
    cases ht
    apply Keeper.Makes.bind
    apply Keeper.makes_act hi
    apply Keeper.Makes.bind
    refine (hserve q queue b hi hr).mono ?_
    rintro a b' ⟨hi', hb'⟩
    apply Keeper.Makes.bind
    apply Keeper.makes_modify hi'
    exact Keeper.makes_pure hb'

variable {name : String} {codec : Codec} {policy : VersionPolicy} {calls : List Q}
  (hinv : inv (opened name codec policy)) (hrest : rest calls (opened name codec policy)) (w : W)
include hinv hrest

/-- What every call keeps up holds of a branch at all times. -/
theorem reached_of_served (moves : List (Move (W → W))) : inv (reached serve name codec policy calls w moves) :=
  ((steady_of_served inv rest hserve).run hinv hrest w moves).1

/-- And in the end every call is answered. -/
theorem rest_of_fair {schedule : Nat → Move (W → W)} (hf : Fair serve name codec policy calls w schedule) :
    ∃ n, rest [] (reached serve name codec policy calls w ((List.range n).map schedule)) := by
  have hless : ∀ queue t, round serve queue = some t → t.Yields fun queue' => queue'.length < queue.length := by
    intro queue t ht
    cases queue with
    | nil => cases ht
    | cons q queue =>
      cases ht
      exact Told.yields_bind _ fun _ => Told.yields_bind _ fun _ => Told.yields_bind _ fun _ => Nat.lt_succ_self _
  have hstart : ((Keeper.start (opened name codec policy) w calls).reached (Keeper.rules (round serve)) schedule
      0).jobs[0]? = some (.done calls) := rfl
  obtain ⟨n, queue, hdone, hnone⟩ := hf.ends List.length hless hstart
  have hqueue : queue = [] := by
    cases queue with
    | nil => rfl
    | cons q queue => cases hnone
  exact ⟨n, ((steady_of_served inv rest hserve).run hinv hrest w _).2 [] (hqueue ▸ hdone)⟩

end Served

end Rounds

end Branch

end EventJournal
