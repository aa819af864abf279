import EventJournal.Proofs.Bus.Service
import EventJournal.Proofs.Crowd.Accord
import EventJournal.Proofs.Engine.Closing

/-!
The ways in which a command ends. Whatever fails and whenever its context is cancelled, a command leaves
everything as it was, or has its changes stored as a whole; then they were published or, unless that failed
too, they wait in the outbox. Its result tells which.
-/
namespace EventJournal

open History

variable {W S κ α β : Type}

namespace Fiber

/-- A fiber can come to that result, if its acts find the right states. -/
def MayGive (a : α) : Fiber W α → Prop
  | .done b => b = a
  | .act _ _ next => ∃ w, (next w).MayGive a

theorem yields_mayGive (t : Fiber W α) : t.Yields fun a => t.MayGive a := by
  induction t with
  | done a => rfl
  | act ready effect next ih => exact fun w => (ih w).mono fun a ha => ⟨w, ha⟩

end Fiber

/-- Programs that may make a storage fail in loading and in storing. -/
structure Faults (W S : Type) where
  load : Context → StreamId → Option OwnerId → Fiber W (Option StorageError)
  persist : Context → Stream S → Fiber W (Option StorageError)

/-- A storage that does not do what it is asked to when there is a fault. -/
def Storage.failing (storage : Storage (Errand W S) S) (faults : Faults W S) :
    Storage (Errand W S) S :=
  { storage with
    load := fun ctx id owner => do
      match ← Told.beside (faults.load ctx id owner) with
      | some e => return .error e
      | none => storage.load ctx id owner
    persist := fun ctx stream =>
      Errand.faulty (faults.persist ctx stream) (storage.persist ctx stream) }

namespace Staff

variable [Ambient (Fiber W)] [State S]

/-- The engine on a store that sometimes fails. -/
def failing (staff : Staff W S) (faults : Faults W S) (name : String) (policy : VersionPolicy) :
    Engine (Errand W S) S :=
  let engine := staff.engine name policy
  { engine with storage := engine.storage.failing faults }

/-- One command at work on a store, not begun yet. -/
def request (staff : Staff W S) (faults : Faults W S) (store : Store S) (w : W) (ctx : Context)
    (command : Command) : Crowd (Store S × W) Deed (Except EngineError Reply) :=
  .gather (store, w) [(staff.failing faults store.name store.policy).carryOut ctx command]

end Staff

/-- One store is another with a stream stored into it. -/
structure Store.GrownBy (store : Store S) (s : Stream S) (after : Store S) : Prop where
  journal : after.journal s.id = store.journal s.id ++ s.changes
  version : after.storedVersion s.id = s.version
  others : ∀ id, id ≠ s.id → Store.entry? after id = store.entry? id

theorem Store.grownBy_extended (store : Store S) (s : Stream S) (snapshot : String) :
    store.GrownBy s (store.extended s snapshot) where
  journal := journal_extended store s snapshot
  version := storedVersion_extended store s snapshot
  others _ hid := entry?_extended_other store s snapshot hid

theorem Store.GrownBy.withOutbox {store after : Store S} {s : Stream S} (h : store.GrownBy s after)
    (outbox : Outbox) : store.GrownBy s (after.withOutbox outbox) :=
  ⟨h.journal, h.version, h.others⟩

/-- A stream that is opened for a command. -/
def Command.Opens [State S] (command : Command) (store : Store S) : Mode → Stream S → Prop
  | .create, s => ∃ stamp, let blank := store.blankStream stamp
      s = blank.assign (command.streamId.getD blank.id) command.owner
  | .load, s => ∃ id, command.streamId = some id ∧ store.load id command.owner = .ok s

/-- A reply and a stream with which the controller of a command may come back. -/
def Staff.Makes [State S] (staff : Staff W S) (store : Store S) (ctx : Context) (command : Command)
    (made : Option Reply) (s : Stream S) : Prop :=
  ∃ registered opened, staff.commands.lookup command.name = some registered ∧
    command.Opens store registered.mode opened ∧
    ((registered.controller ctx command).run.run opened).MayGive (.ok made, s)

inductive Way where
  /-- There was nothing to store. -/
  | quiet
  | delivered
  /-- The changes are stored, but not published. -/
  | stranded
  | refused
  deriving DecidableEq

/-- How a command ended: with what result, what it left in the store, and what it did. A reply that the
controller did not make tells the version of the stream. -/
def Way.Is [State S] (staff : Staff W S) (store : Store S) (ctx : Context) (command : Command)
    (result : Except EngineError Reply) (after : Store S) (deeds : List Deed) : Way → Prop
  | quiet => ∃ made s now, staff.Makes store ctx command made s ∧ s.changes = [] ∧
      result = .ok (made.getD (command.replyOk now s.version)) ∧ after = store ∧ deeds = []
  | delivered => ∃ made s now, staff.Makes store ctx command made s ∧ s.changes ≠ [] ∧
      result = .ok (made.getD (command.replyOk now s.version)) ∧
      store.GrownBy s after ∧ after.outbox = store.outbox ∧
      deeds = [.stored s.parcel, .handed s.changes, .published s.changes]
  | stranded => ∃ made s source compensation, staff.Makes store ctx command made s ∧ s.changes ≠ [] ∧
      result = .error (.publishFailed source compensation) ∧ store.GrownBy s after ∧
      match compensation with
      | none => (∃ batch, batch.parcel = s.parcel ∧
          after.outbox.batches = store.outbox.batches ++ [batch]) ∧
          deeds = [.stored s.parcel, .handed s.changes, .refused s.changes, .kept s.parcel]
      | some _ => after.outbox = store.outbox ∧
          deeds = [.stored s.parcel, .handed s.changes, .refused s.changes, .lost s.parcel]
  | refused => ∃ e, result = .error e ∧ e.isPartial = false ∧ after = store ∧ deeds = []

section Ways

variable [State S] {staff : Staff W S} {store after : Store S} {ctx : Context} {command : Command}
  {result : Except EngineError Reply} {deeds : List Deed} {way way' : Way}

/-- Only changes that are stored but not published make an error partial. -/
theorem Way.Is.isPartial_iff (h : way.Is staff store ctx command result after deeds) :
    (∃ e, result = .error e ∧ e.isPartial = true) ↔ way = .stranded := by
  cases way with
  | quiet =>
    obtain ⟨_, _, _, -, -, rfl, -⟩ := h
    simp
  | delivered =>
    obtain ⟨_, _, _, -, -, rfl, -⟩ := h
    simp
  | stranded =>
    obtain ⟨_, _, source, compensation, -, -, rfl, -⟩ := h
    simp [EngineError.isPartial]
  | refused =>
    obtain ⟨e, rfl, hp, -⟩ := h
    simp [hp]

/-- A command ends in one way only. -/
theorem Way.Is.unique (h : way.Is staff store ctx command result after deeds)
    (h' : way'.Is staff store ctx command result after deeds) : way = way' := by
  have hdeeds : ∀ {way : Way}, way.Is staff store ctx command result after deeds →
      (deeds = [] ↔ way = .quiet ∨ way = .refused) := by
    intro way h
    cases way with
    | quiet =>
      obtain ⟨_, _, _, -, -, -, -, rfl⟩ := h
      simp
    | delivered =>
      obtain ⟨_, _, _, -, -, -, -, -, rfl⟩ := h
      simp
    | stranded =>
      obtain ⟨_, _, _, compensation, -, -, -, -, h⟩ := h
      cases compensation with
      | none => simp [h.2]
      | some e => simp [h.2]
    | refused =>
      obtain ⟨_, -, -, -, rfl⟩ := h
      simp
  have hresult : ∀ {way : Way}, way.Is staff store ctx command result after deeds →
      ((∃ reply, result = .ok reply) ↔ way = .quiet ∨ way = .delivered) := by
    intro way h
    cases way with
    | quiet =>
      obtain ⟨_, _, _, -, -, rfl, -⟩ := h
      simp
    | delivered =>
      obtain ⟨_, _, _, -, -, rfl, -⟩ := h
      simp
    | stranded =>
      obtain ⟨_, _, _, _, -, -, rfl, -⟩ := h
      simp
    | refused =>
      obtain ⟨_, rfl, -⟩ := h
      simp
  have hd := (hdeeds h).symm.trans (hdeeds h')
  have hr := (hresult h).symm.trans (hresult h')
  cases way <;> cases way' <;> simp_all

end Ways

namespace Errand

/-- A job that is alone with the store. -/
def solo (ended : κ → Store S → List Deed → Prop) : Accord (Store S × W) Deed κ (W → W) where
  toRules := rules
  known _ _ := True
  inv _ _ := True
  rely i s h s' h' := i = 0 → s'.1 = s.1 ∧ own 0 h' = own 0 h
  ended i a s h := i = 0 → ended a s.1 (own 0 h)

theorem lawful_solo (ended : κ → Store S → List Deed → Prop) :
    (solo ended : Accord (Store S × W) Deed κ (W → W)).Lawful where
  refl _ _ _ _ := ⟨rfl, rfl⟩
  trans _ _ _ _ _ _ _ h h' h0 := ⟨(h' h0).1.trans (h h0).1, (h' h0).2.trans (h h0).2⟩
  note i j n s h hj h0 := by
    refine ⟨rfl, ?_⟩
    subst h0
    have hother : own 0 [(j, n)] = [] := own_told_other hj.symm [n]
    rw [own_append, hother, List.append_nil]
  stable _ _ _ _ _ _ he hr h0 := by
    rw [(hr h0).1, (hr h0).2]
    exact he h0
  outside _ _ _ hi := ⟨hi, fun _ _ => ⟨rfl, rfl⟩⟩
  call _ _ _ _ _ _ hc := by cases hc
  again _ _ ha := by cases ha

/-- What a program makes of a store and of the deeds done so far, whatever happens beside the store. -/
def Comes (ended : κ → Store S → List Deed → Prop) (post : α → Store S → List Deed → Prop)
    (t : Errand W S α) (store : Store S) (deeds : List Deed) : Prop :=
  ∀ w h, own 0 h = deeds →
    (solo ended).Safe 0 (fun a s h => post a s.1 (own 0 h)) t (store, w) h

variable {ended : κ → Store S → List Deed → Prop} {post : α → Store S → List Deed → Prop}
  {store : Store S} {deeds : List Deed}

theorem comes_pure {a : α} (hp : post a store deeds) :
    Comes ended post (pure a : Errand W S α) store deeds := by
  rintro w h rfl
  exact hp

theorem Comes.mono {post' : α → Store S → List Deed → Prop} {t : Errand W S α}
    (ht : Comes ended post t store deeds) (hp : ∀ a store deeds, post a store deeds → post' a store deeds) :
    Comes ended post' t store deeds :=
  fun w h ho => (ht w h ho).mono fun a s h => hp a s.1 (own 0 h)

theorem Comes.bind {post : β → Store S → List Deed → Prop} {t : Errand W S α} {f : α → Errand W S β}
    (ht : Comes ended (fun a => Comes ended post (f a)) t store deeds) :
    Comes ended post (t >>= f) store deeds := by
  intro w h ho
  refine Accord.Safe.bind ((ht w h ho).mono ?_)
  exact fun a s h ha => ha s.2 h rfl

theorem comes_beside {R : α → Prop} {t : Fiber W α} (ht : t.Yields R)
    (hp : ∀ a, R a → post a store deeds) : Comes ended post (Told.beside t : Errand W S α) store deeds := by
  rintro w h rfl
  induction t generalizing w h with
  | done a => exact hp a ht
  | act ready effect next ih =>
    refine fun _ => ⟨trivial, ?_⟩
    rintro ⟨store', w'⟩ h' _ _ hr _
    obtain ⟨rfl, ho⟩ := hr rfl
    refine ⟨fun _ _ h0 => ⟨rfl, rfl⟩, ?_⟩
    simp only [solo, rules, recorded_self, append_told_nil]
    apply ih w' (ht w')
    rw [ho]
    exact hp

/-- An act on the store. -/
theorem comes_act {f : Store S → α × Store S}
    (hp : post (f store).1 (f store).2 (deeds ++ recorded store (f store).2)) :
    Comes ended post (Told.kept.act f : Errand W S α) store deeds := by
  rintro w h rfl
  refine fun _ => ⟨trivial, ?_⟩
  rintro ⟨store', w'⟩ h' _ _ hr _
  obtain ⟨rfl, ho⟩ := hr rfl
  refine ⟨fun j hj h0 => absurd h0 hj, ?_⟩
  change post _ _ (own 0 (h' ++ told 0 (recorded _ _)))
  rw [own_append, own_told, ho]
  exact hp

theorem comes_tell {d : Deed} {post : Unit → Store S → List Deed → Prop}
    (hp : post () store (deeds ++ [d])) : Comes ended post (Told.tell d : Errand W S Unit) store deeds := by
  rintro w h rfl
  change post () store (own 0 (h ++ [(0, d)]))
  rw [own_concat]
  exact hp

/-- A part of an engine that does nothing to the store and has no deeds to its name. Of its result it is
known that it has `R`, or that it is an error by which nothing was stored. -/
def Harmless (ended : κ → Store S → List Deed → Prop) (R : α → Prop)
    (x : ExceptT EngineError (Errand W S) α) (store : Store S) : Prop :=
  Comes ended (fun r after deeds => after = store ∧ deeds = [] ∧
    match r with
    | .ok a => R a
    | .error e => e.isPartial = false) x.run store []

theorem Harmless.bind {R : α → Prop} {x : ExceptT EngineError (Errand W S) α}
    {f : α → ExceptT EngineError (Errand W S) β}
    {post : Except EngineError β → Store S → List Deed → Prop} (hx : Harmless ended R x store)
    (hf : ∀ a, R a → Comes ended post (f a).run store [])
    (he : ∀ e, e.isPartial = false → post (.error e) store []) :
    Comes ended post (x >>= f).run store [] := by
  rw [ExceptT.run_bind]
  apply Comes.bind
  apply hx.mono
  rintro r after deeds ⟨rfl, rfl, hr⟩
  cases r with
  | ok a => exact hf a hr
  | error e => exact comes_pure (he e hr)

theorem harmless_pure {R : α → Prop} {a : α} (ha : R a) :
    Harmless ended R (pure a : ExceptT EngineError (Errand W S) α) store :=
  comes_pure ⟨rfl, rfl, ha⟩

theorem harmless_throw {R : α → Prop} {e : EngineError} (he : e.isPartial = false) :
    Harmless ended R (throw e : ExceptT EngineError (Errand W S) α) store :=
  comes_pure ⟨rfl, rfl, he⟩

theorem harmless_beside {R : α → Prop} {t : Fiber W α} (ht : t.Yields R) :
    Harmless ended R (liftM (Told.beside t : Errand W S α) : ExceptT EngineError (Errand W S) α) store :=
  Comes.bind (comes_beside ht fun _ ha => comes_pure ⟨rfl, rfl, ha⟩)

section Engine

theorem harmless_checkCancelled [Ambient (Fiber W)] (ctx : Context) :
    Harmless ended (fun _ => True)
      (Engine.checkCancelled ctx : ExceptT EngineError (Errand W S) Unit) store := by
  refine (harmless_beside (Fiber.yields_true _)).bind ?_ ?_
  · intro cancelled _
    cases cancelled with
    | true => exact harmless_throw rfl
    | false => exact harmless_pure trivial
  · exact fun e he => ⟨rfl, rfl, he⟩

/-- The controller's stream is one to which its program may come. -/
theorem harmless_control (work : Revision (Fiber W) S α) (stream : Stream S) :
    Harmless ended (fun r => (work.run.run stream).MayGive (.ok r.1, r.2))
      (Engine.control (revision work) stream) store := by
  apply Comes.bind
  refine comes_beside (work.run.run stream).yields_mayGive ?_
  rintro ⟨r, s⟩ hr
  cases r with
  | ok a => exact comes_pure ⟨rfl, rfl, hr⟩
  | error e => exact comes_pure ⟨rfl, rfl, rfl⟩

variable [Ambient (Fiber W)] [State S] {staff : Staff W S} {faults : Faults W S}

/-- A stream is stored as a whole, or nothing is. -/
theorem comes_persist {name : String} {policy : VersionPolicy} (ctx : Context) {s : Stream S}
    {post : Except StorageError Unit → Store S → List Deed → Prop}
    (hok : ∀ snapshot, s.name = store.name →
      post (.ok ()) (store.extended s snapshot) (deeds ++ [.stored s.parcel]))
    (herror : ∀ e, post (.error e) store deeds) :
    Comes ended post ((staff.failing faults name policy).storage.persist ctx s) store deeds := by
  apply Comes.bind
  refine comes_beside (Fiber.yields_true _) ?_
  intro fault _
  cases fault with
  | some e => exact comes_pure (herror e)
  | none =>
    change Comes ended _ (Told.kept.attempt (·.persist s) >>= _) store deeds
    apply Comes.bind
    apply comes_act
    cases hp : store.persist s with
    | error e =>
      simp only [hp, recorded_self, List.append_nil]
      exact comes_pure (herror e)
    | ok after =>
      obtain ⟨hname, -, snapshot, -, rfl⟩ := Store.persist_eq_ok hp
      have hnone : recorded store (store.extended s snapshot) = [] := by simp [recorded]
      simp only [hp, hnone, List.append_nil]
      apply Comes.bind
      apply comes_tell
      exact comes_pure (hok snapshot hname)

theorem comes_publisher {name : String} {policy : VersionPolicy} (ctx : Context) {events : List Event}
    {post : Except PublishError Unit → Store S → List Deed → Prop}
    (hok : post (.ok ()) store (deeds ++ [.handed events] ++ [.published events]))
    (herror : ∀ e, post (.error e) store (deeds ++ [.handed events] ++ [.refused events])) :
    Comes ended post ((staff.failing faults name policy).publisher ctx events) store deeds := by
  apply Comes.bind
  apply comes_tell
  apply Comes.bind
  refine comes_beside (Fiber.yields_true _) ?_
  intro r _
  cases r with
  | ok u =>
    apply Comes.bind
    apply comes_tell
    exact comes_pure hok
  | error e =>
    apply Comes.bind
    apply comes_tell
    exact comes_pure (herror e)

/-- Changes are set aside in a new batch, or lost by a fault. -/
theorem comes_setAside {name : String} {policy : VersionPolicy} (ctx : Context) {s : Stream S}
    {post : Except StorageError Unit → Store S → List Deed → Prop} (hname : s.name = store.name)
    (hok : ∀ batch, PendingBatch.parcel batch = s.parcel → ∀ n,
      post (.ok ()) (store.withOutbox ⟨n, store.outbox.batches ++ [batch]⟩) (deeds ++ [.kept s.parcel]))
    (herror : ∀ e, post (.error e) store (deeds ++ [.lost s.parcel])) :
    Comes ended post ((staff.failing faults name policy).storage.setAside ctx s) store deeds := by
  apply Comes.bind
  apply Comes.bind
  refine comes_beside (Fiber.yields_true _) ?_
  intro fault _
  cases fault with
  | some e =>
    apply comes_pure
    apply Comes.bind
    apply comes_tell
    exact comes_pure (herror e)
  | none =>
    apply Comes.bind
    refine comes_beside (Fiber.yields_true _) ?_
    intro now _
    apply Comes.bind
    apply comes_act
    let batch (id : Nat) : PendingBatch := ⟨id, store.name, s.id, s.version, s.changes, now⟩
    have hset : store.setAside s now = .ok (store.withOutbox (store.outbox.record batch)) :=
      (Store.setAside_eq _ _ _).trans (if_pos hname)
    have hkept : recorded store (store.withOutbox (store.outbox.record batch)) = [.kept s.parcel] := by
      simp [recorded, Store.withOutbox, Outbox.record, batch, PendingBatch.parcel, Stream.parcel]
    simp only [hset, hkept]
    apply Comes.bind
    refine comes_beside (Fiber.yields_true _) ?_
    intro _ _
    exact comes_pure (comes_pure (hok (batch _) rfl _))

theorem comes_load {name : String} {policy : VersionPolicy} (ctx : Context) (id : StreamId)
    (owner : Option OwnerId) {post : Except StorageError (Stream S) → Store S → List Deed → Prop}
    (hok : ∀ s, store.load id owner = .ok s → post (.ok s) store deeds)
    (herror : ∀ e, post (.error e) store deeds) :
    Comes ended post ((staff.failing faults name policy).storage.load ctx id owner) store deeds := by
  apply Comes.bind
  refine comes_beside (Fiber.yields_true _) ?_
  intro fault _
  cases fault with
  | some e => exact comes_pure (herror e)
  | none =>
    change Comes ended _ (Told.kept.act fun store => (store.load id owner, store)) store deeds
    apply comes_act
    rw [recorded_self, List.append_nil]
    cases hload : store.load id owner with
    | ok s => exact hok s hload
    | error e => exact herror e

theorem harmless_openStream (ctx : Context) (mode : Mode) (command : Command) :
    Harmless ended (command.Opens store mode)
      ((staff.failing faults store.name store.policy).openStream ctx mode command.streamId
        command.owner command.name) store := by
  cases mode with
  | create =>
    have hblank : Harmless ended (fun s => ∃ stamp, s = store.blankStream stamp)
        (liftM (staff.failing faults store.name store.policy).storage.blank :
          ExceptT EngineError (Errand W S) (Stream S)) store := by
      apply Comes.bind
      apply Comes.bind
      exact comes_beside (Fiber.yields_true _) fun stamp _ =>
        comes_pure (comes_pure ⟨rfl, rfl, stamp, rfl⟩)
    refine hblank.bind ?_ fun e he => ⟨rfl, rfl, he⟩
    rintro s ⟨stamp, rfl⟩
    exact harmless_pure ⟨stamp, rfl⟩
  | load =>
    cases hid : command.streamId with
    | none => exact harmless_throw rfl
    | some id =>
      apply Comes.bind
      apply comes_load ctx id command.owner
      · exact fun s hs => comes_pure ⟨rfl, rfl, id, hid, hs⟩
      · exact fun e => comes_pure ⟨rfl, rfl, rfl⟩

/-- Changes are stored as a whole or not at all, and then published or set aside. -/
theorem comes_commit (ctx : Context) {made : Option Reply} {s : Stream S} {command : Command}
    (hs : staff.Makes store ctx command made s) (now : Timestamp) :
    Comes ended
      (fun r after deeds => ∃ way, Way.Is staff store ctx command
        (r.map fun _ => made.getD (command.replyOk now s.version)) after deeds way)
      ((staff.failing faults store.name store.policy).commit ctx s).run store [] := by
  rw [Engine.commit]
  by_cases hc : s.hasChanges = true
  · have hne : s.changes ≠ [] := by simpa [Stream.hasChanges] using hc
    rw [if_pos hc]
    refine (harmless_checkCancelled ctx).bind ?_ fun e he => ⟨.refused, e, rfl, he, rfl, rfl⟩
    intro _ _
    rw [ExceptT.run_bind]
    apply Comes.bind
    apply Comes.bind
    apply comes_persist ctx
    · intro snapshot hname
      have hgrown := store.grownBy_extended s snapshot
      have hname' : s.name = (store.extended s snapshot).name := hname
      apply comes_pure
      apply Comes.bind
      apply Comes.bind
      apply comes_publisher ctx
      · exact comes_pure (comes_pure ⟨.delivered, made, s, now, hs, hne, rfl, hgrown, rfl, rfl⟩)
      · intro source
        apply comes_pure
        apply Comes.bind
        apply Comes.bind
        apply Comes.bind
        refine comes_beside (Fiber.yields_true _) ?_
        intro _ _
        apply Comes.bind
        apply comes_setAside ctx hname'
        · intro batch hb n
          exact comes_pure (comes_pure (comes_pure ⟨.stranded, made, s, source, none, hs, hne, rfl,
            hgrown.withOutbox _, ⟨batch, hb, rfl⟩, rfl⟩))
        · intro e
          apply Comes.bind
          refine comes_beside (Fiber.yields_true _) ?_
          intro _ _
          exact comes_pure (comes_pure (comes_pure ⟨.stranded, made, s, source, some e, hs, hne, rfl,
            hgrown, rfl, rfl⟩))
    · intro e
      have hpartial : (EngineError.ofPersist e).isPartial = false := by
        rw [EngineError.ofPersist]
        split <;> rfl
      exact comes_pure (comes_pure ⟨.refused, _, rfl, hpartial, rfl, rfl⟩)
  · have hnone : s.changes = [] := by simpa [Stream.hasChanges] using hc
    rw [if_neg hc]
    exact comes_pure ⟨.quiet, made, s, now, hs, hnone, rfl, rfl, rfl⟩

theorem comes_carryOut (ctx : Context) (command : Command) :
    Comes ended
      (fun r after deeds => ∃ way, Way.Is staff store ctx command r after deeds way)
      ((staff.failing faults store.name store.policy).carryOut ctx command) store [] := by
  have hrefused : ∀ e : EngineError, e.isPartial = false → ∃ way, Way.Is staff store ctx command
      (.error e) store [] way := fun e he => ⟨.refused, e, rfl, he, rfl, rfl⟩
  refine (harmless_checkCancelled ctx).bind ?_ hrefused
  intro _ _
  dsimp only
  by_cases hn : command.streamName ≠ (staff.failing faults store.name store.policy).storage.name
  · rw [if_pos hn]
    exact (harmless_throw (R := fun _ => False) rfl).bind (fun _ hf => hf.elim) hrefused
  rw [if_neg hn]
  have hlookup : (staff.failing faults store.name store.policy).commands.lookup command.name =
      (staff.commands.lookup command.name).map Staff.command := Bus.lookup_map _ _ _
  rw [hlookup]
  cases hc : staff.commands.lookup command.name with
  | none => exact comes_pure (hrefused _ rfl)
  | some registered =>
    refine (harmless_openStream ctx _ command).bind ?_ hrefused
    intro opened hopened
    refine (harmless_control (registered.controller ctx command) opened).bind ?_ hrefused
    rintro ⟨made, s⟩ hgive
    have hs : staff.Makes store ctx command made s := ⟨registered, opened, hc, hopened, hgive⟩
    have hcommit : ∀ now, Comes ended
        (fun r after deeds => ∃ way, Way.Is staff store ctx command r after deeds way)
        (do
          (staff.failing faults store.name store.policy).commit ctx s
          return made.getD (command.replyOk now s.version) :
            ExceptT EngineError (Errand W S) Reply).run store [] := by
      intro now
      rw [ExceptT.run_bind]
      apply Comes.bind
      refine (comes_commit ctx hs now).mono ?_
      rintro r after deeds ⟨way, hway⟩
      cases r with
      | ok u => exact comes_pure ⟨way, hway⟩
      | error e => exact comes_pure ⟨way, hway⟩
    cases made with
    | some reply => exact hcommit ⟨0, 0, 0, 0, 0, 0, 0⟩
    | none =>
      refine (harmless_beside (Fiber.yields_true _)).bind ?_ hrefused
      intro now _
      exact hcommit now

variable (staff faults) in
/-- A command that is alone with the store comes to one of the ways, and ends in it. -/
theorem holds_request (store : Store S) (w : W) (ctx : Context) (command : Command)
    (moves : List (Move (W → W))) :
    (solo fun r after deeds => ∃ way, Way.Is staff store ctx command r after deeds way).Holds
      ((staff.request faults store w ctx command).run rules moves) := by
  have hp : (solo (W := W) fun r after deeds =>
      ∃ way, Way.Is staff store ctx command r after deeds way).Lawful := lawful_solo _
  refine Accord.Holds.run hp (Accord.Holds.gather hp trivial (fun _ => trivial) ?_) moves fun _ => trivial
  intro i t ht h _ _ ho
  obtain ⟨rfl, rfl⟩ : i = 0 ∧
      t = (staff.failing faults store.name store.policy).carryOut ctx command := by
    cases i with
    | zero => exact ⟨rfl, (Option.some.inj ht).symm⟩
    | succ i => cases ht
  refine (comes_carryOut ctx command w h ho).mono ?_
  exact fun r s h hr => ⟨fun _ => trivial, fun _ => hr⟩

end Engine

end Errand

/-- Whatever fails meanwhile and whenever its context is cancelled, a command that has come to its end did so
in exactly one of the ways, and its error is partial exactly if its changes are stored but not published. It
comes to its end if only it is given its turns. -/
theorem one_way [Ambient (Fiber W)] [State S] (staff : Staff W S) (faults : Faults W S) (store : Store S)
    (w : W) (ctx : Context) (command : Command) :
    let start := staff.request faults store w ctx command
    (∀ moves result, (start.run Errand.rules moves).jobs[0]? = some (.done result) →
      let c := start.run Errand.rules moves
      ∃ way, Way.Is staff store ctx command result c.state.1 (own 0 c.history) way ∧
        (∀ other, Way.Is staff store ctx command result c.state.1 (own 0 c.history) other →
          other = way) ∧
        ((∃ e, result = .error e ∧ e.isPartial = true) ↔ way = .stranded)) ∧
    ∀ schedule, start.Fair Errand.rules schedule 0 →
      ∃ n result, (start.reached Errand.rules schedule n).jobs[0]? = some (.done result) := by
  intro start
  constructor
  · intro moves result hdone
    have hc := Errand.holds_request staff faults store w ctx command moves
    obtain ⟨way, hway⟩ := hc.ended (Errand.lawful_solo _) trivial hdone rfl
    exact ⟨way, hway, fun other hother => hother.unique hway, hway.isPartial_iff⟩
  · intro schedule hfair
    exact hfair.ends (n := 0) rfl

end EventJournal
