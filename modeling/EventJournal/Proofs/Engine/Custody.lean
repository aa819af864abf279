import EventJournal.Proofs.Crowd.Accord
import EventJournal.Proofs.Engine.Closing

/-!
Engines that mind what their streams have to do with the store. A stream that was opened on a store stays what
it is while others add to that store, and when it is stored nothing is broken. Changes are lost only by a fault,
since a stream that was taken can be set aside too.
-/
namespace EventJournal

open History

variable {W S κ ε α β : Type}

/-- What is minded of a store, of how it grows, and of the streams that are open on it. -/
structure Custody (S : Type) where
  inv : Store S → Prop
  grows : Store S → Store S → Prop
  fits : Store S → Stream S → Prop

/-- What the engines of a crowd can mind. -/
structure Custody.Lawful [State S] (p : Custody S) (name : String) (policy : VersionPolicy) : Prop where
  name_eq : ∀ {store}, p.inv store → store.name = name
  refl : ∀ store, p.grows store store
  trans : ∀ {a b c}, p.grows a b → p.grows b c → p.grows a c
  stable : ∀ {store store' s}, p.fits store s → p.grows store store' → p.fits store' s
  load : ∀ {store id owner s}, p.inv store → store.load id owner = .ok s → p.fits store s
  blank : ∀ {store} (stamp : Stamp) (id : StreamId) (owner : Option OwnerId), p.inv store →
    p.fits store (((Stream.blank name stamp).withPolicy policy).assign id owner)
  persist : ∀ {store s store'}, p.inv store → p.fits store s → s.changes ≠ [] →
    store.persist s = .ok store' → p.inv store' ∧ p.grows store store'
  outbox : ∀ {store} (outbox : Outbox), p.inv store →
    p.inv (store.withOutbox outbox) ∧ p.grows store (store.withOutbox outbox)

/-- A storage without faults in setting aside. -/
def Staff.Sure (staff : Staff W S) : Prop :=
  ∀ ctx s, (staff.fault ctx s).Yields (· = none)

def Call.Sure : Call W S → Prop
  | .command staff _ _ => staff.Sure
  | .event staff _ _ => staff.Sure
  | .pass _ _ _ => True

def Lossless (h : List (Nat × Deed)) : Prop :=
  ∀ i p, (i, .lost p) ∉ h

theorem Lossless.append {h : List (Nat × Deed)} (hl : Lossless h) {i : Nat} {deeds : List Deed}
    (hd : ∀ p, .lost p ∉ deeds) : Lossless (h ++ told i deeds) := by
  intro j p hp
  rcases List.mem_append.mp hp with hp | hp
  · exact hl j p hp
  · obtain ⟨d, hmem, he⟩ := List.mem_map.mp hp
    cases he
    exact hd p hmem

namespace Custody

/-- The accord of those who mind it, and who lose nothing if they are `sure`. -/
def accord (p : Custody S) (sure : Prop) : Accord (Store S × W) Deed κ (W → W) where
  toRules := Errand.rules
  known _ _ := True
  inv s h := p.inv s.1 ∧ (sure → Lossless h)
  rely _ s _ s' _ := p.grows s.1 s'.1
  ended _ _ _ _ := True

section Accord

variable {p : Custody S} {sure : Prop}

theorem lawful_accord [State S] {name : String} {policy : VersionPolicy} (hp : p.Lawful name policy)
    (sure : Prop) : (p.accord sure : Accord (Store S × W) Deed κ (W → W)).Lawful where
  refl _ s _ := hp.refl s.1
  trans _ _ _ _ _ _ _ h h' := hp.trans h h'
  note _ _ _ s _ _ := hp.refl s.1
  stable _ _ _ _ _ _ _ _ := trivial
  outside _ s _ hs := ⟨hs, fun _ => hp.refl s.1⟩
  call _ _ _ _ _ _ hc := by cases hc
  again _ _ ha := by cases ha

/-- A program that goes by the accord from a store on. Of its result it is known how it fits the store at
that time. -/
def Minds (κ : Type) (p : Custody S) (sure : Prop) (post : α → Store S → Prop) (t : Errand W S α)
    (store : Store S) : Prop :=
  ∀ i w h, p.inv store → (sure → Lossless h) →
    (p.accord sure : Accord (Store S × W) Deed κ (W → W)).Safe i
      (fun a s h => (p.inv s.1 ∧ (sure → Lossless h)) ∧ p.grows store s.1 ∧ post a s.1) t (store, w) h

variable [State S] {name : String} {policy : VersionPolicy} (hp : p.Lawful name policy)
  {post : α → Store S → Prop} {store : Store S}
include hp

theorem minds_pure {a : α} (ha : post a store) : Minds κ p sure post (pure a : Errand W S α) store :=
  fun _ _ _ hi hl => ⟨⟨hi, hl⟩, hp.refl store, ha⟩

omit [State S] hp in
theorem Minds.mono {post' : α → Store S → Prop} {t : Errand W S α} (ht : Minds κ p sure post t store)
    (h : ∀ a store', p.grows store store' → post a store' → post' a store') :
    Minds κ p sure post' t store :=
  fun i w hist hi hl => (ht i w hist hi hl).mono fun a s _ ⟨hi', hg, ha⟩ => ⟨hi', hg, h a s.1 hg ha⟩

omit [State S] hp in
theorem Minds.of_inv {t : Errand W S α} (ht : p.inv store → Minds κ p sure post t store) :
    Minds κ p sure post t store :=
  fun i w h hi hl => ht hi i w h hi hl

theorem Minds.bind {post' : β → Store S → Prop} {t : Errand W S α} {f : α → Errand W S β}
    (ht : Minds κ p sure post t store)
    (hf : ∀ a store', p.grows store store' → post a store' → Minds κ p sure post' (f a) store') :
    Minds κ p sure post' (t >>= f) store := by
  intro i w h hi hl
  refine Accord.Safe.bind ((ht i w h hi hl).mono ?_)
  rintro a ⟨store', w'⟩ h' ⟨⟨hi', hl'⟩, hg, ha⟩
  refine (hf a store' hg ha i w' h' hi' hl').mono ?_
  rintro b s'' h'' ⟨hi'', hg', hb⟩
  exact ⟨hi'', hp.trans hg hg', hb⟩

/-- An act on the store, in whatever state it finds it. -/
theorem minds_act {f : Store S → α × Store S} {Q : α → Store S → Prop}
    (hf : ∀ store', p.inv store' → p.grows store store' →
      p.inv (f store').2 ∧ p.grows store' (f store').2 ∧ Q (f store').1 (f store').2 ∧
        ∀ q, .lost q ∉ Errand.recorded store' (f store').2) :
    Minds κ p sure Q (Told.kept.act f : Errand W S α) store := by
  intro i w h hi hl
  refine fun _ => ⟨⟨hi, hl⟩, ?_⟩
  rintro ⟨store', w'⟩ h' _ ⟨hi', hl'⟩ hg _
  obtain ⟨hi'', hg', ha, hno⟩ := hf store' hi' hg
  exact ⟨fun _ _ => hg', ⟨⟨hi'', fun hs => (hl' hs).append hno⟩, hp.trans hg hg', ha⟩⟩

theorem minds_read {f : Store S → α} (hf : ∀ store', p.inv store' → post (f store') store') :
    Minds κ p sure post (Cell.read Told.kept f : Errand W S α) store :=
  minds_act hp fun store' hi _ => ⟨hi, hp.refl store', hf store' hi, by simp⟩

/-- What happens beside the store does not touch it, but others may. -/
theorem minds_beside {R : α → Prop} {t : Fiber W α} (ht : t.Yields R) :
    Minds κ p sure (fun a _ => R a) (Told.beside t : Errand W S α) store := by
  induction t generalizing store with
  | done a => exact minds_pure hp ht
  | act ready effect next ih =>
    intro i w h hi hl
    refine fun _ => ⟨⟨hi, hl⟩, ?_⟩
    rintro ⟨store', w'⟩ h' _ ⟨hi', hl'⟩ hg _
    refine ⟨fun _ _ => hp.refl store', ?_⟩
    simp only [accord, Errand.rules, Errand.recorded_self, append_told_nil]
    have hrest : Minds κ p sure (fun a _ => R a) (Told.beside (next w') : Errand W S α) store' := ih w' (ht w')
    refine (hrest i (effect w') h' hi' hl').mono ?_
    rintro a s'' h'' ⟨hi'', hg', ha⟩
    exact ⟨hi'', hp.trans hg hg', ha⟩

theorem minds_tell {d : Deed} (hd : sure → ∀ q, d ≠ .lost q) :
    Minds κ p sure (fun _ _ => True) (Told.tell d : Errand W S Unit) store := by
  intro i w h hi hl
  refine ⟨⟨hi, ?_⟩, hp.refl store, trivial⟩
  intro hs
  have hno : ∀ q, .lost q ∉ [d] := fun q hq => hd hs q (List.mem_singleton.mp hq).symm
  exact (hl hs).append hno

end Accord

/-- A part of an engine that goes by the accord. Of its result it is known that it fits. -/
def Tends (κ : Type) (p : Custody S) (sure : Prop) (Q : α → Store S → Prop)
    (x : ExceptT ε (Errand W S) α) (store : Store S) : Prop :=
  Minds κ p sure (fun r store' => ∀ a, r = .ok a → Q a store') x.run store

section Engine

variable {p : Custody S} {sure : Prop} [State S] {name : String} {policy : VersionPolicy}
  (hp : p.Lawful name policy) {Q : α → Store S → Prop} {store : Store S}
include hp

theorem Tends.bind {R : β → Store S → Prop} {x : ExceptT ε (Errand W S) α}
    {f : α → ExceptT ε (Errand W S) β} (hx : Tends κ p sure Q x store)
    (hf : ∀ a store', p.grows store store' → Q a store' → Tends κ p sure R (f a) store') :
    Tends κ p sure R (x >>= f) store := by
  rw [Tends, ExceptT.run_bind]
  refine Minds.bind hp hx ?_
  intro r store' hg hr
  cases r with
  | ok a => exact hf a store' hg (hr a rfl)
  | error e => exact minds_pure hp fun _ he => by cases he

theorem tends_pure {a : α} (ha : Q a store) :
    Tends κ p sure Q (pure a : ExceptT ε (Errand W S) α) store :=
  minds_pure hp fun _ he => by cases he; exact ha

theorem tends_throw (e : ε) :
    Tends κ p sure Q (throw e : ExceptT ε (Errand W S) α) store :=
  minds_pure hp fun _ he => by cases he

theorem tends_lift {t : Errand W S α} (ht : Minds κ p sure Q t store) :
    Tends κ p sure Q (liftM t : ExceptT ε (Errand W S) α) store :=
  Minds.bind hp ht fun _ _ _ ha => minds_pure hp fun _ he => by cases he; exact ha

/-- An error that is told in other words. -/
theorem tends_mapError {ε' : Type} {f : ε' → ε} {t : Errand W S (Except ε' α)}
    (ht : Minds κ p sure (fun r store' => ∀ a, r = .ok a → Q a store') t store) :
    Tends κ p sure Q (ExceptT.mk do return (← t).mapError f) store := by
  refine Minds.bind hp ht ?_
  intro r _ _ hr
  cases r with
  | ok a => exact minds_pure hp fun _ he => by cases he; exact hr a rfl
  | error e => exact minds_pure hp nofun

theorem tends_checkCancelled [Ambient (Fiber W)] (ctx : Context) :
    Tends κ p sure (fun _ _ => True)
      (Engine.checkCancelled ctx : ExceptT EngineError (Errand W S) Unit) store := by
  refine Tends.bind hp (tends_lift hp (minds_beside hp (Fiber.yields_true _))) ?_
  intro cancelled store' _ _
  cases cancelled with
  | true => exact tends_throw hp EngineError.cancelled
  | false => exact tends_pure hp trivial

/-- A controller leads from a stream that fits to one that fits, if it keeps that. -/
theorem tends_control {work : Revision (Fiber W) S α} (hw : ∀ store, Revision.Keeps (p.fits store) work)
    {stream : Stream S} (hs : p.fits store stream) :
    Tends κ p sure (fun r store' => p.fits store' r.2) (Engine.control (Errand.revision work) stream)
      store := by
  refine Minds.bind hp (minds_beside hp (hw store stream hs)) ?_
  rintro ⟨r, stream'⟩ store' hg hr
  cases r with
  | ok a => exact minds_pure hp fun _ he => by cases he; exact hp.stable (hr a rfl) hg
  | error e => exact minds_pure hp fun _ he => by cases he

variable [Ambient (Fiber W)] {staff : Staff W S}

theorem tends_openStream (ctx : Context) (mode : Mode) (id : Option StreamId) (owner : Option OwnerId)
    (subject : String) :
    Tends κ p sure (fun s store' => p.fits store' s)
      ((staff.engine name policy).openStream ctx mode id owner subject) store := by
  cases mode with
  | create =>
    let blank (stamp : Stamp) : Stream S := (Stream.blank name stamp).withPolicy policy
    have hblank : Minds κ p sure (fun s _ => ∃ stamp, s = blank stamp)
        (staff.engine name policy).storage.blank store :=
      Minds.bind hp (minds_beside hp (Fiber.yields_true _)) fun stamp _ _ _ => minds_pure hp ⟨stamp, rfl⟩
    refine Tends.bind hp (tends_lift hp hblank) ?_
    rintro s store' _ ⟨stamp, rfl⟩
    exact .of_inv fun hi => tends_pure hp (hp.blank stamp _ owner hi)
  | load =>
    cases id with
    | none => exact tends_throw hp _
    | some id =>
      have hload : Minds κ p sure (fun r store' => ∀ s, r = .ok s → p.fits store' s)
          ((staff.engine name policy).storage.load ctx id owner) store :=
        minds_read hp (f := fun store => store.load id owner) fun store' hi s hs => hp.load hi hs
      exact tends_mapError hp hload

/-- A stream that is taken has the name of the store. -/
theorem minds_persist (ctx : Context) {s : Stream S} (hs : p.fits store s) (hc : s.changes ≠ []) :
    Minds κ p sure (fun r _ => ∀ u, r = .ok u → s.name = name)
      ((staff.engine name policy).storage.persist ctx s) store := by
  change Minds κ p sure _ (Told.kept.attempt (·.persist s) >>= _) store
  have htaken : Minds κ p sure (fun r _ => ∀ u, r = .ok u → s.name = name)
      (Told.kept.attempt (·.persist s) : Errand W S (Except StorageError Unit)) store := by
    apply minds_act hp
    intro store' hi hg
    cases hps : store'.persist s with
    | error e =>
      simp only [hps]
      exact ⟨hi, hp.refl store', nofun, by simp⟩
    | ok after =>
      simp only [hps]
      obtain ⟨hi', hg'⟩ := hp.persist hi (hp.stable hs hg) hc hps
      obtain ⟨hname, -, snapshot, -, rfl⟩ := Store.persist_eq_ok hps
      exact ⟨hi', hg', fun _ _ => hname.trans (hp.name_eq hi), by simp [Errand.recorded]⟩
  refine Minds.bind hp htaken ?_
  intro r store' _ hr
  cases r with
  | ok u =>
    refine Minds.bind hp (minds_tell hp fun _ _ he => by cases he) ?_
    exact fun _ _ _ _ => minds_pure hp fun _ _ => hr u rfl
  | error e => exact minds_pure hp nofun

omit [Ambient (Fiber W)] in
theorem minds_publisher {inner : Publisher (Fiber W)} (ctx : Context) (events : List Event) :
    Minds κ p sure (fun _ _ => True) (Errand.publisher inner ctx events : Errand W S _) store := by
  refine Minds.bind hp (minds_tell hp fun _ _ => nofun) ?_
  intro _ _ _ _
  refine Minds.bind hp (minds_beside hp (Fiber.yields_true _)) ?_
  intro r _ _ _
  cases r with
  | ok u => exact Minds.bind hp (minds_tell hp fun _ _ => nofun) fun _ _ _ _ => minds_pure hp trivial
  | error e => exact Minds.bind hp (minds_tell hp fun _ _ => nofun) fun _ _ _ _ => minds_pure hp trivial

/-- A store sets aside the changes of every stream with its name. -/
theorem minds_keep (ctx : Context) {s : Stream S} (hname : s.name = name) :
    Minds κ p sure (fun r _ => r = .ok ())
      ((Store.inCell name policy Told.kept : Storage (Errand W S) S).setAside ctx s) store := by
  refine Minds.bind hp (minds_beside hp (Fiber.yields_true _)) ?_
  intro now store₁ _ _
  refine Minds.bind hp (minds_act hp (Q := fun r _ => ∃ batch, r = .ok batch) ?_) ?_
  · intro store' hi _
    have hname' : s.name = store'.name := hname.trans (hp.name_eq hi).symm
    let batch (id : Nat) : PendingBatch := ⟨id, store'.name, s.id, s.version, s.changes, now⟩
    have hset : store'.setAside s now = .ok (store'.withOutbox (store'.outbox.record batch)) :=
      (Store.setAside_eq _ _ _).trans (if_pos hname')
    obtain ⟨hi', hg'⟩ := hp.outbox (store'.outbox.record batch) hi
    rw [hset]
    exact ⟨hi', hg', ⟨_, rfl⟩, by simp [Errand.recorded, Store.withOutbox, Outbox.record]⟩
  · rintro _ store₂ _ ⟨batch, rfl⟩
    exact Minds.bind hp (minds_beside hp (Fiber.yields_true _)) fun _ _ _ _ => minds_pure hp rfl

/-- So they are lost only by a fault. -/
theorem minds_setAside (hsure : sure → staff.Sure) (ctx : Context) {s : Stream S} (hname : s.name = name) :
    Minds κ p sure (fun _ _ => True) ((staff.engine name policy).storage.setAside ctx s) store := by
  have hfault : (staff.fault ctx s).Yields fun r => sure → r = none := by
    by_cases hs : sure
    · exact (hsure hs ctx s).mono fun _ hr _ => hr
    · exact (Fiber.yields_true _).mono fun _ _ h => absurd h hs
  have hset : Minds κ p sure (fun r _ => sure → r = .ok ())
      (Errand.faulty (staff.fault ctx s)
        ((Store.inCell name policy Told.kept : Storage (Errand W S) S).setAside ctx s)) store := by
    refine Minds.bind hp (minds_beside hp hfault) ?_
    intro r _ _ hr
    cases r with
    | some e => exact minds_pure hp fun hs => nomatch hr hs
    | none => exact (minds_keep hp ctx hname).mono fun _ _ _ hr _ => hr
  refine Minds.bind hp hset ?_
  intro r _ _ hr
  cases r with
  | ok u => exact minds_pure hp trivial
  | error e =>
    refine Minds.bind hp (minds_tell hp fun hs => nomatch hr hs) ?_
    exact fun _ _ _ _ => minds_pure hp trivial

theorem tends_commit (hsure : sure → staff.Sure) (ctx : Context) {s : Stream S} (hs : p.fits store s) :
    Tends κ p sure (fun _ _ => True) ((staff.engine name policy).commit ctx s) store := by
  rw [Engine.commit]
  by_cases hc : s.hasChanges = true
  · rw [if_pos hc]
    have hne : s.changes ≠ [] := by simpa [Stream.hasChanges] using hc
    refine Tends.bind hp (tends_checkCancelled hp ctx) ?_
    intro _ store₁ hg₁ _
    refine Tends.bind hp (tends_mapError hp (minds_persist hp ctx (hp.stable hs hg₁) hne)) ?_
    intro _ store₂ _ hname
    refine Tends.bind hp (tends_lift hp (minds_publisher hp ctx s.changes)) ?_
    intro r store₃ _ _
    cases r with
    | ok u => exact tends_pure hp trivial
    | error source =>
      have hcompensate : Minds κ p sure (fun _ _ => True)
          ((staff.engine name policy).compensate ctx s source) store₃ := by
        refine Minds.bind hp (minds_beside hp (Fiber.yields_true _)) ?_
        intro _ _ _ _
        refine Minds.bind hp (minds_setAside hp hsure ctx hname) ?_
        intro r _ _ _
        cases r with
        | ok u => exact minds_pure hp trivial
        | error e =>
          refine Minds.bind hp (minds_beside hp (Fiber.yields_true _)) ?_
          exact fun _ _ _ _ => minds_pure hp trivial
      exact Tends.bind hp (tends_lift hp hcompensate) fun _ _ _ _ => tends_throw hp _
  · rw [if_neg hc]
    exact tends_pure hp trivial

/-- All controllers of an engine keep what fits. -/
def Keeps (p : Custody S) (staff : Staff W S) : Prop :=
  ∀ store, staff.Keeps (p.fits store)

theorem tends_carryOut (hsure : sure → staff.Sure) (hk : p.Keeps staff) (ctx : Context)
    (command : Command) :
    Tends κ p sure (fun _ _ => True)
      (ExceptT.mk ((staff.engine name policy).carryOut ctx command)) store := by
  refine Tends.bind hp (tends_checkCancelled hp ctx) ?_
  intro _ store₁ _ _
  dsimp only
  by_cases hn : command.streamName ≠ (staff.engine name policy).storage.name
  · rw [if_pos hn]
    exact Tends.bind hp (tends_throw hp (Q := fun _ _ => False) _) fun _ _ _ hf => hf.elim
  rw [if_neg hn]
  cases hc : (staff.engine name policy).commands.lookup command.name with
  | none => exact tends_throw hp _
  | some registered =>
    obtain ⟨n, c, hmem, rfl⟩ := Errand.mem_of_lookup hc
    refine Tends.bind hp (tends_openStream hp ctx _ _ _ _) ?_
    intro stream store₂ _ hs
    refine Tends.bind hp (tends_control hp (fun store => (hk store).commands n c hmem ctx command) hs) ?_
    rintro ⟨reply, stream'⟩ store₃ _ hs'
    have hcommit : ∀ (reply : Reply) store₄, p.grows store₃ store₄ →
        Tends κ p sure (fun _ _ => True)
          (do (staff.engine name policy).commit ctx stream'; return reply) store₄ := by
      intro reply store₄ hg
      refine Tends.bind hp (tends_commit hp hsure ctx (hp.stable hs' hg)) ?_
      exact fun _ _ _ _ => tends_pure hp trivial
    cases reply with
    | some reply => exact hcommit reply store₃ (hp.refl store₃)
    | none =>
      refine Tends.bind hp (tends_lift hp (minds_beside hp (Fiber.yields_true _))) ?_
      exact fun _ store₄ hg _ => hcommit _ store₄ hg

theorem tends_handleTargets (hsure : sure → staff.Sure) (ctx : Context) (event : Event) (mode : Mode)
    {controller : EventController (Fiber W) S}
    (hk : ∀ store, Revision.Keeps (p.fits store) (controller.handle ctx event)) (ids : List StreamId) :
    Tends κ p sure (fun _ _ => True)
      ((staff.engine name policy).handleTargets ctx event mode
        (Staff.event ⟨mode, controller⟩).controller ids) store := by
  induction ids generalizing store with
  | nil => exact tends_pure hp trivial
  | cons id rest ih =>
    refine Tends.bind hp (tends_openStream hp ctx _ _ _ _) ?_
    intro stream store₁ _ hs
    refine Tends.bind hp (tends_control hp hk hs) ?_
    rintro ⟨_, stream'⟩ store₂ _ hs'
    exact Tends.bind hp (tends_commit hp hsure ctx hs') fun _ _ _ _ => ih

theorem tends_takeIn (hsure : sure → staff.Sure) (hk : p.Keeps staff) (ctx : Context) (event : Event) :
    Tends κ p sure (fun _ _ => True) (ExceptT.mk ((staff.engine name policy).takeIn ctx event)) store := by
  have hastray : ∀ e store, Tends κ p sure (fun _ _ => True) ((staff.engine name policy).astray e)
      store := by
    intro e store
    rw [Engine.astray]
    split
    · exact tends_throw hp e
    · exact tends_pure hp trivial
  refine Tends.bind hp (tends_checkCancelled hp ctx) ?_
  intro _ store₁ _ _
  by_cases hi : (staff.engine name policy).ignored.contains event.name = true
  · rw [if_pos hi]
    exact hastray _ _
  rw [if_neg hi]
  cases hc : (staff.engine name policy).events.lookup event.name with
  | none => exact hastray _ _
  | some registered =>
    obtain ⟨n, c, hmem, rfl⟩ := Errand.mem_of_lookup hc
    dsimp only [Staff.event]
    cases (c.controller.pick event).ids with
    | nil => exact hastray _ _
    | cons id rest =>
      exact tends_handleTargets hp hsure ctx event c.mode (fun store => (hk store).events n c hmem ctx event)
        (id :: rest)

omit [Ambient (Fiber W)] in
theorem minds_pending (ctx : Context) (limit : Nat) :
    Minds κ p sure (fun _ _ => True) ((Errand.backlog : Backlog (Errand W S)).pending ctx limit) store := by
  have hread : Minds κ p sure (fun r _ => ∃ bs, r = .ok bs)
      (Cell.read Told.kept fun store => Except.ok (store.pending limit) :
        Errand W S (Except StorageError (List PendingBatch))) store :=
    minds_read hp fun _ _ => ⟨_, rfl⟩
  refine Minds.bind hp hread ?_
  rintro _ _ _ ⟨bs, rfl⟩
  exact Minds.bind hp (minds_tell hp fun _ _ => nofun) fun _ _ _ _ => minds_pure hp trivial

omit [Ambient (Fiber W)] in
theorem minds_acknowledge (ctx : Context) (batch : Nat) :
    Minds κ p sure (fun _ _ => True) ((Errand.backlog : Backlog (Errand W S)).acknowledge ctx batch)
      store := by
  have hact : Minds κ p sure (fun r _ => r = .ok ())
      (Told.kept.act fun store => (.ok (), store.acknowledge batch) :
        Errand W S (Except StorageError Unit)) store := by
    apply minds_act hp
    intro store' hi _
    obtain ⟨hi', hg'⟩ := hp.outbox (store'.outbox.acknowledge batch) hi
    exact ⟨hi', hg', rfl, by simp [Errand.recorded, Store.acknowledge]⟩
  refine Minds.bind hp hact ?_
  rintro _ _ _ rfl
  refine Minds.bind hp (minds_tell hp fun _ _ h => ?_) fun _ _ _ _ => minds_pure hp trivial
  cases h

theorem tends_deliver {publisher : Publisher (Fiber W)} {config : RelayConfig} (ctx : Context)
    (delivered : Nat) (batches : List PendingBatch) :
    Tends κ p sure (fun _ _ => True)
      ((Call.relay publisher config : Relay (Errand W S)).deliver ctx delivered batches) store := by
  induction batches generalizing delivered store with
  | nil => exact tends_pure hp trivial
  | cons b rest ih =>
    refine Tends.bind hp (tends_lift hp (minds_beside hp (Fiber.yields_true _))) ?_
    intro cancelled store₁ _ _
    cases cancelled with
    | true => exact tends_pure hp trivial
    | false =>
      refine Tends.bind hp (tends_mapError hp (Q := fun _ _ => True)
        ((minds_publisher hp ctx b.events).mono fun _ _ _ _ _ _ => trivial)) ?_
      intro _ store₂ _ _
      refine Tends.bind hp (tends_mapError hp (Q := fun _ _ => True)
        ((minds_acknowledge hp ctx b.id).mono fun _ _ _ _ _ _ => trivial)) ?_
      exact fun _ _ _ _ => ih (delivered + 1)

theorem tends_pass {publisher : Publisher (Fiber W)} {config : RelayConfig} (ctx : Context) :
    Tends κ p sure (fun _ _ => True)
      ((Call.relay publisher config : Relay (Errand W S)).pass ctx) store := by
  refine Tends.bind hp (tends_mapError hp (Q := fun _ _ => True)
    ((minds_pending hp ctx config.batch).mono fun _ _ _ _ _ _ => trivial)) ?_
  exact fun bs _ _ _ => tends_deliver hp ctx 0 bs

theorem minds_errand {call : Call W S} (hsure : sure → call.Sure)
    (hk : ∀ store, call.Keeps (p.fits store)) :
    Minds κ p sure (fun _ _ => True) (call.errand name policy) store := by
  cases call with
  | command staff ctx c =>
    exact Minds.bind hp (tends_carryOut hp hsure hk ctx c) fun _ _ _ _ => minds_pure hp trivial
  | event staff ctx e =>
    exact Minds.bind hp (tends_takeIn hp hsure hk ctx e) fun _ _ _ _ => minds_pure hp trivial
  | pass publisher config ctx =>
    exact Minds.bind hp (tends_pass hp ctx) fun _ _ _ _ => minds_pure hp trivial

/-- What is minded holds at every moment of a crowd of calls on one store. -/
theorem holds_crowd {codec : Codec} {calls : List (Call W S)} (hsure : sure → ∀ call ∈ calls, call.Sure)
    (hk : ∀ call ∈ calls, ∀ store, call.Keeps (p.fits store)) (hi : p.inv (.fresh name codec policy))
    (w : W) (moves : List (Move (W → W))) :
    (p.accord sure : Accord (Store S × W) Deed Outcome (W → W)).Holds
      ((Call.crowd name codec policy w calls).run Errand.rules moves) := by
  have hlawful := lawful_accord (W := W) (κ := Outcome) hp sure
  have hstart : (p.accord sure : Accord (Store S × W) Deed Outcome (W → W)).inv
      (.fresh name codec policy, w) [] := ⟨hi, fun _ => nofun⟩
  refine Accord.Holds.run hlawful (Accord.Holds.gather hlawful hstart (fun _ => trivial) ?_) moves
    fun _ => trivial
  intro i t ht h _ hinv _
  obtain ⟨call, hcall, rfl⟩ := List.mem_map.mp (List.mem_of_getElem? ht)
  have hminds : Minds Outcome p sure (fun _ _ => True) (call.errand name policy) (.fresh name codec policy) :=
    minds_errand hp (fun hs => hsure hs call hcall) (hk call hcall)
  refine (hminds i w h hinv.1 hinv.2).mono ?_
  exact fun o s h' hpost => ⟨fun _ => hpost.1, trivial⟩

end Engine

end Custody

end EventJournal
