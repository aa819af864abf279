import EventJournal.Proofs.Bus.Courtesy
import EventJournal.Proofs.Engine.Closing
import EventJournal.Proofs.Firm.Office

/-!
What engines and relays may do to the bus that they publish on. Their programs are civil: an act of theirs does no more
to the bus than a publisher or a subscriber may do, hires no worker and leaves alone what the handlers remember, and
events are noted as published only if lanes have accepted all of them. A program is mannered if it is civil whatever was
accepted before, and one that may end with an error is then called polite.
-/
namespace EventJournal

variable {H Y S ε α β : Type} {config : BusConfig} {seed : UInt32}

namespace Errand

/-- Every act is civil, and nothing is said to be published that was not among the events accepted so far.
These are `acc` before the program, and with them it comes to `post`. -/
def Civil (config : BusConfig) (seed : UInt32) (post : α → List Event → Prop) :
    Errand (Office H Y) S α → List Event → Prop
  | .done a, acc => post a acc
  | .note d rest, acc => (∀ es, d = .published es → es ⊆ acc) ∧ Civil config seed post rest acc
  | .act ready effect next, acc => ∀ s, s.2.bus.Shaped config seed → ready s = true →
      (Bus.Visit config seed s.2.bus (effect s).2.bus ∧ (effect s).2.hired = s.2.hired ∧
        (effect s).2.diaries = s.2.diaries) ∧
      Civil config seed post (next s) (acc ++ Bus.arrivals (Bus.arrived s.2.bus (effect s).2.bus))

theorem Civil.bind {post : β → List Event → Prop} {t : Errand (Office H Y) S α}
    {f : α → Errand (Office H Y) S β} {acc : List Event}
    (ht : Civil config seed (fun a => Civil config seed post (f a)) t acc) :
    Civil config seed post (t.bind f) acc := by
  induction t generalizing acc with
  | done a => exact ht
  | note d rest ih => exact ⟨ht.1, ih ht.2⟩
  | act ready effect next ih =>
    intro s hs hr
    obtain ⟨hv, hn⟩ := ht s hs hr
    exact ⟨hv, ih s hn⟩

theorem Civil.mono {post post' : α → List Event → Prop} {t : Errand (Office H Y) S α} {acc : List Event}
    (ht : Civil config seed post t acc) (hp : ∀ a acc, post a acc → post' a acc) :
    Civil config seed post' t acc := by
  induction t generalizing acc with
  | done a => exact hp a acc ht
  | note d rest ih => exact ⟨ht.1, ih ht.2⟩
  | act ready effect next ih =>
    intro s hs hr
    obtain ⟨hv, hn⟩ := ht s hs hr
    exact ⟨hv, ih s hn⟩

/-- One civil act. -/
theorem civil_await {ready : Office H Y → Bool} {f : Office H Y → α × Office H Y}
    {post : α → List Event → Prop} {acc : List Event} (hf : ∀ w, w.bus.Shaped config seed →
      (Bus.Visit config seed w.bus (f w).2.bus ∧ (f w).2.hired = w.hired ∧ (f w).2.diaries = w.diaries) ∧
        post (f w).1 (acc ++ Bus.arrivals (Bus.arrived w.bus (f w).2.bus))) :
    Civil config seed post (Told.beside (Fiber.await ready f) : Errand (Office H Y) S α) acc :=
  fun s hs _ => hf s.2 hs

/-- Civil whatever was accepted before, and with any result. -/
def Mannered (config : BusConfig) (seed : UInt32) (t : Errand (Office H Y) S α) : Prop :=
  ∀ acc, Civil config seed (fun _ _ => True) t acc

theorem mannered_pure (a : α) : Mannered config seed (pure a : Errand (Office H Y) S α) :=
  fun _ => trivial

theorem Mannered.bind {t : Errand (Office H Y) S α} {f : α → Errand (Office H Y) S β}
    (ht : Mannered config seed t) (hf : ∀ a, Mannered config seed (f a)) :
    Mannered config seed (t >>= f) :=
  fun acc => Civil.bind ((ht acc).mono fun a acc' _ => hf a acc')

theorem mannered_beside {t : Fiber (Office H Y) α} (ht : t.Civil config seed) :
    Mannered config seed (Told.beside t : Errand (Office H Y) S α) := by
  induction t with
  | done a => exact fun _ => trivial
  | act ready effect next ih =>
    intro acc s hs hr
    obtain ⟨hv, hn⟩ := ht s.2 hs hr
    exact ⟨hv, ih s.2 hn _⟩

theorem mannered_perform {f : Office H Y → α × Office H Y} (hb : ∀ w, (f w).2.bus = w.bus)
    (hh : ∀ w, (f w).2.hired = w.hired) (hd : ∀ w, (f w).2.diaries = w.diaries) :
    Mannered config seed (Told.beside (Fiber.perform f) : Errand (Office H Y) S α) := by
  refine mannered_beside (Fiber.abides_perform fun w _ => ⟨?_, hh w, hd w⟩)
  rw [hb w]
  exact .none

/-- An act on the store. -/
theorem mannered_act (f : Store S → α × Store S) :
    Mannered config seed (Told.kept.act f : Errand (Office H Y) S α) :=
  fun _ _ _ _ => ⟨⟨.none, rfl, rfl⟩, trivial⟩

theorem mannered_tell {d : Deed} (hd : ∀ es, d ≠ .published es) :
    Mannered config seed (Told.tell d : Errand (Office H Y) S Unit) :=
  fun _ => ⟨fun es he => absurd he (hd es), trivial⟩

section Publish

open Bus

theorem arrivals_arrived {bus bus' : Bus H} {event : Event} (hb : Brings config seed bus event bus') :
    arrivals (arrived bus bus') = [event] := by
  rw [arrived, hb.gains_eq]
  rfl

/-- Who sends an event without an error has brought it to its lane. -/
theorem civil_send (ctx : Context) (event : Event) (acc : List Event) :
    Civil config seed (fun r acc' => acc ⊆ acc' ∧ (r = .ok () → event ∈ acc'))
      (Told.beside (send ctx event).run : Errand (Office H Y) S (Except PublishError Unit)) acc := by
  have hmore : ∀ more : List Event, acc ⊆ acc ++ more := fun more => List.subset_append_left acc more
  rw [run_send, Told.beside_bind]
  refine Civil.bind (civil_await fun w hs => ⟨⟨.none, rfl, rfl⟩, ?_⟩)
  rw [arrived_self, arrivals_nil, List.append_nil]
  cases hr : w.bus.route event with
  | error e => exact ⟨List.Subset.refl acc, fun hf => by cases hf⟩
  | ok id =>
    rw [hs.route_eq hr]
    dsimp only
    rw [Told.beside_bind]
    refine Civil.bind (civil_await fun w₁ hs₁ => ⟨⟨.offer event _, rfl, rfl⟩, ?_⟩)
    obtain ⟨he, hb⟩ | ⟨⟨e, he⟩ | ⟨ticket, he⟩, hq, -⟩ := offer_cases hs₁ event (w₁.isCancelled ctx)
    · simp only [World.onBus, he, arrivals_arrived hb]
      exact ⟨hmore _, fun _ => List.mem_append_right _ (List.mem_singleton.mpr rfl)⟩
    · simp only [World.onBus, he]
      exact ⟨hmore _, fun hf => by cases hf⟩
    · simp only [World.onBus, he, arrived_eq_nil hq.gains_eq, arrivals_nil, List.append_nil]
      refine civil_await fun w₂ hs₂ => ⟨⟨.claim ticket event _, rfl, rfl⟩, ?_⟩
      obtain ⟨-, hb⟩ | ⟨⟨e, he⟩, -⟩ := claim_cases hs₂ ticket event (w₂.isCancelled ctx)
      · simp only [arrivals_arrived hb]
        exact ⟨hmore _, fun _ => List.mem_append_right _ (List.mem_singleton.mpr rfl)⟩
      · simp only [he]
        exact ⟨hmore _, fun hf => by cases hf⟩

theorem civil_publisher (ctx : Context) (events acc : List Event) :
    Civil config seed (fun r acc' => acc ⊆ acc' ∧ (r = .ok () → events ⊆ acc'))
      (Told.beside (Bus.publisher ctx events) : Errand (Office H Y) S (Except PublishError Unit)) acc := by
  induction events generalizing acc with
  | nil => exact ⟨List.Subset.refl acc, fun _ => List.nil_subset acc⟩
  | cons event rest ih =>
    change Civil config seed _ (Told.beside ((send ctx event).run.bind _)) acc
    rw [Told.beside_bind]
    refine Civil.bind ((civil_send ctx event acc).mono ?_)
    rintro r acc₁ ⟨hsub, hin⟩
    cases r with
    | error e => exact ⟨hsub, fun hf => by cases hf⟩
    | ok u =>
      refine (ih acc₁).mono ?_
      rintro r acc₂ ⟨hsub', hrest⟩
      refine ⟨List.Subset.trans hsub hsub', ?_⟩
      intro hr
      exact List.cons_subset.mpr ⟨hsub' (hin rfl), hrest hr⟩

/-- Who publishes on the bus, interrupted or not, says no more than what came of it. -/
theorem mannered_publisher {p : Publisher (Fiber (Office H Y))} (hp : Firm.Publishes config seed p)
    (ctx : Context) (events : List Event) :
    Mannered config seed (Errand.publisher p ctx events : Errand (Office H Y) S _) := by
  obtain ⟨plan, hplan, rfl⟩ := hp
  refine Mannered.bind (mannered_tell fun _ => nofun) ?_
  intro _ acc
  have hsent : Civil config seed (fun r acc' => r = .ok () → events ⊆ acc')
      (Told.beside (interrupted plan ctx events) : Errand (Office H Y) S _) acc := by
    change Civil config seed _ (Told.beside ((plan ctx events).bind _)) acc
    rw [Told.beside_bind]
    refine Civil.bind ((mannered_beside (hplan ctx events) acc).mono ?_)
    intro cut acc₁ _
    cases cut with
    | none => exact (civil_publisher ctx events acc₁).mono fun r acc₂ h => h.2
    | some cut =>
      obtain ⟨n, reason⟩ := cut
      change Civil config seed _ (Told.beside ((Bus.publisher ctx (events.take n)).bind _)) acc₁
      rw [Told.beside_bind]
      refine Civil.bind ((civil_publisher ctx (events.take n) acc₁).mono ?_)
      exact fun _ _ _ hf => by cases hf
  refine Civil.bind (hsent.mono ?_)
  intro r acc₁ hr
  cases r with
  | ok u =>
    refine ⟨?_, trivial⟩
    intro es he
    cases he
    exact hr rfl
  | error e => exact ⟨fun _ => nofun, trivial⟩

end Publish

/-- A mannered part of an engine or a relay. -/
def Polite (config : BusConfig) (seed : UInt32) (x : ExceptT ε (Errand (Office H Y) S) α) : Prop :=
  Mannered config seed x.run

theorem Polite.bind {x : ExceptT ε (Errand (Office H Y) S) α} {f : α → ExceptT ε (Errand (Office H Y) S) β}
    (hx : Polite config seed x) (hf : ∀ a, Polite config seed (f a)) : Polite config seed (x >>= f) := by
  rw [Polite, ExceptT.run_bind]
  refine Mannered.bind hx ?_
  intro r
  cases r with
  | ok a => exact hf a
  | error e => exact mannered_pure _

theorem polite_pure (a : α) : Polite config seed (pure a : ExceptT ε (Errand (Office H Y) S) α) :=
  mannered_pure _

theorem polite_throw (e : ε) : Polite config seed (throw e : ExceptT ε (Errand (Office H Y) S) α) :=
  mannered_pure _

theorem polite_lift {t : Errand (Office H Y) S α} (ht : Mannered config seed t) :
    Polite config seed (liftM t : ExceptT ε (Errand (Office H Y) S) α) :=
  Mannered.bind ht fun _ => mannered_pure _

theorem polite_mapError {ε' : Type} {f : ε' → ε} {t : Errand (Office H Y) S (Except ε' α)}
    (ht : Mannered config seed t) :
    Polite config seed (ExceptT.mk do return (← t).mapError f : ExceptT ε (Errand (Office H Y) S) α) :=
  Mannered.bind ht fun _ => mannered_pure _

section Engine

theorem mannered_isCancelled (ctx : Context) :
    Mannered config seed (Ambient.isCancelled ctx : Errand (Office H Y) S Bool) :=
  mannered_perform (fun _ => rfl) (fun _ => rfl) fun _ => rfl

theorem mannered_record (r : Record) :
    Mannered config seed (Ambient.record r : Errand (Office H Y) S Unit) :=
  mannered_perform (fun _ => rfl) (fun _ => rfl) fun _ => rfl

theorem mannered_now : Mannered config seed (Ambient.now : Errand (Office H Y) S Timestamp) :=
  mannered_perform (fun _ => rfl) (fun _ => rfl) fun _ => rfl

theorem mannered_stamp : Mannered config seed (Ambient.stamp : Errand (Office H Y) S Stamp) :=
  mannered_perform (fun _ => rfl) (fun _ => rfl) fun _ => rfl

theorem polite_checkCancelled (ctx : Context) : Polite config seed
    (Engine.checkCancelled ctx : ExceptT EngineError (Errand (Office H Y) S) Unit) := by
  refine (polite_lift (mannered_isCancelled ctx)).bind ?_
  intro cancelled
  cases cancelled with
  | true => exact polite_throw EngineError.cancelled
  | false => exact polite_pure ()

theorem polite_control {work : Revision (Fiber (Office H Y)) S α}
    (hw : ∀ s, (work.run.run s).Civil config seed) (stream : Stream S) :
    Polite config seed (Engine.control (Errand.revision work) stream) := by
  refine Mannered.bind (mannered_beside (hw stream)) ?_
  rintro ⟨r, stream'⟩
  cases r with
  | ok a => exact mannered_pure _
  | error e => exact mannered_pure _

variable [State S] {name : String} {policy : VersionPolicy} {staff : Staff (Office H Y) S}

theorem polite_openStream (ctx : Context) (mode : Mode) (id : Option StreamId) (owner : Option OwnerId)
    (subject : String) :
    Polite config seed ((staff.engine name policy).openStream ctx mode id owner subject) := by
  cases mode with
  | create =>
    have hblank : Mannered config seed (staff.engine name policy).storage.blank :=
      Mannered.bind mannered_stamp fun _ => mannered_pure _
    exact (polite_lift hblank).bind fun _ => polite_pure _
  | load =>
    cases id with
    | none => exact polite_throw _
    | some id =>
      have hload : Mannered config seed ((staff.engine name policy).storage.load ctx id owner) :=
        mannered_act fun store => (store.load id owner, store)
      exact polite_mapError hload

theorem mannered_persist (ctx : Context) (s : Stream S) :
    Mannered config seed ((staff.engine name policy).storage.persist ctx s) := by
  change Mannered config seed (Told.kept.attempt (·.persist s) >>= _)
  refine Mannered.bind (mannered_act _) ?_
  intro r
  cases r with
  | ok u => exact Mannered.bind (mannered_tell fun _ => nofun) fun _ => mannered_pure _
  | error e => exact mannered_pure _

variable (hs : Firm.Employs config seed staff)
include hs

theorem mannered_setAside (ctx : Context) (s : Stream S) :
    Mannered config seed ((staff.engine name policy).storage.setAside ctx s) := by
  have hfault : (staff.fault ctx s).Civil config seed := by
    rw [hs.faultless]
    exact Fiber.abides_pure _
  refine Mannered.bind (Mannered.bind (mannered_beside hfault) ?_) ?_
  · intro fault
    cases fault with
    | some e => exact mannered_pure _
    | none =>
      refine Mannered.bind mannered_now fun now => Mannered.bind (mannered_act _) ?_
      intro r
      cases r with
      | ok batch => exact Mannered.bind (mannered_record _) fun _ => mannered_pure _
      | error e => exact mannered_pure _
  · intro r
    cases r with
    | ok u => exact mannered_pure _
    | error e => exact Mannered.bind (mannered_tell fun _ => nofun) fun _ => mannered_pure _

theorem polite_commit (ctx : Context) (stream : Stream S) :
    Polite config seed ((staff.engine name policy).commit ctx stream) := by
  rw [Engine.commit]
  split
  · refine (polite_checkCancelled ctx).bind fun _ => (polite_mapError (mannered_persist ctx stream)).bind ?_
    intro _
    refine (polite_lift (mannered_publisher hs.publisher ctx stream.changes)).bind ?_
    intro r
    cases r with
    | ok u => exact polite_pure _
    | error source =>
      have hcompensate : Mannered config seed ((staff.engine name policy).compensate ctx stream source) := by
        refine Mannered.bind (mannered_record _) fun _ => Mannered.bind (mannered_setAside hs ctx stream) ?_
        intro r
        cases r with
        | ok u => exact mannered_pure _
        | error e => exact Mannered.bind (mannered_record _) fun _ => mannered_pure _
      exact (polite_lift hcompensate).bind fun e => polite_throw e
  · exact polite_pure _

theorem mannered_carryOut (ctx : Context) (command : Command) :
    Mannered config seed ((staff.engine name policy).carryOut ctx command) := by
  refine Polite.bind (polite_checkCancelled ctx) ?_
  intro _
  dsimp only
  by_cases hn : command.streamName ≠ (staff.engine name policy).storage.name
  · rw [if_pos hn]
    exact fun _ => trivial
  rw [if_neg hn]
  cases hc : (staff.engine name policy).commands.lookup command.name with
  | none => exact polite_throw _
  | some registered =>
    obtain ⟨n, c, hmem, rfl⟩ := mem_of_lookup hc
    refine (polite_openStream ctx _ _ _ _).bind fun stream => ?_
    refine (polite_control (hs.commands n c hmem ctx command) stream).bind ?_
    rintro ⟨reply, stream'⟩
    have hcommit : ∀ reply : Reply, Polite config seed
        (do (staff.engine name policy).commit ctx stream'; return reply) :=
      fun _ => (polite_commit hs ctx stream').bind fun _ => polite_pure _
    cases reply with
    | some reply => exact hcommit reply
    | none => exact (polite_lift mannered_now).bind fun _ => hcommit _

theorem polite_handleTargets (ctx : Context) (event : Event) (mode : Mode)
    {controller : EventController (Fiber (Office H Y)) S}
    (hc : ∀ s, ((controller.handle ctx event).run.run s).Civil config seed) (ids : List StreamId) :
    Polite config seed ((staff.engine name policy).handleTargets ctx event mode
      (Staff.event ⟨mode, controller⟩).controller ids) := by
  induction ids with
  | nil => exact polite_pure ()
  | cons id rest ih =>
    refine (polite_openStream ctx _ _ _ _).bind fun stream => (polite_control hc stream).bind ?_
    rintro ⟨_, stream'⟩
    exact (polite_commit hs ctx stream').bind fun _ => ih

theorem mannered_takeIn (ctx : Context) (event : Event) :
    Mannered config seed ((staff.engine name policy).takeIn ctx event) := by
  have hastray : ∀ e, Polite config seed ((staff.engine name policy).astray e) := by
    intro e
    rw [Engine.astray]
    split
    · exact polite_throw e
    · exact polite_pure ()
  refine Polite.bind (polite_checkCancelled ctx) ?_
  intro _
  by_cases hi : (staff.engine name policy).ignored.contains event.name = true
  · rw [if_pos hi]
    exact hastray _
  rw [if_neg hi]
  cases hc : (staff.engine name policy).events.lookup event.name with
  | none => exact hastray _
  | some registered =>
    obtain ⟨n, c, hmem, rfl⟩ := mem_of_lookup hc
    dsimp only [Staff.event]
    cases (c.controller.pick event).ids with
    | nil => exact hastray _
    | cons id rest =>
      exact polite_handleTargets hs ctx event c.mode (hs.events n c hmem ctx event) (id :: rest)

end Engine

section Relay

variable {p : Publisher (Fiber (Office H Y))} (hp : Firm.Publishes config seed p) {relaying : RelayConfig}
include hp

theorem polite_deliver (ctx : Context) (delivered : Nat) (batches : List PendingBatch) :
    Polite config seed
      ((Call.relay p relaying : Relay (Errand (Office H Y) S)).deliver ctx delivered batches) := by
  induction batches generalizing delivered with
  | nil => exact polite_pure _
  | cons b rest ih =>
    refine (polite_lift (mannered_isCancelled ctx)).bind ?_
    intro cancelled
    cases cancelled with
    | true => exact polite_pure _
    | false =>
      have hacknowledge : Mannered config seed
          ((Errand.backlog : Backlog (Errand (Office H Y) S)).acknowledge ctx b.id) := by
        refine Mannered.bind (mannered_act fun store => (Except.ok (), store.acknowledge b.id)) ?_
        intro r
        cases r with
        | ok u => exact Mannered.bind (mannered_tell fun _ => nofun) fun _ => mannered_pure _
        | error e => exact mannered_pure _
      refine (polite_mapError (mannered_publisher hp ctx b.events)).bind fun _ => ?_
      exact (polite_mapError hacknowledge).bind fun _ => ih (delivered + 1)

theorem polite_pass (ctx : Context) :
    Polite config seed ((Call.relay p relaying : Relay (Errand (Office H Y) S)).pass ctx) := by
  have hpending : Mannered config seed
      ((Errand.backlog : Backlog (Errand (Office H Y) S)).pending ctx relaying.batch) := by
    refine Mannered.bind (mannered_act fun store => (Except.ok (store.pending relaying.batch), store)) ?_
    intro r
    cases r with
    | ok bs => exact Mannered.bind (mannered_tell fun _ => nofun) fun _ => mannered_pure _
    | error e => exact mannered_pure _
  exact (polite_mapError hpending).bind fun bs => polite_deliver hp ctx 0 bs

end Relay

/-- The calls of a firm are mannered. -/
theorem mannered_errand [State S] {name : String} {policy : VersionPolicy} {call : Call (Office H Y) S}
    (hc : Firm.Serves config seed call) : Mannered config seed (call.errand name policy) := by
  cases call with
  | command staff ctx command => exact (mannered_carryOut hc ctx command).bind fun _ => mannered_pure _
  | event staff ctx event => exact (mannered_takeIn hc ctx event).bind fun _ => mannered_pure _
  | pass p relaying ctx => exact Mannered.bind (polite_pass hc ctx) fun _ => mannered_pure _

end Errand

end EventJournal
