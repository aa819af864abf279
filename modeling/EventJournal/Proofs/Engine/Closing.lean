import EventJournal.Proofs.Engine.Conduct

/-!
Whole calls of engines and relays. Each starts with nothing owed and ends so, and only an engine that lost
changes may say that it did. What every deed keeps therefore holds at every moment of a crowd of calls.
-/
namespace EventJournal

open History

variable {W S κ α β : Type}

namespace Errand

variable {P : Stream S → Prop} {name : String} {policy : VersionPolicy}
  {inv : Store S → List (Nat × Deed) → Prop} {ended : List Deed → κ → Prop}

/-- A job owes nothing. Since before it has lost no changes, or says with its error that it has. -/
def Closed (Q : α → Prop) (before after : List Deed) (r : Except EngineError α) : Prop :=
  (phase after).AtRest ∧ ∃ ds, after = before ++ ds ∧
    match r with
    | .ok a => Q a ∧ ∀ p, .lost p ∉ ds
    | .error e => (∃ p, .lost p ∈ ds) → ∃ source reason, e = .publishFailed source (some reason)

/-- Whoever lost changes comes back with an error that says so. -/
theorem Closed.confessed {Q : α → Prop} {before after : List Deed} {r : Except EngineError α}
    (hc : Closed Q before after r) :
    ∃ ds, after = before ++ ds ∧
      ((∃ p, .lost p ∈ ds) → ∃ source reason, r = .error (.publishFailed source (some reason))) := by
  obtain ⟨-, ds, ho, hr⟩ := hc
  refine ⟨ds, ho, ?_⟩
  rintro ⟨p, hp⟩
  cases r with
  | ok a => exact absurd hp (hr.2 p)
  | error e =>
    obtain ⟨source, reason, rfl⟩ := hr ⟨p, hp⟩
    exact ⟨source, reason, rfl⟩

/-- Who does nothing more is closed with any result that is as it should be. -/
theorem closed_self {Q : α → Prop} {deeds : List Deed} {r : Except EngineError α}
    (hd : (phase deeds).AtRest) (hr : ∀ a, r = .ok a → Q a) : Closed Q deeds deeds r := by
  refine ⟨hd, [], (List.append_nil deeds).symm, ?_⟩
  cases r with
  | ok a =>
    constructor
    · exact hr a rfl
    · simp
  | error e => simp

/-- A part of an engine that starts and ends with nothing owed. -/
def Closes (inv : Store S → List (Nat × Deed) → Prop) (ended : List Deed → κ → Prop) (Q : α → Prop)
    (x : ExceptT EngineError (Errand W S) α) : Prop :=
  ∀ i s h, inv s.1 h → (phase (own i h)).AtRest →
    (pact inv ended).Safe i (fun r s' h' => inv s'.1 h' ∧ Closed Q (own i h) (own i h') r) x.run s h

theorem Closes.bind {Q : α → Prop} {R : β → Prop} {x : ExceptT EngineError (Errand W S) α}
    {f : α → ExceptT EngineError (Errand W S) β} (hx : Closes inv ended Q x)
    (hf : ∀ a, Q a → Closes inv ended R (f a)) : Closes inv ended R (x >>= f) := by
  intro i s h hb hd
  rw [ExceptT.run_bind]
  refine Pact.Safe.bind ((hx i s h hb hd).mono ?_)
  rintro r s' h' ⟨hb', hd', ds, ho, hr⟩
  cases r with
  | error e => exact ⟨hb', hd', ds, ho, hr⟩
  | ok a =>
    obtain ⟨hq, hno⟩ := hr
    refine (hf a hq i s' h' hb' hd').mono ?_
    rintro r s'' h'' ⟨hb'', hd'', ds', ho', hr'⟩
    have hboth : own i h'' = own i h ++ (ds ++ ds') := by
      rw [ho', ho, List.append_assoc]
    -- the first part has lost nothing, or there would be no second
    have hsecond : ∀ p, .lost p ∈ ds ++ ds' → .lost p ∈ ds' :=
      fun p hp => (List.mem_append.mp hp).resolve_left (hno p)
    refine ⟨hb'', hd'', ds ++ ds', hboth, ?_⟩
    cases r with
    | ok b =>
      constructor
      · exact hr'.1
      · exact fun p hp => hr'.2 p (hsecond p hp)
    | error e =>
      rintro ⟨p, hp⟩
      exact hr' ⟨p, hsecond p hp⟩

/-- What is idle closes, with whatever is known of its result. -/
theorem closes_idle {Q : α → Prop} {t : Errand W S (Except EngineError α)}
    (ht : Idle inv ended (fun r => ∀ a, r = .ok a → Q a) t) :
    Closes inv ended Q (ExceptT.mk t) := by
  intro i s h hb hd
  apply ht i s h _ hb
  intro r s' h' hr hb' ho
  rw [ho]
  exact ⟨hb', closed_self hd hr⟩

theorem closes_pure {Q : α → Prop} {a : α} (ha : Q a) :
    Closes inv ended Q (pure a : ExceptT EngineError (Errand W S) α) :=
  closes_idle (idle_pure fun _ he => by cases he; exact ha)

theorem closes_throw {Q : α → Prop} (e : EngineError) :
    Closes inv ended Q (throw e : ExceptT EngineError (Errand W S) α) :=
  closes_idle (idle_pure fun _ he => by cases he)

theorem closes_lift {Q : α → Prop} {t : Errand W S α} (ht : Idle inv ended Q t) :
    Closes inv ended Q (liftM t : ExceptT EngineError (Errand W S) α) :=
  closes_idle (ht.bind fun _ ha => idle_pure fun _ he => by cases he; exact ha)

section Engine

/-- A controller that is registered beside the store comes from the staff. -/
theorem mem_of_lookup {A B : Type} {f : A → B} {entries : List (String × A)} {key : String} {b : B}
    (hb : (entries.map fun (n, a) => (n, f a)).lookup key = some b) :
    ∃ n a, (n, a) ∈ entries ∧ f a = b := by
  obtain ⟨l, r, he, -⟩ := List.lookup_eq_some_iff.mp hb
  have hmem : (key, b) ∈ entries.map fun (n, a) => (n, f a) := by
    rw [he]
    simp
  obtain ⟨⟨n, a⟩, hna, he⟩ := List.mem_map.mp hmem
  exact ⟨n, a, hna, (Prod.mk.inj he).2⟩

theorem closes_checkCancelled [Ambient (Fiber W)] (ctx : Context) :
    Closes inv ended (fun _ => True)
      (Engine.checkCancelled ctx : ExceptT EngineError (Errand W S) Unit) := by
  refine (closes_lift (idle_beside (Fiber.yields_true _))).bind ?_
  intro cancelled _
  cases cancelled with
  | true => exact closes_throw .cancelled
  | false => exact closes_pure trivial

/-- A controller that keeps `P` leads to a stream with `P`. -/
theorem closes_control {work : Revision (Fiber W) S α} (hw : Revision.Keeps P work) {stream : Stream S}
    (hs : P stream) :
    Closes inv ended (fun r => P r.2) (Engine.control (revision work) stream) := by
  refine closes_idle ((idle_beside (hw stream hs)).bind ?_)
  rintro ⟨r, stream'⟩ hr
  cases r with
  | ok a => exact idle_pure fun _ he => by cases he; exact hr a rfl
  | error e => exact idle_pure fun _ he => by cases he

variable [Ambient (Fiber W)] [State S] {staff : Staff W S} (hu : Upheld P name policy inv)
include hu

theorem closes_openStream (ctx : Context) (mode : Mode) (id : Option StreamId)
    (owner : Option OwnerId) (subject : String) :
    Closes inv ended P ((staff.engine name policy).openStream ctx mode id owner subject) := by
  cases mode with
  | create =>
    have hblank : Idle inv ended (fun s => ∃ stamp, s = (Stream.blank name stamp).withPolicy policy)
        (staff.engine name policy).storage.blank :=
      (idle_beside (Fiber.yields_true _)).bind fun stamp _ => idle_pure ⟨stamp, rfl⟩
    refine (closes_lift hblank).bind ?_
    rintro s ⟨stamp, rfl⟩
    exact closes_pure (hu.blank stamp _ owner)
  | load =>
    cases id with
    | none => exact closes_throw _
    | some id =>
      have hload : Idle inv ended (fun r => ∀ s, r = .ok s → P s)
          ((staff.engine name policy).storage.load ctx id owner) :=
        idle_read (f := fun store => store.load id owner) fun store h hb s hs => hu.load hb hs
      refine closes_idle (hload.bind ?_)
      intro r hr
      cases r with
      | ok s => exact idle_pure fun _ he => by cases he; exact hr s rfl
      | error e => exact idle_pure fun _ he => by cases he

/-- Changes that could not be published are set aside, or lost with an error that says so. -/
theorem safe_compensate {stream : Stream S} {source : PublishError} {ctx : Context} {i : Nat}
    {s : Store S × W} {h : List (Nat × Deed)} (hb : inv s.1 h)
    (hf : phase (own i h) = .owes stream.parcel) :
    (pact inv ended).Safe i
      (fun e s' h' => inv s'.1 h' ∧
        (own i h' = own i h ++ [.kept stream.parcel] ∨ own i h' = own i h ++ [.lost stream.parcel] ∧
          ∃ reason, e = .publishFailed source (some reason)))
      ((staff.engine name policy).compensate ctx stream source) s h := by
  refine Pact.Safe.bind (idle_beside (Fiber.yields_true _) i s h _ hb ?_)
  intro _ s₁ h₁ _ hb₁ ho₁
  refine Pact.Safe.bind (safe_setAside hu hb₁ (by rw [ho₁]; exact hf) ?_ ?_)
  · intro s₂ h₂ hb₂ ho₂
    exact ⟨hb₂, .inl (by rw [ho₂, ho₁])⟩
  · intro e s₂ h₂ hb₂ ho₂
    refine Pact.Safe.bind (idle_beside (Fiber.yields_true _) i s₂ h₂ _ hb₂ ?_)
    intro _ s₃ h₃ _ hb₃ ho₃
    exact ⟨hb₃, .inr ⟨by rw [ho₃, ho₂, ho₁], e, rfl⟩⟩

/-- After storing, the changes are published, or set aside, or lost with an error that says so. -/
theorem closes_commit (ctx : Context) {stream : Stream S} (hs : P stream) :
    Closes inv ended (fun _ => True) ((staff.engine name policy).commit ctx stream) := by
  rw [Engine.commit]
  by_cases hc : stream.hasChanges = true
  · rw [if_pos hc]
    have hne : stream.changes ≠ [] := by simpa [Stream.hasChanges] using hc
    refine (closes_checkCancelled ctx).bind ?_
    intro _ _ i s h hb hd
    rw [ExceptT.run_bind]
    refine Pact.Safe.bind (Pact.Safe.bind (safe_persist hu hb hd hs hne ?_ ?_))
    · intro s₁ h₁ hb₁ ho₁
      have hf₁ : phase (own i h₁) = .owes stream.parcel := by
        rw [ho₁, phase_concat, Phase.after_stored]
      refine Pact.Safe.bind (Pact.Safe.bind (safe_publisher hu hb₁ (by rw [hf₁]; rfl) ?_ ?_))
      · intro s₂ h₂ hb₂ ho₂
        have hf₂ : phase (own i h₂) = .free := by
          rw [ho₂, phase_concat, phase_concat, hf₁]
          rfl
        have hown : own i h₂ = own i h ++
            [.stored stream.parcel, .handed stream.changes, .published stream.changes] := by
          simp [ho₂, ho₁]
        exact ⟨hb₂, by rw [hf₂]; trivial, _, hown, trivial, by simp⟩
      · intro source s₂ h₂ hb₂ ho₂
        have hf₂ : phase (own i h₂) = .owes stream.parcel := by
          rw [ho₂, phase_concat, phase_concat, Phase.after_handed, Phase.after_refused, hf₁]
        refine Pact.Safe.bind (Pact.Safe.bind ((safe_compensate hu hb₂ hf₂).mono ?_))
        rintro e s₃ h₃ ⟨hb₃, ho₃ | ⟨ho₃, reason, rfl⟩⟩
        · have hf₃ : phase (own i h₃) = .free := by
            rw [ho₃, phase_concat, hf₂]
            rfl
          have hown : own i h₃ = own i h ++ [.stored stream.parcel, .handed stream.changes,
              .refused stream.changes, .kept stream.parcel] := by
            simp [ho₃, ho₂, ho₁]
          exact ⟨hb₃, by rw [hf₃]; trivial, _, hown, by simp⟩
        · have hf₃ : phase (own i h₃) = .free := by
            rw [ho₃, phase_concat, hf₂]
            rfl
          have hown : own i h₃ = own i h ++ [.stored stream.parcel, .handed stream.changes,
              .refused stream.changes, .lost stream.parcel] := by
            simp [ho₃, ho₂, ho₁]
          exact ⟨hb₃, by rw [hf₃]; trivial, _, hown, fun _ => ⟨source, reason, rfl⟩⟩
    · intro e s₁ h₁ hb₁ ho₁
      have hclosed : Closed (fun _ : Unit => True) (own i h) (own i h₁) (.error (.ofPersist e)) := by
        rw [ho₁]
        exact closed_self hd fun _ he => by cases he
      exact ⟨hb₁, hclosed⟩
  · rw [if_neg hc]
    exact closes_pure trivial

theorem closes_carryOut (hk : staff.Keeps P) (ctx : Context) (command : Command) :
    Closes inv ended (fun _ => True)
      (ExceptT.mk ((staff.engine name policy).carryOut ctx command)) := by
  refine (closes_checkCancelled ctx).bind ?_
  intro _ _
  dsimp only
  by_cases hn : command.streamName ≠ (staff.engine name policy).storage.name
  · rw [if_pos hn]
    exact (closes_throw (Q := fun _ => False) _).bind fun _ hf => hf.elim
  rw [if_neg hn]
  cases hc : (staff.engine name policy).commands.lookup command.name with
  | none => exact closes_throw _
  | some registered =>
    obtain ⟨n, c, hmem, rfl⟩ := mem_of_lookup hc
    refine (closes_openStream hu ctx _ _ _ _).bind ?_
    intro stream hs
    refine (closes_control (hk.commands n c hmem ctx command) hs).bind ?_
    rintro ⟨reply, stream'⟩ hs'
    have hcommit : ∀ reply : Reply, Closes inv ended (fun _ => True)
        (do (staff.engine name policy).commit ctx stream'; return reply) :=
      fun _ => (closes_commit hu ctx hs').bind fun _ _ => closes_pure trivial
    cases reply with
    | some reply => exact hcommit reply
    | none => exact (closes_lift (idle_beside (Fiber.yields_true _))).bind fun _ _ => hcommit _

/-- The streams that an event concerns are worked on one after the other. -/
theorem closes_handleTargets (ctx : Context) (event : Event) (mode : Mode)
    {controller : EventController (Fiber W) S}
    (hk : Revision.Keeps P (controller.handle ctx event)) (ids : List StreamId) :
    Closes inv ended (fun _ => True)
      ((staff.engine name policy).handleTargets ctx event mode
        (Staff.event ⟨mode, controller⟩).controller ids) := by
  induction ids with
  | nil => exact closes_pure trivial
  | cons id rest ih =>
    refine (closes_openStream hu ctx _ _ _ _).bind ?_
    intro stream hs
    refine (closes_control hk hs).bind ?_
    rintro ⟨_, stream'⟩ hs'
    exact (closes_commit hu ctx hs').bind fun _ _ => ih

theorem closes_takeIn (hk : staff.Keeps P) (ctx : Context) (event : Event) :
    Closes inv ended (fun _ => True) (ExceptT.mk ((staff.engine name policy).takeIn ctx event)) := by
  have hastray : ∀ e, Closes inv ended (fun _ => True) ((staff.engine name policy).astray e) := by
    intro e
    rw [Engine.astray]
    split
    · exact closes_throw e
    · exact closes_pure trivial
  refine (closes_checkCancelled ctx).bind ?_
  intro _ _
  by_cases hi : (staff.engine name policy).ignored.contains event.name = true
  · rw [if_pos hi]
    exact hastray _
  rw [if_neg hi]
  cases hc : (staff.engine name policy).events.lookup event.name with
  | none => exact hastray _
  | some registered =>
    obtain ⟨n, c, hmem, rfl⟩ := mem_of_lookup hc
    dsimp only [Staff.event]
    cases (c.controller.pick event).ids with
    | nil => exact hastray _
    | cons id rest =>
      exact closes_handleTargets hu ctx event c.mode (hk.events n c hmem ctx event) (id :: rest)

end Engine

section Relay

variable [Ambient (Fiber W)] [State S] (hu : Upheld P name policy inv)
include hu

/-- A relay that carries batches publishes and acknowledges them in order, and loses nothing. -/
theorem safe_deliver {publisher : Publisher (Fiber W)} {config : RelayConfig} (ctx : Context)
    (delivered : Nat) (batches : List PendingBatch) {i : Nat} {s : Store S × W}
    {h : List (Nat × Deed)} (hb : inv s.1 h) (hf : phase (own i h) = .carries batches) :
    (pact inv ended).Safe i
      (fun _ s' h' => inv s'.1 h' ∧ (phase (own i h')).AtRest ∧
        ∃ ds, own i h' = own i h ++ ds ∧ ∀ p, .lost p ∉ ds)
      ((Call.relay publisher config : Relay (Errand W S)).deliver ctx delivered batches).run s h := by
  induction batches generalizing delivered s h with
  | nil => exact ⟨hb, by rw [hf]; trivial, [], (List.append_nil _).symm, by simp⟩
  | cons b rest ih =>
    -- the pass may end before the batch, at its publication, or go on behind it
    refine Pact.Safe.bind (Pact.Safe.bind (idle_beside (Fiber.yields_true _) i s h _ hb ?_))
    intro cancelled s₁ h₁ _ hb₁ ho₁
    cases cancelled with
    | true => exact ⟨hb₁, by rw [ho₁, hf]; trivial, [], by rw [ho₁, List.append_nil], by simp⟩
    | false =>
      have hf₁ : phase (own i h₁) = .carries (b :: rest) := by rw [ho₁, hf]
      refine Pact.Safe.bind (Pact.Safe.bind (safe_publisher hu hb₁ (by rw [hf₁]; rfl) ?_ ?_))
      · intro s₂ h₂ hb₂ ho₂
        have hf₂ : phase (own i h₂) = .delivered b rest := by
          rw [ho₂, phase_concat, phase_concat, Phase.after_handed, hf₁]
          rfl
        refine Pact.Safe.bind (Pact.Safe.bind (safe_acknowledge hu hb₂ hf₂ ?_))
        intro s₃ h₃ hb₃ ho₃
        have hf₃ : phase (own i h₃) = .carries rest := by
          rw [ho₃, phase_concat, hf₂]
          rfl
        refine (ih (delivered + 1) hb₃ hf₃).mono ?_
        rintro _ s₄ h₄ ⟨hb₄, hd₄, ds, ho₄, hno⟩
        have hown : own i h₄ =
            own i h ++ (.handed b.events :: .published b.events :: .acknowledged b.id :: ds) := by
          simp [ho₄, ho₃, ho₂, ho₁]
        exact ⟨hb₄, hd₄, _, hown, by simpa using hno⟩
      · intro e s₂ h₂ hb₂ ho₂
        have hf₂ : phase (own i h₂) = .carries (b :: rest) := by
          rw [ho₂, phase_concat, phase_concat, Phase.after_handed, Phase.after_refused, hf₁]
        have hown : own i h₂ = own i h ++ [.handed b.events, .refused b.events] := by
          simp [ho₂, ho₁]
        exact ⟨hb₂, by rw [hf₂]; trivial, _, hown, by simp⟩

theorem safe_pass {publisher : Publisher (Fiber W)} {config : RelayConfig} (ctx : Context) {i : Nat}
    {s : Store S × W} {h : List (Nat × Deed)} (hb : inv s.1 h)
    (hd : (phase (own i h)).AtRest) :
    (pact inv ended).Safe i
      (fun _ s' h' => inv s'.1 h' ∧ (phase (own i h')).AtRest ∧
        ∃ ds, own i h' = own i h ++ ds ∧ ∀ p, .lost p ∉ ds)
      ((Call.relay publisher config : Relay (Errand W S)).pass ctx).run s h := by
  refine Pact.Safe.bind (Pact.Safe.bind (safe_pending hu hb hd ?_))
  intro bs s₁ h₁ hb₁ ho₁
  have hf₁ : phase (own i h₁) = .carries bs := by
    rw [ho₁, phase_concat, Phase.after_held]
  refine (safe_deliver hu ctx 0 bs hb₁ hf₁).mono ?_
  rintro _ s₂ h₂ ⟨hb₂, hd₂, ds, ho₂, hno⟩
  have hown : own i h₂ = own i h ++ (.held bs :: ds) := by simp [ho₂, ho₁]
  exact ⟨hb₂, hd₂, _, hown, by simpa using hno⟩

/-- What is known of a call that has come back. -/
def Done (deeds : List Deed) (o : Outcome) : Prop :=
  (phase deeds).AtRest ∧ ((∃ p, .lost p ∈ deeds) → o.compensation? ≠ none)

/-- A call may be made at any time. -/
theorem safe_errand {call : Call W S} (hk : call.Keeps P) {i : Nat} {s : Store S × W}
    {h : List (Nat × Deed)} (hb : inv s.1 h) (hd : (phase (own i h)).AtRest) :
    (pact inv ended).Safe i
      (fun o s' h' => inv s'.1 h' ∧ (phase (own i h')).AtRest ∧
        ∃ ds, own i h' = own i h ++ ds ∧ ((∃ p, .lost p ∈ ds) → o.compensation? ≠ none))
      (call.errand name policy) s h := by
  cases call with
  | command staff ctx c =>
    refine Pact.Safe.bind ((closes_carryOut hu hk ctx c i s h hb hd).mono ?_)
    rintro r s' h' ⟨hb', hc⟩
    obtain ⟨ds, ho, hlost⟩ := hc.confessed
    refine ⟨hb', hc.1, ds, ho, ?_⟩
    intro hp
    obtain ⟨source, reason, rfl⟩ := hlost hp
    exact Option.some_ne_none reason
  | event staff ctx e =>
    refine Pact.Safe.bind ((closes_takeIn hu hk ctx e i s h hb hd).mono ?_)
    rintro r s' h' ⟨hb', hc⟩
    obtain ⟨ds, ho, hlost⟩ := hc.confessed
    refine ⟨hb', hc.1, ds, ho, ?_⟩
    intro hp
    obtain ⟨source, reason, rfl⟩ := hlost hp
    exact Option.some_ne_none reason
  | pass publisher config ctx =>
    refine Pact.Safe.bind ((safe_pass hu ctx hb hd).mono ?_)
    rintro r s' h' ⟨hb', hd', ds, ho, hno⟩
    exact ⟨hb', hd', ds, ho, fun ⟨p, hp⟩ => absurd hp (hno p)⟩

/-- What every deed keeps holds of any number of calls on one store, wherever each of them has come to. -/
theorem holds_crowd {codec : Codec} {calls : List (Call W S)} (hk : ∀ call ∈ calls, call.Keeps P)
    (hi : inv (.fresh name codec policy) []) (w : W) (moves : List (Move (W → W))) :
    (pact inv Done).Holds ((Call.crowd name codec policy w calls).run rules moves) := by
  have hstart : (pact inv Done : Pact (Store S × W) Deed Outcome (W → W)).inv
      (.fresh name codec policy, w) [] := hi
  refine Pact.Holds.run (lawful inv Done) (Pact.Holds.gather hstart ?_) moves
  intro t ht i s h hb ho
  obtain ⟨call, hcall, rfl⟩ := List.mem_map.mp ht
  refine (safe_errand hu (hk call hcall) hb (by rw [ho]; trivial)).mono ?_
  rintro o s' h' ⟨hb', hd, ds, ho', hl⟩
  refine ⟨hb', hd, ?_⟩
  rw [ho', ho, List.nil_append]
  exact hl

end Relay

end Errand

end EventJournal
