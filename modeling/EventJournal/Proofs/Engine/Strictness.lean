import EventJournal.Proofs.Crowd.Recast
import EventJournal.Proofs.Engine.Fanout

/-!
Strict engines. Whether an engine is strict shows in nothing but what it comes back with for the events that lead
nowhere. On them it does nothing in either case but to ask whether it is cancelled.
-/
namespace EventJournal

variable {W S : Type}

/-- What may be asked of an engine. -/
inductive Demand where
  | command (command : Command)
  | event (event : Event)

namespace Engine

variable {m : Type → Type}

/-- The same engine, strict or not. -/
def withStrict (e : Engine m S) (strict : Bool) : Engine m S :=
  { e with strict }

theorem ignored_withStrict (e : Engine m S) (strict : Bool) : (e.withStrict strict).ignored = e.ignored := rfl

theorem events_withStrict (e : Engine m S) (strict : Bool) : (e.withStrict strict).events = e.events := rfl

/-- What a strict engine has to say of an event that leads nowhere. -/
def complaint? (e : Engine m S) (event : Event) : Option EngineError :=
  if e.ignored.contains event.name then some (.selfEvent event.name)
  else
    match e.events.lookup event.name with
    | none => some (.controllerNotFound event.name)
    | some c => if (c.controller.pick event).ids.isEmpty then some (.noStreamPicked event.name) else none

/-- What a strict engine comes back with where a lenient one comes back with this. -/
def reported (e : Engine m S) : Demand → Outcome → Outcome
  | .event event, .taken (.ok ()) =>
    match e.complaint? event with
    | some err => .taken (.error err)
    | none => .taken (.ok ())
  | _, o => o

/-- The same for one demand after the other. -/
def reports (e : Engine m S) (demands : List (Context × Demand)) (outcomes : List Outcome) : List Outcome :=
  demands.zipWith (fun d o => e.reported d.2 o) outcomes

variable [Monad m] [Ambient m]

def attend (e : Engine m S) (ctx : Context) : Demand → m Outcome
  | .command command => do return .answered (← e.carryOut ctx command)
  | .event event => do return .taken (← e.takeIn ctx event)

/-- Attends to one demand after the other, whatever becomes of them. -/
def session (e : Engine m S) : List (Context × Demand) → m (List Outcome)
  | [] => return []
  | (ctx, demand) :: rest => do
    let outcome ← e.attend ctx demand
    let outcomes ← e.session rest
    return outcome :: outcomes

variable {e : Engine m S} {ctx : Context} {event : Event} {err : EngineError}

theorem handleTargets_withStrict (strict : Bool) (mode : Mode) (controller : EventController m S)
    (ids : List StreamId) :
    (e.withStrict strict).handleTargets ctx event mode controller ids =
      e.handleTargets ctx event mode controller ids := by
  induction ids with
  | nil => rfl
  | cons id rest ih =>
    rw [handleTargets, handleTargets, ih]
    rfl

/-- An event that is complained of leads nowhere, and what an engine makes of any other does not depend on whether it is
strict. -/
theorem complaint_cases (e : Engine m S) (event : Event) :
    (∃ err, e.complaint? event = some err ∧ ∀ ctx, e.respond ctx event = e.astray err) ∨
    (e.complaint? event = none ∧ ∀ strict ctx, (e.withStrict strict).respond ctx event = e.respond ctx event) := by
  simp only [complaint?, respond, serve, ignored_withStrict, events_withStrict]
  by_cases hi : e.ignored.contains event.name = true
  · exact .inl ⟨.selfEvent event.name, if_pos hi, fun _ => if_pos hi⟩
  · simp only [if_neg hi]
    cases e.events.lookup event.name with
    | none => exact .inl ⟨.controllerNotFound event.name, rfl, fun _ => rfl⟩
    | some c =>
      by_cases hp : (c.controller.pick event).ids.isEmpty = true
      · exact .inl ⟨.noStreamPicked event.name, if_pos hp, fun _ => if_pos hp⟩
      · refine .inr ⟨if_neg hp, fun strict ctx => ?_⟩
        simp only [if_neg hp]
        exact (if_neg hi).trans (handleTargets_withStrict strict c.mode c.controller _)

theorem carryOut_withStrict (strict : Bool) : (e.withStrict strict).carryOut = e.carryOut := rfl

theorem takeIn_withStrict (h : e.complaint? event = none) (strict : Bool) :
    (e.withStrict strict).takeIn ctx event = e.takeIn ctx event := by
  obtain ⟨err, herr, -⟩ | ⟨-, hsame⟩ := e.complaint_cases event
  · rw [h] at herr
    cases herr
  · rw [takeIn_eq, takeIn_eq, hsame]

section Lawful

variable [LawfulMonad m]

/-- Of an event that leads nowhere an engine makes nothing. -/
theorem takeIn_of_complaint (h : e.complaint? event = some err) : e.takeIn ctx event = (do
    let cancelled ← Ambient.isCancelled ctx
    return if cancelled then .error .cancelled else if e.strict then .error err else .ok ()) := by
  have hastray : e.respond ctx event = e.astray err := by
    obtain ⟨err', herr, hastray⟩ | ⟨hnone, -⟩ := e.complaint_cases event
    · rw [h] at herr
      cases herr
      exact hastray ctx
    · rw [h] at hnone
      cases hnone
  rw [takeIn_eq, hastray, checkCancelled, astray]
  simp only [ExceptT.run_bind, ExceptT.run_liftM, bind_assoc, bind_map_left]
  refine bind_congr fun cancelled => ?_
  cases cancelled with
  | true => exact pure_bind _ _
  | false =>
    refine (pure_bind _ _).trans ?_
    cases e.strict <;> rfl

theorem attend_strict (e : Engine m S) (ctx : Context) (demand : Demand) :
    (e.withStrict true).attend ctx demand = e.reported demand <$> (e.withStrict false).attend ctx demand := by
  cases demand with
  | command command =>
    simp only [attend, carryOut_withStrict, map_bind, map_pure]
    rfl
  | event event =>
    cases h : e.complaint? event with
    | none =>
      have hid : ∀ o, e.reported (.event event) o = o := by
        intro o
        rw [reported.eq_def]
        split
        · simp_all
        · rfl
      simp only [attend, takeIn_withStrict h, map_bind, map_pure, hid]
    | some err =>
      have h' : ∀ strict, (e.withStrict strict).complaint? event = some err := fun _ => h
      simp only [attend, takeIn_of_complaint (h' _), map_bind, map_pure, bind_assoc, pure_bind]
      refine bind_congr fun cancelled => ?_
      cases cancelled with
      | true => rfl
      | false => simp [reported, withStrict, h]

theorem session_strict (e : Engine m S) (demands : List (Context × Demand)) :
    (e.withStrict true).session demands = e.reports demands <$> (e.withStrict false).session demands := by
  induction demands with
  | nil => simp [session, reports]
  | cons d rest ih =>
    simp only [session, attend_strict, ih, bind_map_left, map_bind, map_pure]
    rfl

end Lawful

end Engine

/-- Somebody with an engine and with demands on it. -/
structure Client (W S : Type) where
  staff : Staff W S
  demands : List (Context × Demand)

namespace Client

variable [Ambient (Fiber W)] [State S]

def engine (name : String) (policy : VersionPolicy) (c : Client W S) : Engine (Errand W S) S :=
  c.staff.engine name policy

/-- Clients on one store, whose engines are all strict or all lenient. -/
def crowd (name : String) (policy : VersionPolicy) (store : Store S) (w : W) (clients : List (Client W S))
    (strict : Bool) : Crowd (Store S × W) Deed (List Outcome) :=
  .gather (store, w) (clients.map fun c => ((c.engine name policy).withStrict strict).session c.demands)

/-- What the strict engine of a client comes back with. -/
def reports (name : String) (policy : VersionPolicy) (clients : List (Client W S)) (i : Nat) :
    List Outcome → List Outcome :=
  match clients[i]? with
  | some c => (c.engine name policy).reports c.demands
  | none => id

/-- With strict engines it is the same crowd, but for what is reported. -/
theorem crowd_strict (name : String) (policy : VersionPolicy) (store : Store S) (w : W)
    (clients : List (Client W S)) :
    crowd name policy store w clients true =
      (crowd name policy store w clients false).recast (reports name policy clients) := by
  rw [crowd, crowd, ← Crowd.recast_gather]
  congr 1
  apply List.ext_getElem?
  intro i
  simp only [List.getElem?_map, List.getElem?_mapIdx, reports]
  cases clients[i]? with
  | none => rfl
  | some c => exact congrArg some ((c.engine name policy).session_strict c.demands)

end Client

/-- Strictness only changes what is reported. From the same store, and however the clients take turns, at every moment
the store, its surroundings and all that was done with the store and with the publishers are the same with strict
engines as with lenient ones, and with both the same sessions have come to their end. A strict engine then reports what
the lenient one came back with, and a complaint instead of an event taken in that leads nowhere. That holds on any
storage. Whoever has a complaint does nothing but to ask whether it is cancelled. -/
theorem strictness_only_reports [Ambient (Fiber W)] [State S] (name : String) (policy : VersionPolicy)
    (store : Store S) (w : W) (clients : List (Client W S)) :
    (∀ moves : List (Move (W → W)),
      let strict := (Client.crowd name policy store w clients true).run Errand.rules moves
      let lenient := (Client.crowd name policy store w clients false).run Errand.rules moves
      strict.state = lenient.state ∧ strict.history = lenient.history ∧
      ∀ (i : Nat) (c : Client W S), clients[i]? = some c → ∀ outcomes : List Outcome,
        strict.jobs[i]? = some (.done outcomes) ↔ ∃ passed, lenient.jobs[i]? = some (.done passed) ∧
          outcomes = (c.engine name policy).reports c.demands passed) ∧
    ∀ (m : Type → Type) [Monad m] [LawfulMonad m] [Ambient m] (e : Engine m S),
      (∀ demands, (e.withStrict true).session demands = e.reports demands <$> (e.withStrict false).session demands) ∧
      ∀ ctx event err, e.complaint? event = some err → ∀ strict,
        (e.withStrict strict).takeIn ctx event = do
          let cancelled ← Ambient.isCancelled ctx
          return if cancelled then .error .cancelled else if strict then .error err else .ok () := by
  constructor
  · intro moves strict lenient
    have hrecast : strict = lenient.recast (Client.reports name policy clients) := by
      rw [← Crowd.recast_run _ (fun _ => rfl) (fun _ => rfl), ← Client.crowd_strict]
    rw [hrecast]
    refine ⟨rfl, rfl, fun i c hc outcomes => ?_⟩
    rw [Crowd.recast_done_iff, Client.reports, hc]
  · intro m _ _ _ e
    constructor
    · exact e.session_strict
    · intro ctx event err h strict
      exact Engine.takeIn_of_complaint (e := e.withStrict strict) h

namespace Still

def renamed : Event :=
  { placed with name := "renamed" }

/-- Somebody who asks for two events to be taken in, of which no controller gets the second. -/
def client : Client Still Tally :=
  ⟨staff [⟨.ofNat 2⟩] false, [(.background, .event placed), (.background, .event renamed)]⟩

/-- What the client has come to after enough turns. -/
def attended (strict : Bool) : Crowd (Store Tally × Still) Deed (List Outcome) :=
  (Client.crowd "tally" .sequential store create [client] strict).run Errand.rules (.replicate 12 (.job 0))

theorem attended_lenient : (attended false).jobs[0]? = some (.done [.taken (.ok ()), .taken (.ok ())]) := rfl

end Still

/-- Of two events the first is served, strictly or not, and the second is a complaint to the strict engine only. -/
theorem strictness_reported_of_second :
    [Still.client][0]? = some Still.client ∧
      (Still.client.engine "tally" .sequential).complaint? Still.renamed = some (.controllerNotFound "renamed") ∧
      (Still.attended false).jobs[0]? = some (.done [.taken (.ok ()), .taken (.ok ())]) ∧
      (Still.attended true).jobs[0]? =
        some (.done [.taken (.ok ()), .taken (.error (.controllerNotFound "renamed"))]) ∧
      (Still.attended true).state = (Still.attended false).state ∧ (Still.attended false).history ≠ [] := by
  obtain ⟨hsame, -⟩ := strictness_only_reports "tally" .sequential Still.store Still.create [Still.client]
  obtain ⟨hstate, -, hreports⟩ := hsame (.replicate 12 (.job 0))
  have hstrict := (hreports 0 Still.client rfl _).mpr ⟨_, Still.attended_lenient, rfl⟩
  refine ⟨rfl, rfl, Still.attended_lenient, hstrict, hstate, ?_⟩
  intro h
  cases h

end EventJournal
