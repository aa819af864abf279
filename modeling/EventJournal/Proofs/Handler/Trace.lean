import EventJournal.Proofs.Crowd.NoteTraces
import EventJournal.Proofs.Handler.Dispatch

/-!
The trace of a dispatch: the calls on its handlers, by the places where they are registered, with what each call comes
to, and the failures that the observer is told of. The handlers may be of any kind and share a state with whomever.
-/
namespace EventJournal

open Told

variable {σ ν α : Type}

namespace Dispatch

inductive Mark where
  | handle (place : Nat) (event : Event)
  | rollback (place : Nat) (event : Event)
  /-- What the call before has come to. -/
  | answer (result : Except Failure Unit)
  | observe (e : DispatchError)

end Dispatch

open Dispatch

/-- A call that is told, with what it comes to. -/
def markedCall (mark : Mark → ν) (call : Mark) (t : Fiber σ (Except Failure Unit)) :
    Told σ ν (Except Failure Unit) := do
  tell (mark call)
  let result ← ofFiber t
  tell (mark (.answer result))
  return result

/-- A handler with its place, so that the calls on it are told. -/
def Handler.marked (mark : Mark → ν) (place : Nat) (h : Handler (Fiber σ)) : Handler (Told σ ν) where
  accepts := h.accepts
  handle ctx event := markedCall mark (.handle place event) (h.handle ctx event)
  rollback ctx event := markedCall mark (.rollback place event) (h.rollback ctx event)

section Marked

variable (mark : Mark → ν) (place : Nat) (h : Handler (Fiber σ)) (ctx : Context) (event : Event)

theorem handle_marked : (h.marked mark place).handle ctx event =
    markedCall mark (.handle place event) (h.handle ctx event) := rfl

theorem rollback_marked : (h.marked mark place).rollback ctx event =
    markedCall mark (.rollback place event) (h.rollback ctx event) := rfl

end Marked

def Observer.marked (mark : Mark → ν) (observe : Observer (Fiber σ)) : Observer (Told σ ν) := fun e => do
  tell (mark (.observe e))
  ofFiber (observe e)

namespace Dispatch

/-- Handlers with their places in the list. -/
def marked (mark : Mark → ν) (handlers : List (Handler (Fiber σ))) : List (Handler (Told σ ν)) :=
  handlers.zipIdx.map fun (h, place) => h.marked mark place

/-- The places of the handlers that take an event. -/
def places {m : Type → Type} (handlers : List (Handler m)) (event : Event) : List Nat :=
  (matching handlers event).map Prod.fst

section Places

variable {m : Type → Type} {handlers : List (Handler m)} {event : Event}

theorem matching_eq_takers (handlers : List (Handler m)) (event : Event) :
    matching handlers event = takers (fun h => h.accepts event) handlers := rfl

theorem mem_matching {p : Nat × Handler m} :
    p ∈ matching handlers event ↔ handlers[p.1]? = some p.2 ∧ p.2.accepts event = true := by
  rw [matching_eq_takers, mem_takers_iff]

theorem mem_places {i : Nat} : i ∈ places handlers event ↔
    ∃ h, handlers[i]? = some h ∧ h.accepts event = true := by
  rw [places, List.mem_map]
  constructor
  · rintro ⟨⟨_, h⟩, hp, rfl⟩
    exact ⟨h, mem_matching.mp hp⟩
  · rintro ⟨h, hp⟩
    exact ⟨(i, h), mem_matching.mpr hp, rfl⟩

theorem pairwise_places : (places handlers event).Pairwise (· < ·) := by
  rw [places, matching_eq_takers]
  exact List.pairwise_map.mpr (pairwise_takers _ handlers)

/-- A handler takes what it takes, whether or not the calls on it are told. -/
theorem matching_marked (mark : Mark → ν) (handlers : List (Handler (Fiber σ))) (event : Event) :
    matching (marked mark handlers) event =
      (matching handlers event).map fun p => (p.1, p.2.marked mark p.1) := by
  have htwice : handlers.zipIdx.zipIdx = handlers.zipIdx.map fun p => (p, p.2) := by
    apply List.ext_getElem?
    intro i
    simp only [List.getElem?_zipIdx, List.getElem?_map, Nat.zero_add, Option.map_map]
    cases handlers[i]? <;> rfl
  simp only [matching, marked, List.zipIdx_map, htwice, List.map_map, List.filter_map]
  rfl

end Places

section Erase

variable (mark : Mark → ν) (observe : Observer (Fiber σ)) (ctx : Context) (event : Event)

theorem erase_markedCall (call : Mark) (t : Fiber σ (Except Failure Unit)) :
    (markedCall mark call t).erase = t := by
  simp only [markedCall, bind_eq, erase_bind, erase_ofFiber]
  exact Fiber.bind_pure t

theorem erase_observe (e : DispatchError) : (observe.marked mark e).erase = observe e := by
  simp only [Observer.marked, bind_eq, erase_bind, erase_ofFiber]
  rfl

theorem erase_undo (ps : List (Nat × Handler (Fiber σ))) :
    (undo (observe.marked mark) ctx event (ps.map fun p => (p.1, p.2.marked mark p.1))).erase =
      undo observe ctx event ps := by
  induction ps with
  | nil => rfl
  | cons p rest ih =>
    simp only [List.map_cons, undo, bind_eq, erase_bind, rollback_marked, erase_markedCall]
    refine congrArg (Fiber.bind · _) (funext fun result => ?_)
    cases result with
    | ok u => exact ih
    | error source =>
      simp only [erase_bind, erase_observe, ih]
      rfl

theorem erase_run (ran rest : List (Nat × Handler (Fiber σ))) :
    (run (observe.marked mark) ctx event (ran.map fun p => (p.1, p.2.marked mark p.1))
      (rest.map fun p => (p.1, p.2.marked mark p.1))).erase = run observe ctx event ran rest := by
  induction rest generalizing ran with
  | nil => rfl
  | cons p rest ih =>
    simp only [List.map_cons, run, bind_eq, erase_bind, handle_marked, erase_markedCall]
    refine congrArg (Fiber.bind · _) (funext fun result => ?_)
    cases result with
    | ok u => exact ih (p :: ran)
    | error source =>
      simp only [erase_bind, erase_observe]
      exact congrArg (Fiber.bind · _) (funext fun _ => erase_undo mark observe ctx event (p :: ran))

/-- But for what is told, the dispatch is the one that runs. -/
theorem erase_dispatch (handlers : List (Handler (Fiber σ))) :
    (dispatch (marked mark handlers) (observe.marked mark) ctx event).erase =
      dispatch handlers observe ctx event := by
  rw [dispatch, matching_marked]
  exact erase_run mark observe ctx event [] (matching handlers event)

end Erase

/-- A handler has handled the event. -/
def handled (event : Event) (place : Nat) : List Mark :=
  [.handle place event, .answer (.ok ())]

/-- A handler was called on to undo the event, and the observer is told if that failed. -/
def undone (event : Event) (p : Nat × Except Failure Unit) : List Mark :=
  .rollback p.1 event :: .answer p.2 ::
    match p.2 with
    | .ok () => []
    | .error source => [.observe ⟨p.1, true, event, source⟩]

/-- The handlers at these places are called on in that order. If one fails the observer is told, and that one and
those before it are undone in reverse, whatever each of them comes to. -/
inductive Traced (event : Event) (places : List Nat) : List Mark → Prop
  | all : Traced event places (places.flatMap (handled event))
  | failed {past rest : List Nat} {place : Nat} {source : Failure} {results : List (Except Failure Unit)}
      (split : places = past ++ place :: rest) (each : results.length = past.length + 1) :
      Traced event places
        (past.flatMap (handled event) ++
          [.handle place event, .answer (.error source), .observe ⟨place, false, event, source⟩] ++
          ((past ++ [place]).reverse.zip results).flatMap (undone event))

section Called

variable {event e : Event} {places : List Nat} {i place : Nat} {p : Nat × Except Failure Unit} {ns : List Mark}

@[simp] theorem handle_mem_handled : .handle i e ∈ handled event place ↔ i = place ∧ e = event := by
  simp [handled]

@[simp] theorem rollback_mem_handled : .rollback i e ∉ handled event place := by
  simp [handled]

@[simp] theorem handle_mem_undone : .handle i e ∉ undone event p := by
  obtain ⟨j, result⟩ := p
  cases result <;> simp [undone]

@[simp] theorem rollback_mem_undone : .rollback i e ∈ undone event p ↔ i = p.1 ∧ e = event := by
  obtain ⟨j, result⟩ := p
  cases result <;> simp [undone]

/-- Nobody else is called, nor for another event, and only those are undone that were called to handle the event. -/
theorem Traced.called (h : Traced event places ns) :
    (.handle i e ∈ ns → i ∈ places ∧ e = event) ∧ (.rollback i e ∈ ns → .handle i e ∈ ns) := by
  cases h with
  | all =>
    constructor
    · intro h
      obtain ⟨place, hp, hm⟩ := List.mem_flatMap.mp h
      obtain ⟨rfl, rfl⟩ := handle_mem_handled.mp hm
      exact ⟨hp, rfl⟩
    · simp
  | @failed past rest place source results split each =>
    subst split
    have hundone : .rollback i e ∈ ((past ++ [place]).reverse.zip results).flatMap (undone event) →
        i ∈ past ++ [place] ∧ e = event := by
      intro h
      obtain ⟨p, hp, hm⟩ := List.mem_flatMap.mp h
      obtain ⟨rfl, rfl⟩ := rollback_mem_undone.mp hm
      exact ⟨List.mem_reverse.mp (List.of_mem_zip hp).1, rfl⟩
    constructor
    · intro h
      rcases List.mem_append.mp h with h | h
      · simp at h ⊢
        grind
      · simp at h
    · intro h
      obtain ⟨hi, rfl⟩ := hundone (by simpa using h)
      simp only [List.mem_append, List.mem_flatMap, handle_mem_handled]
      rcases List.mem_append.mp hi with hi | hi
      · exact .inl (.inl ⟨i, hi, rfl, trivial⟩)
      · cases List.mem_singleton.mp hi
        exact .inl (.inr (List.mem_cons_self ..))

end Called

section Tells

variable {mark : Mark → ν} {observe : Observer (Fiber σ)} {ctx : Context} {event : Event} {ns : List ν}

theorem tells_markedCall {call : Mark} {t : Fiber σ (Except Failure Unit)} {result : Except Failure Unit}
    (h : (markedCall mark call t).Tells ns result) : ns = [call, .answer result].map mark := by
  obtain ⟨_, _, _, hcall, h₁, rfl⟩ := tells_bind h
  obtain ⟨r, _, _, ht, h₂, rfl⟩ := tells_bind h₁
  obtain ⟨_, _, _, hanswer, h₃, rfl⟩ := tells_bind h₂
  obtain ⟨rfl, rfl⟩ := tells_pure h₃
  rw [tells_tell hcall, tells_ofFiber ht, tells_tell hanswer]
  rfl

theorem tells_observe {e : DispatchError} {u : Unit} (h : (observe.marked mark e).Tells ns u) :
    ns = [mark (.observe e)] := by
  obtain ⟨_, _, _, htell, h₁, rfl⟩ := tells_bind h
  rw [tells_tell htell, tells_ofFiber h₁]
  rfl

/-- Each of them is undone, whatever those before it came to. -/
theorem tells_undo (ps : List (Nat × Handler (Fiber σ))) {u : Unit}
    (h : (undo (observe.marked mark) ctx event (ps.map fun p => (p.1, p.2.marked mark p.1))).Tells ns u) :
    ∃ results : List (Except Failure Unit), results.length = ps.length ∧
      ns = (((ps.map Prod.fst).zip results).flatMap (undone event)).map mark := by
  induction ps generalizing ns with
  | nil =>
    obtain ⟨rfl, -⟩ := tells_pure h
    exact ⟨[], rfl, rfl⟩
  | cons p rest ih =>
    simp only [List.map_cons, undo, rollback_marked] at h
    obtain ⟨result, _, _, hcall, h₁, rfl⟩ := tells_bind h
    cases tells_markedCall hcall
    cases result with
    | ok u =>
      obtain ⟨results, hlength, rfl⟩ := ih h₁
      exact ⟨.ok () :: results, congrArg (· + 1) hlength, by simp [undone]⟩
    | error source =>
      obtain ⟨_, _, _, hobserve, h₂, rfl⟩ := tells_bind h₁
      cases tells_observe hobserve
      obtain ⟨results, hlength, rfl⟩ := ih h₂
      exact ⟨.error source :: results, congrArg (· + 1) hlength, by simp [undone]⟩

/-- After those that ran, the others run up to the first that fails. -/
theorem tells_run (ran : List (Nat × Handler (Fiber σ))) {rest : List (Nat × Handler (Fiber σ))} {u : Unit}
    (h : (run (observe.marked mark) ctx event (ran.map fun p => (p.1, p.2.marked mark p.1))
      (rest.map fun p => (p.1, p.2.marked mark p.1))).Tells ns u) :
    ∃ marks, ns = marks.map mark ∧ Traced event ((ran.reverse ++ rest).map Prod.fst)
      ((ran.reverse.map Prod.fst).flatMap (handled event) ++ marks) := by
  induction rest generalizing ran ns with
  | nil =>
    obtain ⟨rfl, -⟩ := tells_pure h
    refine ⟨[], rfl, ?_⟩
    rw [List.append_nil, List.append_nil]
    exact .all
  | cons p rest ih =>
    simp only [List.map_cons, run, handle_marked] at h
    obtain ⟨result, _, _, hcall, h₁, rfl⟩ := tells_bind h
    cases tells_markedCall hcall
    cases result with
    | ok u =>
      obtain ⟨marks, rfl, ht⟩ := ih (p :: ran) h₁
      refine ⟨handled event p.1 ++ marks, by simp [handled], ?_⟩
      simpa using ht
    | error source =>
      obtain ⟨_, _, _, hobserve, h₂, rfl⟩ := tells_bind h₁
      cases tells_observe hobserve
      obtain ⟨results, hlength, rfl⟩ := tells_undo (p :: ran) h₂
      have hplaces : (ran.reverse ++ p :: rest).map Prod.fst =
          ran.reverse.map Prod.fst ++ p.1 :: rest.map Prod.fst := by simp
      have hturned : ((p :: ran).map Prod.fst) = (ran.reverse.map Prod.fst ++ [p.1]).reverse := by simp
      rw [hturned, hplaces]
      refine ⟨[.handle p.1 event, .answer (.error source), .observe ⟨p.1, false, event, source⟩] ++
        ((ran.reverse.map Prod.fst ++ [p.1]).reverse.zip results).flatMap (undone event), by simp, ?_⟩
      rw [← List.append_assoc]
      exact .failed rfl (by simpa using hlength)

/-- So what is told of a dispatch is its trace. -/
theorem tells_dispatch {handlers : List (Handler (Fiber σ))} {u : Unit}
    (h : (dispatch (marked mark handlers) (observe.marked mark) ctx event).Tells ns u) :
    ∃ marks, ns = marks.map mark ∧ Traced event (places handlers event) marks := by
  rw [dispatch, matching_marked] at h
  exact tells_run [] h

end Tells

/-- The calls of a dispatch, whoever the handlers are. -/
structure Chronicle (handlers : List (Handler (Fiber σ))) (observe : Observer (Fiber σ)) (ctx : Context)
    (event : Event) : Prop where
  /-- But for what is told, the dispatch is the one that runs. -/
  erased : (dispatch (marked id handlers) (observe.marked id) ctx event).erase = dispatch handlers observe ctx event
  takes : ∀ i, i ∈ places handlers event ↔ ∃ h, handlers[i]? = some h ∧ h.accepts event = true
  ordered : (places handlers event).Pairwise (· < ·)
  traced : ∀ ns, (dispatch (marked id handlers) (observe.marked id) ctx event).Tells ns () →
    Traced event (places handlers event) ns
  spares : ∀ ns, (dispatch (marked id handlers) (observe.marked id) ctx event).Tells ns () → ∀ i e,
    .handle i e ∈ ns ∨ .rollback i e ∈ ns → i ∈ places handlers event ∧ e = event

theorem chronicle (handlers : List (Handler (Fiber σ))) (observe : Observer (Fiber σ)) (ctx : Context)
    (event : Event) : Chronicle handlers observe ctx event := by
  have traced : ∀ ns, (dispatch (marked id handlers) (observe.marked id) ctx event).Tells ns () →
      Traced event (places handlers event) ns := by
    intro ns h
    obtain ⟨marks, rfl, ht⟩ := tells_dispatch h
    rwa [List.map_id]
  exact {
    erased := erase_dispatch id observe ctx event handlers
    takes := fun _ => mem_places
    ordered := pairwise_places
    traced := traced
    spares := fun ns h i e hcall => (traced ns h).called.1 (hcall.elim id (traced ns h).called.2) }

end Dispatch

end EventJournal
