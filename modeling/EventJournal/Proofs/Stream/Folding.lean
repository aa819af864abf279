import EventJournal.Stream

/-!
States as folds of events. A replayed stream has the state to which its journal folds, and so has a stream that
was changed only by appending: its state is the fold of what it started from and its changes.
-/
namespace EventJournal

variable {S : Type} [State S]

namespace State

/-- The state after one more event, which may not be refused. -/
def take (state : S) (event : Event) : Except PayloadError S :=
  match State.apply event state with
  | .ok () state => .ok state
  | .error e _ => .error e

/-- The state to which events fold from the blank one. -/
def fold (events : List Event) : Except PayloadError S :=
  events.foldlM take State.blank

@[simp] theorem fold_nil : fold [] = .ok (State.blank : S) := rfl

theorem fold_concat {events : List Event} {state : S} (h : fold events = .ok state) (event : Event) :
    fold (events ++ [event]) = take state event := by
  have hevents : events.foldlM take (State.blank : S) = .ok state := h
  rw [fold, List.foldlM_append, hevents]
  exact bind_pure (take state event)

end State

namespace Stream

theorem absorb_eq (s : Stream S) (event : Event) : s.absorb event =
    (State.take s.state event).map fun state =>
      { s with state, previousVersion := s.previousVersion + 1, updatedAt := event.createdAt } := by
  rw [absorb, State.take]
  cases State.apply event s.state <;> rfl

/-- A stream takes in whatever its state does. -/
theorem foldlM_absorb {events : List Event} {s : Stream S} {state : S}
    (h : events.foldlM State.take s.state = .ok state) :
    ∃ updatedAt, events.foldlM absorb s =
      .ok { s with state, previousVersion := s.previousVersion + events.length, updatedAt } := by
  induction events generalizing s with
  | nil =>
    cases h
    exact ⟨s.updatedAt, rfl⟩
  | cons event rest ih =>
    rw [List.foldlM_cons] at h ⊢
    cases ht : State.take s.state event with
    | error e =>
      rw [ht] at h
      cases h
    | ok next =>
      rw [ht] at h
      let t : Stream S :=
        { s with state := next, previousVersion := s.previousVersion + 1, updatedAt := event.createdAt }
      have ha : s.absorb event = .ok t := by
        rw [absorb_eq, ht]
        rfl
      obtain ⟨updatedAt, hrest⟩ := ih (s := t) h
      refine ⟨updatedAt, ?_⟩
      rw [ha]
      simp only [t, Nat.add_assoc, Nat.add_comm 1] at hrest
      exact hrest

/-- What a journal is replayed to. -/
theorem replay_eq_ok {events : List Event} {state : S} (h : State.fold events = .ok state)
    (name : String) (id : StreamId) (owner : Option OwnerId) (policy : VersionPolicy) (now : Timestamp) :
    ∃ updatedAt, replay name id owner events policy now =
      .ok ⟨id, name, owner, events.length, updatedAt, state, [], policy⟩ := by
  let s : Stream S := { create name id State.blank now with owner, policy }
  obtain ⟨updatedAt, hs⟩ := foldlM_absorb (s := s) h
  rw [show s.previousVersion = 0 from rfl, Nat.zero_add] at hs
  exact ⟨updatedAt, hs⟩

/-- One stream is another to which events were appended, none of which its state refused. -/
inductive GrowsTo (s : Stream S) : Stream S → Prop where
  | refl : GrowsTo s s
  | append {t u : Stream S} {posting : Posting} {name : String} {payload : Payload} {event : Event}
      (grown : GrowsTo s t) (taken : t.append posting name payload = .ok event u) : GrowsTo s u

theorem append_eq_ok {s t : Stream S} {posting : Posting} {name : String} {payload : Payload} {event : Event}
    (h : s.append posting name payload = .ok event t) :
    State.take s.state event = .ok t.state ∧
      t = { s with state := t.state, updatedAt := posting.takenAt, changes := s.changes ++ [event] } := by
  simp only [append] at h
  split at h
  · cases h
  next payload _ =>
    rw [State.take]
    split at h
    next state ha =>
      cases h
      rw [ha]
      exact ⟨rfl, rfl⟩
    · cases h

/-- What appending keeps is kept all along. -/
theorem GrowsTo.keeps {P : Stream S → Prop} {s t : Stream S} (h : s.GrowsTo t) (hs : P s)
    (hp : ∀ {t : Stream S} {state updatedAt event}, P t → State.take t.state event = .ok state →
      P { t with state, updatedAt, changes := t.changes ++ [event] }) : P t := by
  induction h with
  | refl => exact hs
  | append _ taken ih =>
    obtain ⟨htake, he⟩ := append_eq_ok taken
    rw [he]
    exact hp ih htake

/-- A stream to which one event was appended. The time of its last change is open: it need not be that of the event. -/
structure Takes (s : Stream S) (event : Event) (t : Stream S) : Prop where
  take : State.take s.state event = .ok t.state
  eq : t = { s with state := t.state, updatedAt := t.updatedAt, changes := s.changes ++ [event] }

section Takes

variable {s t : Stream S} {event : Event} (h : s.Takes event t)
include h

theorem Takes.id_eq : t.id = s.id := by rw [h.eq]

theorem Takes.name_eq : t.name = s.name := by rw [h.eq]

theorem Takes.owner_eq : t.owner = s.owner := by rw [h.eq]

theorem Takes.previousVersion_eq : t.previousVersion = s.previousVersion := by rw [h.eq]

theorem Takes.changes_eq : t.changes = s.changes ++ [event] := by rw [h.eq]

theorem Takes.changes_ne_nil : t.changes ≠ [] := by simp [h.changes_eq]

end Takes

theorem takes_of_append {s t : Stream S} {posting : Posting} {name : String} {payload : Json} {event : Event}
    (h : s.append posting name (.ok payload) = .ok event t) :
    event = s.nextEvent posting.stamp name payload ∧ s.Takes event t := by
  have hencode : Payload.encode name (.ok payload) = .ok payload := rfl
  have hevent : event = s.nextEvent posting.stamp name payload := by
    simp only [append, hencode] at h
    split at h
    · cases h
      rfl
    · cases h
  obtain ⟨htake, ht⟩ := append_eq_ok h
  have htime : t.updatedAt = posting.takenAt := by rw [ht]
  refine ⟨hevent, htake, ?_⟩
  rw [htime]
  exact ht

/-- An event is not appended only if the state refuses it. -/
theorem take_eq_error_of_append {s t : Stream S} {posting : Posting} {name : String} {payload : Json}
    {e : PayloadError} (h : s.append posting name (.ok payload) = .error e t) :
    State.take s.state (s.nextEvent posting.stamp name payload) = .error e := by
  have hencode : Payload.encode name (.ok payload) = .ok payload := rfl
  simp only [append, hencode] at h
  cases ha : State.apply (s.nextEvent posting.stamp name payload) s.state with
  | ok u state =>
    rw [ha] at h
    cases h
  | error e' state =>
    rw [ha] at h
    cases h
    simp only [State.take, ha]

end Stream

end EventJournal
