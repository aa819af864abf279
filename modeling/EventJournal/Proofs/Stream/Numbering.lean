import EventJournal.Stream

/-!
The numbering of events. The changes of a stream are numbered on from the version that it started from, so
the versions of a stream's events rise with their places.
-/
namespace EventJournal

/-- Event versions rise with the ordinals. -/
theorem VersionPolicy.eventVersion_lt (policy : VersionPolicy) {k l : Nat} (h : k < l) :
    policy.eventVersion k < policy.eventVersion l := by
  cases policy with
  | sequential => exact h
  | reserving n hn =>
    have hdiv : (k - 1) / (n - 1) ≤ (l - 1) / (n - 1) := Nat.div_le_div_right (by omega)
    simp only [eventVersion]
    omega

/-- Events of one stream that follow the first `n` ones. -/
def Event.Series (policy : VersionPolicy) (id : StreamId) (name : String) (n : Nat)
    (events : List Event) : Prop :=
  ∀ k e, events[k]? = some e →
    e.version = policy.eventVersion (n + k + 1) ∧ e.streamId = id ∧ e.streamName = name

namespace Event.Series

variable {policy : VersionPolicy} {id : StreamId} {name : String} {n : Nat}

theorem nil : Series policy id name n [] := by
  intro k e h
  simp at h

theorem append {xs ys : List Event} (hx : Series policy id name n xs)
    (hy : Series policy id name (n + xs.length) ys) : Series policy id name n (xs ++ ys) := by
  intro k e h
  by_cases hk : k < xs.length
  · rw [List.getElem?_append_left hk] at h
    exact hx k e h
  · rw [List.getElem?_append_right (by omega)] at h
    have hs := hy (k - xs.length) e h
    rwa [show n + xs.length + (k - xs.length) + 1 = n + k + 1 from by omega] at hs

theorem singleton {e : Event} (hv : e.version = policy.eventVersion (n + 1)) (hi : e.streamId = id)
    (hn : e.streamName = name) : Series policy id name n [e] := by
  intro k e' h
  cases k with
  | zero => cases h; exact ⟨hv, hi, hn⟩
  | succ k => simp at h

theorem streamId_eq {events : List Event} (h : Series policy id name n events) {e : Event}
    (he : e ∈ events) : e.streamId = id := by
  obtain ⟨k, hk⟩ := List.mem_iff_getElem?.mp he
  exact (h k e hk).2.1

/-- Later events have higher versions. -/
theorem rising {events : List Event} (h : Series policy id name n events) :
    events.Pairwise fun x y => x.version < y.version := by
  rw [List.pairwise_iff_getElem]
  intro k l hk hl hkl
  have hx := (h k events[k] (List.getElem?_eq_getElem hk)).1
  have hy := (h l events[l] (List.getElem?_eq_getElem hl)).1
  rw [hx, hy]
  exact policy.eventVersion_lt (by omega)

end Event.Series

namespace Stream

variable {S : Type}

/-- The changes are numbered on from the version that the stream started from, and are its own. -/
def Sound (policy : VersionPolicy) (s : Stream S) : Prop :=
  s.policy = policy ∧ Event.Series policy s.id s.name s.previousVersion s.changes

variable {policy : VersionPolicy} {s : Stream S}

theorem Sound.of_changes_nil (hp : s.policy = policy) (hc : s.changes = []) : s.Sound policy :=
  ⟨hp, by rw [hc]; exact .nil⟩

theorem Sound.clearChanges (h : s.Sound policy) : s.clearChanges.Sound policy :=
  .of_changes_nil h.1 rfl

theorem Sound.assign (h : s.Sound policy) (hc : s.changes = []) (id : StreamId)
    (owner : Option OwnerId) : (s.assign id owner).Sound policy :=
  .of_changes_nil h.1 hc

/-- The stream that `append` leaves, whether it takes the event or not. -/
def appended [State S] (posting : Posting) (name : String) (payload : Payload) (s : Stream S) : Stream S :=
  match append posting name payload s with
  | .ok _ s => s
  | .error _ s => s

/-- Appending adds the next event, or else leaves all but the state. -/
theorem appended_cases [State S] (posting : Posting) (name : String) (payload : Payload)
    (s : Stream S) :
    (∃ json state, s.appended posting name payload = { s with
      state, updatedAt := posting.takenAt, changes := s.changes ++ [s.nextEvent posting.stamp name json] }) ∨
    ∃ state, s.appended posting name payload = { s with state } := by
  cases hp : payload.encode name with
  | error e => exact .inr ⟨s.state, by simp [appended, append, hp]⟩
  | ok json =>
    cases ha : State.apply (s.nextEvent posting.stamp name json) s.state with
    | ok u state => exact .inl ⟨json, state, by simp [appended, append, hp, ha]⟩
    | error e state => exact .inr ⟨state, by simp [appended, append, hp, ha]⟩

theorem Sound.appended [State S] (h : s.Sound policy) (posting : Posting) (name : String)
    (payload : Payload) : (s.appended posting name payload).Sound policy := by
  obtain ⟨json, state, he⟩ | ⟨state, he⟩ := appended_cases posting name payload s
  · rw [he]
    refine ⟨h.1, h.2.append (.singleton ?_ rfl rfl)⟩
    simp [nextEvent, Event.stamped, version, h.1]
  · rw [he]
    exact h

end Stream

end EventJournal
