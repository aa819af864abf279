import EventJournal.Proofs.Store.Resemblance
import EventJournal.Proofs.Stream.Folding
import EventJournal.Tally

/-!
Cuts in the life of a stream. Between its events a stream may count its changes as stored, or be opened again from its
snapshot. Neither of it shows in what it comes to: the state, the version and what the events say follow from what was
asked to be appended, and all the events together replay to them.
-/
namespace EventJournal

variable {S : Type}

/-- States that mind nothing of an event but its name, its payload and its version. -/
def State.Heeds (S : Type) [State S] : Prop :=
  ∀ e e' : Event, e.gist = e'.gist → State.apply (S := S) e = State.apply e'

/-- What may be done with a stream. -/
inductive Handling where
  | append (posting : Posting) (name : String) (payload : Payload)
  /-- Its changes count as stored. -/
  | clear
  /-- It is opened again from its snapshot, under the same policy. -/
  | reopen

/-- What is asked to be appended. The others are cuts. -/
def Handling.said : Handling → Option (String × Payload)
  | .append _ name payload => some (name, payload)
  | .clear | .reopen => none

/-- A stream in use, and what came of the requests to append. -/
structure Course (S : Type) where
  stream : Stream S
  answers : List (Except PayloadError Event)

namespace Course

/-- The events that were appended. -/
def events (c : Course S) : List Event :=
  c.answers.filterMap Except.toOption

/-- What came of the requests, whatever the ids and times of the events. -/
def gists (c : Course S) : List (Except PayloadError Gist) :=
  c.answers.map (Except.map Event.gist)

variable {answers : List (Except PayloadError Event)} {s t : Stream S}

theorem events_ok (event : Event) : (⟨t, answers ++ [.ok event]⟩ : Course S).events =
    (⟨s, answers⟩ : Course S).events ++ [event] := by
  simp [events, Except.toOption]

theorem events_error (e : PayloadError) : (⟨t, answers ++ [.error e]⟩ : Course S).events =
    (⟨s, answers⟩ : Course S).events := by
  simp [events, Except.toOption]

theorem gists_concat {answers' : List (Except PayloadError Event)} {a a' : Except PayloadError Event}
    (h : (⟨s, answers⟩ : Course S).gists = (⟨t, answers'⟩ : Course S).gists)
    (ha : a.map Event.gist = a'.map Event.gist) :
    (⟨s, answers ++ [a]⟩ : Course S).gists = (⟨t, answers' ++ [a']⟩ : Course S).gists := by
  simp only [gists, List.map_append] at h ⊢
  rw [h, List.map_singleton, List.map_singleton, ha]

/-- No request was refused. -/
def Smooth (c : Course S) : Prop :=
  ∀ a ∈ c.answers, a.isOk = true

variable [State S]

def start (name : String) (stamp : Stamp) (owner : Option OwnerId) (policy : VersionPolicy) : Course S :=
  ⟨{ Stream.blank name stamp with owner, policy }, []⟩

def step (c : Course S) : Handling → Course S
  | .append posting name payload =>
    match c.stream.append posting name payload with
    | .ok event stream => ⟨stream, c.answers ++ [.ok event]⟩
    | .error e stream => ⟨stream, c.answers ++ [.error e]⟩
  | .clear => { c with stream := c.stream.clearChanges }
  | .reopen => { c with stream := .ofSnapshot c.stream.snapshot c.stream.policy }

def run (c : Course S) (handlings : List Handling) : Course S :=
  handlings.foldl step c

/-- A stream with this identity whose version counts the events appended so far. If no request was refused its state is
the fold of them. -/
structure Sound (id : StreamId) (name : String) (owner : Option OwnerId) (policy : VersionPolicy) (c : Course S) :
    Prop where
  id_eq : c.stream.id = id
  name_eq : c.stream.name = name
  owner_eq : c.stream.owner = owner
  policy_eq : c.stream.policy = policy
  version_eq : c.stream.version = c.events.length
  fold : c.Smooth → State.fold c.events = .ok c.stream.state

/-- Two courses that differ at most in ids and times, and in what of their version counts as stored. -/
structure Alike (c c' : Course S) : Prop where
  policy : c.stream.policy = c'.stream.policy
  state : c.stream.state = c'.stream.state
  version : c.stream.version = c'.stream.version
  gists : c.gists = c'.gists

end Course

namespace Stream

variable [State S]

/-- A request that is refused changes nothing but the state. -/
theorem append_eq_error {s t : Stream S} {posting : Posting} {name : String} {payload : Payload} {e : PayloadError}
    (h : s.append posting name payload = .error e t) : t = { s with state := t.state } := by
  simp only [append] at h
  split at h
  · cases h
    rfl
  · split at h
    · cases h
    · cases h
      rfl

end Stream

namespace Course

variable [State S] {c c' : Course S} {id : StreamId} {name : String} {owner : Option OwnerId} {policy : VersionPolicy}

theorem step_append (c : Course S) (posting : Posting) (name : String) (payload : Payload) :
    (∃ event stream, c.stream.append posting name payload = .ok event stream ∧
      c.step (.append posting name payload) = ⟨stream, c.answers ++ [.ok event]⟩) ∨
    ∃ e stream, c.stream.append posting name payload = .error e stream ∧
      c.step (.append posting name payload) = ⟨stream, c.answers ++ [.error e]⟩ := by
  simp only [step]
  cases h : c.stream.append posting name payload with
  | ok event stream => exact .inl ⟨event, stream, rfl, rfl⟩
  | error e stream => exact .inr ⟨e, stream, rfl, rfl⟩

namespace Sound

theorem start (stamp : Stamp) (name : String) (owner : Option OwnerId) (policy : VersionPolicy) :
    Sound ⟨stamp.id⟩ name owner policy (.start name stamp owner policy : Course S) :=
  ⟨rfl, rfl, rfl, rfl, rfl, fun _ => rfl⟩

theorem append (h : c.Sound id name owner policy) (posting : Posting) (n : String) (payload : Payload) :
    (c.step (.append posting n payload)).Sound id name owner policy := by
  obtain ⟨event, t, ht, hstep⟩ | ⟨e, t, ht, hstep⟩ := c.step_append posting n payload
  · obtain ⟨htake, hs⟩ := Stream.append_eq_ok ht
    obtain ⟨state, rfl⟩ : ∃ state, t = { c.stream with
        state, updatedAt := posting.takenAt, changes := c.stream.changes ++ [event] } := ⟨_, hs⟩
    rw [hstep]
    refine ⟨h.id_eq, h.name_eq, h.owner_eq, h.policy_eq, ?_, ?_⟩
    · have hversion := h.version_eq
      rw [Stream.version] at hversion
      rw [events_ok, Stream.version, List.length_append, List.length_append, ← hversion, Nat.add_assoc]
    · intro hsmooth
      have hbefore : c.Smooth := fun a ha => hsmooth a (List.mem_append_left _ ha)
      rw [events_ok, State.fold_concat (h.fold hbefore)]
      exact htake
  · obtain ⟨state, rfl⟩ : ∃ state, t = { c.stream with state } := ⟨_, Stream.append_eq_error ht⟩
    rw [hstep]
    refine ⟨h.id_eq, h.name_eq, h.owner_eq, h.policy_eq, ?_, ?_⟩
    · rw [events_error]
      exact h.version_eq
    · intro hsmooth
      cases hsmooth (.error e) (List.mem_append_right _ List.mem_cons_self)

theorem step (h : c.Sound id name owner policy) (handling : Handling) :
    (c.step handling).Sound id name owner policy := by
  cases handling with
  | append posting n payload => exact h.append posting n payload
  | clear => exact ⟨h.id_eq, h.name_eq, h.owner_eq, h.policy_eq, h.version_eq, h.fold⟩
  | reopen => exact ⟨h.id_eq, h.name_eq, h.owner_eq, h.policy_eq, h.version_eq, h.fold⟩

theorem run (h : c.Sound id name owner policy) (handlings : List Handling) :
    (c.run handlings).Sound id name owner policy := by
  induction handlings generalizing c with
  | nil => exact h
  | cons handling rest ih => exact ih (h.step handling)

/-- All the events replay to what the stream has become. -/
theorem replay (h : c.Sound id name owner policy) (hsmooth : c.Smooth) (now : Timestamp) :
    ∃ updatedAt, Stream.replay name id owner c.events policy now =
      .ok ⟨id, name, owner, c.stream.version, updatedAt, c.stream.state, [], policy⟩ := by
  rw [h.version_eq]
  exact Stream.replay_eq_ok (h.fold hsmooth) name id owner policy now

end Sound

namespace Alike

omit [State S] in
theorem symm (h : c.Alike c') : c'.Alike c :=
  ⟨h.policy.symm, h.state.symm, h.version.symm, h.gists.symm⟩

/-- A cut does not show. -/
theorem cut (h : c.Alike c') {handling : Handling} (hcut : handling.said = none) : (c.step handling).Alike c' := by
  cases handling with
  | append posting name payload => cases hcut
  | clear => exact ⟨h.policy, h.state, h.version, h.gists⟩
  | reopen => exact ⟨h.policy, h.state, h.version, h.gists⟩

theorem cuts (h : c.Alike c') {handlings : List Handling} (hcuts : ∀ x ∈ handlings, x.said = none) :
    (c.run handlings).Alike c' := by
  induction handlings generalizing c with
  | nil => exact h
  | cons handling rest ih =>
    exact ih (h.cut (hcuts handling List.mem_cons_self)) fun x hx => hcuts x (List.mem_cons_of_mem _ hx)

section Heeds

variable (hS : State.Heeds S)
include hS

/-- The same request comes to the same. -/
theorem append (h : c.Alike c') (posting posting' : Posting) (name : String) (payload : Payload) :
    (c.step (.append posting name payload)).Alike (c'.step (.append posting' name payload)) := by
  simp only [step, Stream.append]
  cases payload.encode name with
  | error e => exact ⟨h.policy, h.state, h.version, gists_concat h.gists rfl⟩
  | ok json =>
    have hgist : (c.stream.nextEvent posting.stamp name json).gist =
        (c'.stream.nextEvent posting'.stamp name json).gist := by
      simp only [Stream.nextEvent, Event.stamped, Event.gist, h.policy, h.version]
    dsimp only
    rw [hS _ _ hgist, h.state]
    cases State.apply (c'.stream.nextEvent posting'.stamp name json) c'.stream.state with
    | error e state => exact ⟨h.policy, rfl, h.version, gists_concat h.gists rfl⟩
    | ok u state =>
      refine ⟨h.policy, rfl, ?_, gists_concat h.gists (congrArg Except.ok hgist)⟩
      have hversion := h.version
      simp only [Stream.version, List.length_append, List.length_singleton] at hversion ⊢
      omega

/-- What the cuts are, and where, does not show. -/
theorem run (h : c.Alike c') {handlings handlings' : List Handling}
    (hsaid : handlings.filterMap Handling.said = handlings'.filterMap Handling.said) :
    (c.run handlings).Alike (c'.run handlings') := by
  induction handlings generalizing c c' handlings' with
  | nil =>
    have hcuts := List.filterMap_eq_nil_iff.mp hsaid.symm
    exact (h.symm.cuts hcuts).symm
  | cons handling rest ih =>
    cases hs : handling.said with
    | none =>
      rw [List.filterMap_cons_none hs] at hsaid
      exact ih (h.cut hs) hsaid
    | some request =>
      rw [List.filterMap_cons_some hs] at hsaid
      obtain ⟨cuts, handling', rest', rfl, hcuts, hs', hrest⟩ := List.filterMap_eq_cons_iff.mp hsaid.symm
      have hmet := (h.symm.cuts hcuts).symm
      rw [Course.run, Course.run, List.foldl_append]
      -- after the cuts both append what the same request asks for
      cases handling with
      | clear | reopen => cases hs
      | append posting name payload =>
        cases handling' with
        | clear | reopen => cases hs'
        | append posting' name' payload' =>
          cases hs
          cases hs'
          exact ih (hmet.append hS posting posting' name payload) hrest.symm

end Heeds

end Alike

end Course

/-- Cuts do not show. The version is that which storage holds and the pending changes, and counts the events appended;
a request that is refused leaves all but the state. From a blank stream, what was asked to be appended decides the
state, the version and what came of the requests, whatever was drawn for them and wherever the stream was cut. If none
was refused, all the events replay to the stream as it is, without changes. -/
theorem cuts_do_not_show [State S] (hS : State.Heeds S) (name : String) (owner : Option OwnerId)
    (policy : VersionPolicy) :
    (∀ (s t : Stream S) posting n payload e, s.append posting n payload = .error e t →
      t = { s with state := t.state }) ∧
    ∀ stamp handlings,
      let c : Course S := (Course.start name stamp owner policy).run handlings
      c.stream.version = c.stream.previousVersion + c.stream.changes.length ∧
      c.stream.version = c.events.length ∧
      (∀ stamp' handlings', handlings'.filterMap Handling.said = handlings.filterMap Handling.said →
        let c' : Course S := (Course.start name stamp' owner policy).run handlings'
        c'.stream.state = c.stream.state ∧ c'.stream.version = c.stream.version ∧ c'.gists = c.gists) ∧
      (c.Smooth → ∀ now, ∃ updatedAt, Stream.replay name ⟨stamp.id⟩ owner c.events policy now =
        .ok ⟨⟨stamp.id⟩, name, owner, c.stream.version, updatedAt, c.stream.state, [], policy⟩) := by
  constructor
  · intro s t posting n payload e h
    exact Stream.append_eq_error h
  · intro stamp handlings c
    have hsound : c.Sound ⟨stamp.id⟩ name owner policy := (Course.Sound.start stamp name owner policy).run handlings
    refine ⟨rfl, hsound.version_eq, ?_, hsound.replay⟩
    intro stamp' handlings' hsaid c'
    have hstart : (Course.start name stamp' owner policy : Course S).Alike (.start name stamp owner policy) :=
      ⟨rfl, rfl, rfl, rfl⟩
    have halike : c'.Alike c := hstart.run hS hsaid
    exact ⟨halike.state, halike.version, halike.gists⟩

namespace Tally

theorem heeds : State.Heeds Tally := by
  intro e e' h
  obtain ⟨hname, hpayload, -⟩ := Gist.mk.inj h
  change Tally.apply e = Tally.apply e'
  funext t
  simp only [apply, Event.decode, hname, hpayload]

def stamp (n : Nat) : Stamp :=
  ⟨.ofNat n, ⟨2024, 1, 1, 0, 0, 0, n⟩⟩

/-- Three requests, of which the second is refused, with cuts between them. -/
def cutUp : List Handling :=
  [.append (stamp 2) "added" (.of (Added.mk 5)), .clear, .append (stamp 3) "lost" (.ok .null), .reopen,
    .append (stamp 4) "userJoined" (.of (UserJoined.mk "g")), .append (stamp 5) "noted" (.ok .null)]

def uncut : List Handling :=
  [.append (stamp 12) "added" (.of (Added.mk 5)), .append (stamp 13) "lost" (.ok .null),
    .append (stamp 14) "userJoined" (.of (UserJoined.mk "g")), .append (stamp 15) "noted" (.ok .null)]

def course (handlings : List Handling) : Course Tally :=
  (Course.start "tally" (stamp 1) none (.reserving 3 (by decide))).run handlings

end Tally

/-- The numbering under a reserving policy goes on behind the cuts. -/
theorem cuts_do_not_show_reserving : State.Heeds Tally ∧
    Tally.uncut.filterMap Handling.said = Tally.cutUp.filterMap Handling.said ∧
    (Tally.course Tally.uncut).stream.state = (Tally.course Tally.cutUp).stream.state ∧
    (Tally.course Tally.uncut).gists = (Tally.course Tally.cutUp).gists ∧
    (Tally.course Tally.cutUp).stream.state = ⟨5, ["g"]⟩ ∧
    (Tally.course Tally.cutUp).events.map (·.version) = [1, 2, 4] := by
  have hsaid : Tally.uncut.filterMap Handling.said = Tally.cutUp.filterMap Handling.said := rfl
  obtain ⟨-, hcourse⟩ := cuts_do_not_show Tally.heeds "tally" none (.reserving 3 (by decide))
  obtain ⟨-, -, hcuts, -⟩ := hcourse (Tally.stamp 1) Tally.cutUp
  obtain ⟨hstate, -, hgists⟩ := hcuts (Tally.stamp 1) Tally.uncut hsaid
  exact ⟨Tally.heeds, hsaid, hstate, hgists, by decide +kernel, by decide +kernel⟩

end EventJournal
