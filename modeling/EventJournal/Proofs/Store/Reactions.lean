import EventJournal.Engine.Controller
import EventJournal.Proofs.Store.Resemblance

/-!
Reactions. An event changes each of its targets in a way that is decided by what is known of the target alone. So what
becomes of one target does not depend on the others, and different targets can be changed in any order.
-/
namespace EventJournal

variable {S : Type}

/-- The owner and the state of a stream after a decision, and what the events say that were appended to it. -/
structure Decision (S : Type) where
  owner : Option OwnerId
  state : S
  gists : List Gist

/-- How the targets of an event are opened, and what is decided on the ground of their ids, owners, versions and
states. -/
structure Reaction (S : Type) where
  mode : Mode
  owner : Option OwnerId
  decide : StreamId → Option OwnerId → Nat → S → Except DomainError (Decision S)

/-- A stream on which a decision was carried out. It is the stream that it was. -/
structure Stream.Becomes (s : Stream S) (d : Decision S) (t : Stream S) : Prop where
  eq : ∃ updatedAt changes, t = { s with owner := d.owner, state := d.state, updatedAt, changes }
  gists : t.changes.map Event.gist = d.gists

/-- Streams that agree in what counts become streams that resemble each other. -/
theorem Stream.Becomes.resembles {s s' t t' : Stream S} {d : Decision S} (h : s.Becomes d t) (h' : s'.Becomes d t')
    (hid : s.id = s'.id) (hname : s.name = s'.name) (hversion : s.previousVersion = s'.previousVersion) :
    t.Resembles t' := by
  obtain ⟨⟨_, _, rfl⟩, hgists⟩ := h
  obtain ⟨⟨_, _, rfl⟩, hgists'⟩ := h'
  exact ⟨hid, hname, rfl, hversion, rfl, hgists.trans hgists'.symm⟩

namespace Reaction

variable [State S] {r : Reaction S} {store store' store₁ store₂ : Store S} {id : StreamId} {s t t' : Stream S}

def decideOn (r : Reaction S) (s : Stream S) : Except DomainError (Decision S) :=
  r.decide s.id s.owner s.version s.state

/-- A stream that is opened for the target. -/
def Opens (r : Reaction S) (store : Store S) (id : StreamId) (s : Stream S) : Prop :=
  match r.mode with
  | .load => store.load id r.owner = .ok s
  | .create => ∃ stamp, s = (store.blankStream stamp).assign id r.owner

/-- A stream that is to be stored for the target. -/
def Prepares (r : Reaction S) (store : Store S) (id : StreamId) (t : Stream S) : Prop :=
  ∃ s d, r.Opens store id s ∧ r.decideOn s = .ok d ∧ s.Becomes d t

/-- The store once the target is done with. What was not changed is not stored. -/
def Moves (r : Reaction S) (store : Store S) (id : StreamId) (store' : Store S) : Prop :=
  ∃ t, r.Prepares store id t ∧ if t.hasChanges then store.persist t = .ok store' else store' = store

section Opens

/-- Streams that are opened for one target agree in all that counts. -/
theorem Opens.agree {s' : Stream S} (h : r.Opens store id s) (h' : r.Opens store id s') :
    s.id = s'.id ∧ s.name = s'.name ∧ s.previousVersion = s'.previousVersion ∧ r.decideOn s = r.decideOn s' := by
  unfold Opens at h h'
  cases hmode : r.mode with
  | load =>
    simp only [hmode] at h h'
    cases h.symm.trans h'
    exact ⟨rfl, rfl, rfl, rfl⟩
  | create =>
    simp only [hmode] at h h'
    obtain ⟨stamp, rfl⟩ := h
    obtain ⟨stamp', rfl⟩ := h'
    exact ⟨rfl, rfl, rfl, rfl⟩

/-- Only what is held under its id matters to how a target is opened. -/
theorem Opens.of_agrees (h : r.Opens store id s) (ha : store.Agrees store' id) : r.Opens store' id s := by
  unfold Opens at h ⊢
  cases hmode : r.mode with
  | load =>
    simp only [hmode] at h ⊢
    exact ha.load_eq r.owner ▸ h
  | create =>
    simp only [hmode] at h ⊢
    obtain ⟨stamp, rfl⟩ := h
    exact ⟨stamp, by rw [Store.blankStream, Store.blankStream, ha.name_eq, ha.policy_eq]⟩

theorem Prepares.resembles (h : r.Prepares store id t) (h' : r.Prepares store id t') : t.Resembles t' := by
  obtain ⟨s, d, hs, hd, ht⟩ := h
  obtain ⟨s', d', hs', hd', ht'⟩ := h'
  obtain ⟨hid, hname, hversion, hdecide⟩ := hs.agree hs'
  rw [hdecide, hd'] at hd
  cases hd
  exact ht.resembles ht' hid hname hversion

theorem Prepares.of_agrees (h : r.Prepares store id t) (ha : store.Agrees store' id) : r.Prepares store' id t := by
  obtain ⟨s, d, hs, hd⟩ := h
  exact ⟨s, d, hs.of_agrees ha, hd⟩

end Opens

variable {name : String} {codec : Codec} {policy : VersionPolicy} (hcodec : codec.Steady S)

section Written

variable (hw : store.Written name codec policy)
include hcodec hw

theorem Opens.id_eq (h : r.Opens store id s) : s.id = id := by
  unfold Opens at h
  cases hmode : r.mode with
  | load =>
    simp only [hmode] at h
    exact hw.id_of_load hcodec h
  | create =>
    simp only [hmode] at h
    obtain ⟨stamp, rfl⟩ := h
    rfl

omit hcodec in
/-- It has no changes yet. -/
theorem Opens.unchanged (h : r.Opens store id s) : s.policy = policy ∧ s.changes = [] := by
  rw [← hw.policy_eq]
  unfold Opens at h
  cases hmode : r.mode with
  | load =>
    simp only [hmode] at h
    exact Store.load_eq_ok h
  | create =>
    simp only [hmode] at h
    obtain ⟨stamp, rfl⟩ := h
    exact ⟨rfl, rfl⟩

theorem Prepares.id_eq (h : r.Prepares store id t) : t.id = id := by
  obtain ⟨s, d, hs, -, ⟨_, _, rfl⟩, -⟩ := h
  have hid : s.id = id := hs.id_eq hcodec hw
  exact hid

/-- All other streams stay as they are. -/
theorem Moves.agrees (h : r.Moves store id store') {id' : StreamId} (hid : id' ≠ id) : store.Agrees store' id' := by
  obtain ⟨t, ht, hstored⟩ := h
  split at hstored
  · exact Store.agrees_of_persist hstored (ht.id_eq hcodec hw ▸ hid)
  · rw [hstored]
    exact .refl store id'

/-- The target is changed in the same way wherever the same is held under its id. -/
theorem Moves.of_agrees (h : r.Moves store id store₁) (ha : store.Agrees store' id) :
    ∃ store₂, r.Moves store' id store₂ ∧ store₁.Agrees store₂ id := by
  obtain ⟨t, ht, hstored⟩ := h
  have ht' := ht.of_agrees ha
  split at hstored
  next hc =>
    rw [← ht.id_eq hcodec hw] at ha
    obtain ⟨taken, htaken, hagrees⟩ := ha.persist hstored
    rw [ht.id_eq hcodec hw] at hagrees
    exact ⟨taken, ⟨t, ht', by rw [if_pos hc]; exact htaken⟩, hagrees⟩
  next hc =>
    subst hstored
    exact ⟨store', ⟨t, ht', by rw [if_neg hc]⟩, ha⟩

/-- What becomes of it is the same but for ids and times. -/
theorem Moves.rel {taken taken' : Store S} (h : r.Moves store id taken) (h' : r.Moves store id taken') :
    Option.Rel (Entry.Resembles S codec) (taken.entry? id) (taken'.entry? id) := by
  obtain ⟨t, ht, hstored⟩ := h
  obtain ⟨t', ht', hstored'⟩ := h'
  have hresembles := ht.resembles ht'
  rw [← hresembles.hasChanges_eq] at hstored'
  split at hstored
  next hc =>
    rw [if_pos hc] at hstored'
    have hrel := Store.rel_of_persist hresembles hstored hstored'
    rwa [ht.id_eq hcodec hw, hw.codec_eq] at hrel
  next hc =>
    rw [if_neg hc] at hstored'
    rw [hstored, hstored']
    exact Entry.rel_refl codec (store.entry? id)

end Written

omit hcodec in
theorem Moves.written (hw : store.Written name codec policy) (h : r.Moves store id store') :
    store'.Written name codec policy := by
  obtain ⟨t, -, hstored⟩ := h
  split at hstored
  · exact hw.persist hstored
  · exact hstored ▸ hw

/-- The store once all targets are done with. -/
structure Settles (r : Reaction S) (store : Store S) (ids : List StreamId) (store' : Store S) : Prop where
  written : ∀ {name codec policy}, store.Written name codec policy → store'.Written name codec policy
  moved : ∀ id ∈ ids, ∃ store₁, r.Moves store id store₁ ∧ store₁.Agrees store' id
  others : ∀ id, id ∉ ids → store.Agrees store' id

section Settles

variable {ids ids' : List StreamId} {store'' : Store S} (hw : store.Written name codec policy)
include hcodec hw

/-- A target comes before others that are different from it. -/
theorem Settles.cons (hnot : id ∉ ids) (h : r.Moves store id store') (hrest : r.Settles store' ids store'') :
    r.Settles store (id :: ids) store'' where
  written hw := hrest.written (h.written hw)
  moved id' hid' := by
    by_cases he : id' = id
    · subst he
      exact ⟨store', h, hrest.others id' hnot⟩
    · obtain ⟨store₁, hmoves, hagrees⟩ := hrest.moved id' ((List.mem_cons.mp hid').resolve_left he)
      obtain ⟨store₂, hmoves', hagrees'⟩ :=
        hmoves.of_agrees hcodec (h.written hw) (h.agrees hcodec hw he).symm
      exact ⟨store₂, hmoves', hagrees'.symm.trans hagrees⟩
  others id' hid' := by
    rw [List.mem_cons, not_or] at hid'
    exact (h.agrees hcodec hw hid'.1).trans (hrest.others id' hid'.2)

/-- In whatever order the targets are done with, the stores resemble each other. -/
theorem Settles.resembles (h : r.Settles store ids store') (h' : r.Settles store ids' store'')
    (hperm : ids.Perm ids') : store'.Resembles store'' := by
  have hw' := h.written hw
  have hw'' := h'.written hw
  refine ⟨hw'.name_eq.trans hw''.name_eq.symm, hw'.codec_eq.trans hw''.codec_eq.symm,
    hw'.policy_eq.trans hw''.policy_eq.symm, fun id => ?_⟩
  rw [hw'.codec_eq]
  by_cases hid : id ∈ ids
  · obtain ⟨store₁, hmoves, hagrees⟩ := h.moved id hid
    obtain ⟨store₂, hmoves', hagrees'⟩ := h'.moved id (hperm.mem_iff.mp hid)
    rw [← hagrees.entry_eq, ← hagrees'.entry_eq]
    exact hmoves.rel hcodec hw hmoves'
  · rw [← (h.others id hid).entry_eq, ← (h'.others id (mt hperm.mem_iff.mpr hid)).entry_eq]
    exact Entry.rel_refl codec (store.entry? id)

end Settles

end Reaction

end EventJournal
