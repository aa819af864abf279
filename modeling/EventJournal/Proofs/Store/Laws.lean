import EventJournal.Proofs.Store.Snapshots
import EventJournal.Proofs.Stream.Folding

/-!
Laws of stored streams. A law tells what the id, the owner, the journal and the state of a stream have to do with
each other. A store obeys it if every stream in it does and every snapshot is of the state that the journal folds to.
-/
namespace EventJournal

variable {S : Type}

abbrev Law (S : Type) :=
  StreamId → Option OwnerId → List Event → S → Prop

/-- An entry with the state that its journal folds to. When that was last changed is not told by the journal, for the
clock is read once for an event and once more for the stream that takes it in. -/
structure Entry.Obeys [State S] (law : Law S) (layout : Json.Layout) (name : String) (id : StreamId) (entry : Entry)
    (state : S) : Prop where
  shows : ∃ updatedAt, entry.Shows layout name id updatedAt state
  ne_nil : entry.journal ≠ []
  length : entry.version = entry.journal.length
  folds : State.fold entry.journal = .ok state
  law : law id entry.owner entry.journal state

namespace Store

/-- A stored stream is in this state, whether it is had from its snapshot or from its journal. -/
structure Keeps [State S] (store : Store S) (id : StreamId) (state : S) : Prop where
  loaded : ∀ owner s, store.load id owner = .ok s → s.state = state
  replayed : ∀ now, ∃ s, store.replay id now = .ok s ∧ s.state = state

structure Obeys [State S] (law : Law S) (layout : Json.Layout) (name : String) (policy : VersionPolicy)
    (store : Store S) : Prop where
  name_eq : store.name = name
  codec_eq : store.codec = .json layout
  policy_eq : store.policy = policy
  entries : ∀ id entry, store.entry? id = some entry → ∃ state, entry.Obeys law layout name id state

variable [State S] {law : Law S} {layout : Json.Layout} {name : String} {policy : VersionPolicy}
  {store store' : Store S} {s : Stream S}

theorem obeys_fresh : (fresh name (.json layout) policy : Store S).Obeys law layout name policy where
  name_eq := rfl
  codec_eq := rfl
  policy_eq := rfl
  entries _ _ he := by cases he

theorem Obeys.withOutbox (h : store.Obeys law layout name policy) (outbox : Outbox) :
    Obeys law layout name policy { store with outbox } :=
  ⟨h.name_eq, h.codec_eq, h.policy_eq, h.entries⟩

theorem Obeys.length_journal (h : store.Obeys law layout name policy) (id : StreamId) :
    (store.journal id).length = store.storedVersion id := by
  cases he : store.entry? id with
  | none =>
    rw [storedVersion_of_none he, journal, he]
    rfl
  | some entry =>
    obtain ⟨state, hentry⟩ := h.entries id entry he
    rw [journal_of_some he, storedVersion_of_some he, hentry.length]

/-- What is stored has a version. -/
theorem Obeys.entry?_eq_none (h : store.Obeys law layout name policy) {id : StreamId}
    (hv : store.storedVersion id = 0) : store.entry? id = none := by
  cases he : store.entry? id with
  | none => rfl
  | some entry =>
    obtain ⟨state, hentry⟩ := h.entries id entry he
    rw [← h.length_journal, journal_of_some he, List.length_eq_zero_iff] at hv
    exact absurd hv hentry.ne_nil

/-- A stream that obeys the law together with what is stored of it may be stored. -/
theorem Obeys.persist (h : store.Obeys law layout name policy) (hp : store.persist s = .ok store')
    (hchanges : s.changes ≠ []) (howner : ∀ entry, store.entry? s.id = some entry → entry.owner = s.owner)
    (hfold : State.fold (store.journal s.id ++ s.changes) = .ok s.state)
    (hlaw : law s.id s.owner (store.journal s.id ++ s.changes) s.state) :
    store'.Obeys law layout name policy := by
  obtain ⟨hname, hv, snapshot, hencode, rfl⟩ := persist_eq_ok hp
  refine ⟨h.name_eq, h.codec_eq, h.policy_eq, ?_⟩
  intro id entry he
  by_cases hid : id = s.id
  · subst hid
    have hkept : ((store.entry? s.id).map Entry.owner).getD s.owner = s.owner := by
      cases hentry : store.entry? s.id with
      | none => rfl
      | some entry => exact howner entry hentry
    rw [entry?_extended, hkept] at he
    cases he
    refine ⟨s.state, ?_⟩
    exact {
      shows := ⟨s.updatedAt, ⟨by rw [← h.codec_eq, ← h.name_eq, ← hname]; exact hencode⟩⟩
      ne_nil := List.append_ne_nil_of_right_ne_nil _ hchanges
      length := by
        rw [List.length_append, h.length_journal, hv]
        rfl
      folds := hfold
      law := hlaw }
  · rw [entry?_extended_other _ _ _ hid] at he
    exact h.entries id entry he

section First

variable {stamp : Stamp} {id : StreamId} {owner : Option OwnerId} {event : Event}
  (hs : ((store.blankStream stamp).assign id owner).Takes event s)
include hs

/-- The first event of a stream is stored if there is nothing yet. -/
theorem Obeys.persist_blank (h : store.Obeys law layout name policy) :
    (store.entry? id = none ∧ ∃ store', store.persist s = .ok store') ∨
      ∃ entry, store.entry? id = some entry ∧
        store.persist s = .error (.versionConflict name id 0 entry.version) := by
  have hencode : ∃ snapshot, store.codec.encodeValue s.snapshot = .ok snapshot := by
    rw [h.codec_eq]
    exact ⟨_, rfl⟩
  obtain ⟨snapshot, hencode⟩ := hencode
  have hid : s.id = id := hs.id_eq
  have hname : s.name = store.name := hs.name_eq
  have hprevious : s.previousVersion = 0 := hs.previousVersion_eq
  rw [persist_eq, if_pos hname, hencode, hid, hprevious]
  cases he : store.entry? id with
  | none =>
    refine .inl ⟨rfl, store.extended s snapshot, ?_⟩
    dsimp only
    rw [if_pos (storedVersion_of_none he)]
  | some entry =>
    refine .inr ⟨entry, rfl, ?_⟩
    have hne : store.storedVersion id ≠ 0 := by
      intro hv
      rw [h.entry?_eq_none hv] at he
      cases he
    dsimp only
    rw [if_neg hne, h.name_eq, storedVersion_of_some he]

theorem Obeys.entry?_of_persist (h : store.Obeys law layout name policy) (hp : store.persist s = .ok store') :
    store.entry? id = none := by
  obtain ⟨hnone, -⟩ | ⟨entry, -, hpersist⟩ := h.persist_blank hs
  · exact hnone
  · rw [hp] at hpersist
    cases hpersist

theorem Obeys.persist_first (h : store.Obeys law layout name policy) (hp : store.persist s = .ok store')
    (hlaw : law id owner [event] s.state) : store'.Obeys law layout name policy := by
  have hnone := h.entry?_of_persist hs hp
  have hjournal : store.journal id = [] := by rw [journal, hnone]; rfl
  have hid : s.id = id := hs.id_eq
  have howner : s.owner = owner := by
    rw [hs.owner_eq]
    cases owner <;> rfl
  have hchanges : s.changes = [event] := hs.changes_eq
  refine h.persist hp hs.changes_ne_nil ?_ ?_ ?_
  · rw [hid, hnone]
    intro entry he
    cases he
  · rw [hid, hjournal, hchanges, List.nil_append]
    exact (State.fold_concat State.fold_nil event).trans hs.take
  · rw [hid, howner, hjournal, hchanges]
    exact hlaw

end First

section Plain

variable (hp : Coded.Plain S) {id : StreamId} {entry : Entry} {state : S} {owner : Option OwnerId}
include hp

theorem Obeys.load (h : store.Obeys law layout name policy) (hs : store.load id owner = .ok s) :
    ∃ entry state, store.entry? id = some entry ∧ entry.Obeys law layout name id state ∧
      ∃ updatedAt, s = ⟨id, name, entry.owner, entry.version, updatedAt, state, [], policy⟩ := by
  obtain ⟨entry, -, he, -⟩ := exists_of_load hs
  obtain ⟨state, hentry⟩ := h.entries id entry he
  obtain ⟨_, hshows⟩ := hentry.shows
  obtain ⟨updatedAt, rfl⟩ := load_eq_of_shows hp h.codec_eq he (h.name_eq ▸ hshows) hs
  exact ⟨entry, state, he, hentry, updatedAt, by rw [h.name_eq, h.policy_eq]⟩

/-- A further event may be stored where the stream still is what was loaded. -/
theorem Obeys.persist_next (h : store.Obeys law layout name policy) {opened : Stream S}
    (hopened : store.load id owner = .ok opened) {event : Event} (hs : opened.Takes event s)
    (hstore : store.persist s = .ok store')
    (hlaw : ∀ entry : Entry, entry.Obeys law layout name id opened.state →
      law id entry.owner (entry.journal ++ [event]) s.state) : store'.Obeys law layout name policy := by
  obtain ⟨entry, state, he, hentry, updatedAt, rfl⟩ := h.load hp hopened
  have hid : s.id = id := hs.id_eq
  have howner : s.owner = entry.owner := hs.owner_eq
  have hchanges : s.changes = [event] := hs.changes_eq
  refine h.persist hstore hs.changes_ne_nil ?_ ?_ ?_
  · intro entry' he'
    rw [hid, he] at he'
    cases he'
    exact howner.symm
  · rw [hid, journal_of_some he, hchanges]
    exact (State.fold_concat hentry.folds event).trans hs.take
  · rw [hid, howner, journal_of_some he, hchanges]
    exact hlaw entry hentry

theorem Obeys.keeps (h : store.Obeys law layout name policy) (he : store.entry? id = some entry)
    (hentry : entry.Obeys law layout name id state) : store.Keeps id state where
  loaded owner s hs := by
    obtain ⟨_, hshows⟩ := hentry.shows
    obtain ⟨updatedAt, rfl⟩ := load_eq_of_shows hp h.codec_eq he (h.name_eq ▸ hshows) hs
    rfl
  replayed now := by
    obtain ⟨updatedAt, hr⟩ := Stream.replay_eq_ok hentry.folds store.name id entry.owner store.policy now
    exact ⟨_, by rw [replay, he]; dsimp only; rw [hr]; rfl, rfl⟩

/-- Its snapshot was written with some time, and it can be loaded if that can be read. -/
theorem Obeys.toOption_load (h : store.Obeys law layout name policy) (he : store.entry? id = some entry)
    (hentry : entry.Obeys law layout name id state) : ∃ updatedAt, entry.Shows layout name id updatedAt state ∧
      ((Coded.shape S).Bounded (Coded.toVal state) → entry.version ≤ greatestVersion →
        (store.load id none).toOption = updatedAt.reread.map fun updatedAt =>
          ⟨id, name, entry.owner, entry.version, updatedAt, state, [], policy⟩) := by
  obtain ⟨updatedAt, hshows⟩ := hentry.shows
  refine ⟨updatedAt, hshows, fun hstate hversion => ?_⟩
  rw [toOption_load_of_shows hp h.codec_eq he (h.name_eq ▸ hshows) hversion hstate, h.name_eq, h.policy_eq]

end Plain

end Store

end EventJournal
