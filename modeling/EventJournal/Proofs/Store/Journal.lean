import EventJournal.Store

/-!
What a store keeps of each stream, and what storing a stream does to it. A stream is taken exactly when it
has the store's name, can be encoded, and started from the stored version; its journal then grows by the
changes.
-/
namespace EventJournal.Store

variable {S : Type}

/-- The events stored of a stream, oldest first. -/
def journal (store : Store S) (id : StreamId) : List Event :=
  ((store.entry? id).map Entry.journal).getD []

/-- Whatever stands in a journal stands in an entry. -/
theorem exists_entry_of_mem {store : Store S} {id : StreamId} {e : Event} (h : e ∈ store.journal id) :
    ∃ p ∈ store.entries, e ∈ p.2.journal := by
  rw [journal, entry?] at h
  cases hl : store.entries.lookup id with
  | none =>
    rw [hl] at h
    cases h
  | some entry =>
    obtain ⟨l, r, he, -⟩ := List.lookup_eq_some_iff.mp hl
    rw [hl] at h
    refine ⟨(id, entry), ?_, h⟩
    rw [he]
    exact List.mem_append_right _ List.mem_cons_self

/-- The stored version of a stream, which is 0 if nothing is stored. -/
def storedVersion (store : Store S) (id : StreamId) : Nat :=
  (store.versionOf id).getD 0

/-- The store once it has taken a stream with the given snapshot. -/
def extended (store : Store S) (stream : Stream S) (snapshot : String) : Store S :=
  let owner := ((store.entry? stream.id).map Entry.owner).getD stream.owner
  { store with
    entries := setEntry stream.id
      ⟨owner, stream.version, snapshot, store.journal stream.id ++ stream.changes⟩ store.entries }

theorem lookup_setEntry (id j : StreamId) (entry : Entry) (entries : List (StreamId × Entry)) :
    (setEntry id entry entries).lookup j = if j = id then some entry else entries.lookup j := by
  induction entries with
  | nil =>
    by_cases h : j = id
    · simp [setEntry, h]
    · have hb : (j == id) = false := beq_false_of_ne h
      simp [setEntry, List.lookup_cons, hb, h]
  | cons pair rest ih =>
    obtain ⟨i, e⟩ := pair
    by_cases hi : i = id
    · subst i
      by_cases hj : j = id
      · simp [setEntry, hj]
      · have hb : (j == id) = false := beq_false_of_ne hj
        simp [setEntry, List.lookup_cons, hb, hj]
    · simp only [setEntry, hi, if_false, List.lookup_cons, ih]
      by_cases hj : j = i
      · simp [hj, hi]
      · have hb : (j == i) = false := beq_false_of_ne hj
        simp [hb]

/-- The fresh store of a name, a codec and a policy. -/
def fresh (name : String) (codec : Codec) (policy : VersionPolicy) : Store S :=
  ⟨name, codec, policy, [], .empty⟩

@[simp] theorem entry?_fresh (name : String) (codec : Codec) (policy : VersionPolicy) (id : StreamId) :
    Store.entry? (fresh name codec policy : Store S) id = none := rfl

@[simp] theorem journal_fresh (name : String) (codec : Codec) (policy : VersionPolicy)
    (id : StreamId) : (fresh name codec policy : Store S).journal id = [] := rfl

theorem journal_of_some {store : Store S} {id : StreamId} {entry : Entry}
    (h : store.entry? id = some entry) : store.journal id = entry.journal := by
  simp [journal, h]

theorem storedVersion_of_some {store : Store S} {id : StreamId} {entry : Entry}
    (h : store.entry? id = some entry) : store.storedVersion id = entry.version := by
  simp [storedVersion, versionOf, h]

theorem storedVersion_of_none {store : Store S} {id : StreamId} (h : store.entry? id = none) :
    store.storedVersion id = 0 := by
  simp [storedVersion, versionOf, h]

theorem entry?_extended (store : Store S) (stream : Stream S) (snapshot : String) :
    Store.entry? (store.extended stream snapshot) stream.id =
      some ⟨((store.entry? stream.id).map Entry.owner).getD stream.owner, stream.version, snapshot,
        store.journal stream.id ++ stream.changes⟩ := by
  simp [extended, entry?, lookup_setEntry]

theorem entry?_extended_other (store : Store S) (stream : Stream S) (snapshot : String)
    {id : StreamId} (h : id ≠ stream.id) :
    Store.entry? (store.extended stream snapshot) id = store.entry? id := by
  simp [extended, entry?, lookup_setEntry, h]

@[simp] theorem journal_extended (store : Store S) (stream : Stream S) (snapshot : String) :
    (store.extended stream snapshot).journal stream.id = store.journal stream.id ++ stream.changes :=
  journal_of_some (entry?_extended store stream snapshot)

theorem journal_extended_other (store : Store S) (stream : Stream S) (snapshot : String)
    {id : StreamId} (h : id ≠ stream.id) :
    (store.extended stream snapshot).journal id = store.journal id := by
  simp only [journal, entry?_extended_other store stream snapshot h]

@[simp] theorem storedVersion_extended (store : Store S) (stream : Stream S) (snapshot : String) :
    (store.extended stream snapshot).storedVersion stream.id = stream.version :=
  storedVersion_of_some (entry?_extended store stream snapshot)

theorem storedVersion_extended_other (store : Store S) (stream : Stream S) (snapshot : String)
    {id : StreamId} (h : id ≠ stream.id) :
    (store.extended stream snapshot).storedVersion id = store.storedVersion id := by
  simp only [storedVersion, versionOf, entry?_extended_other store stream snapshot h]

@[simp] theorem name_extended (store : Store S) (stream : Stream S) (snapshot : String) :
    (store.extended stream snapshot).name = store.name := rfl

@[simp] theorem policy_extended (store : Store S) (stream : Stream S) (snapshot : String) :
    (store.extended stream snapshot).policy = store.policy := rfl

@[simp] theorem outbox_extended (store : Store S) (stream : Stream S) (snapshot : String) :
    (store.extended stream snapshot).outbox = store.outbox := rfl

variable [State S]

/-- What is loaded was read from the snapshot in the stream's entry. -/
theorem exists_of_load {store : Store S} {id : StreamId} {owner : Option OwnerId} {stream : Stream S}
    (h : store.load id owner = .ok stream) : ∃ entry snapshot, store.entry? id = some entry ∧
      store.codec.decodeValue (Snapshot S) (Text.symbols entry.snapshot) = .ok snapshot ∧
      stream = .ofSnapshot snapshot store.policy := by
  unfold load at h
  split at h
  next => cases h
  next entry he =>
    split at h
    · cases h
    · split at h
      next snapshot hread =>
        cases h
        exact ⟨entry, snapshot, he, hread, rfl⟩
      next => cases h

/-- A loaded stream has the policy of the store, and no changes yet. -/
theorem load_eq_ok {store : Store S} {id : StreamId} {owner : Option OwnerId} {stream : Stream S}
    (h : store.load id owner = .ok stream) : stream.policy = store.policy ∧ stream.changes = [] := by
  obtain ⟨_, _, -, -, rfl⟩ := exists_of_load h
  exact ⟨rfl, rfl⟩

theorem mapError_ok {ε ε' α : Type} (f : ε → ε') (a : α) :
    (Except.ok a : Except ε α).mapError f = .ok a := rfl

omit [State S] in
/-- The changes of a stream with the store's name become a new batch. -/
theorem setAside_eq (store : Store S) (stream : Stream S) (now : Timestamp) :
    store.setAside stream now =
      if stream.name = store.name then
        .ok { store with
          outbox := store.outbox.record fun id =>
            ⟨id, store.name, stream.id, stream.version, stream.changes, now⟩ }
      else .error (.nameMismatch store.name stream.name) := by
  rw [setAside, checkName]
  split <;> rfl

/-- What storing does, with the tests in the order in which they are made. -/
theorem persist_eq (store : Store S) (stream : Stream S) :
    store.persist stream =
      if stream.name = store.name then
        match store.codec.encodeValue stream.snapshot with
        | .error e => .error (.codec e)
        | .ok snapshot =>
          if store.storedVersion stream.id = stream.previousVersion then
            .ok (store.extended stream snapshot)
          else
            .error (.versionConflict store.name stream.id stream.previousVersion
              (store.storedVersion stream.id))
      else .error (.nameMismatch store.name stream.name) := by
  by_cases hn : stream.name = store.name
  · simp only [persist, checkName, hn, if_true, bind, Except.bind]
    cases store.codec.encodeValue stream.snapshot with
    | error e => rfl
    | ok snapshot =>
      cases he : store.entry? stream.id with
      | none =>
        simp only [mapError_ok, Option.getD_none, Stream.expectedVersion,
          ExpectedVersion.admits_exactly, storedVersion_of_none he, extended, journal, he]
        by_cases hv : stream.previousVersion = 0
        · simp [hv, pure, Except.pure]
        · simp [hv, Ne.symm hv, throw, throwThe, MonadExceptOf.throw]
      | some entry =>
        simp only [mapError_ok, Option.getD_some, Stream.expectedVersion,
          ExpectedVersion.admits_exactly, storedVersion_of_some he, extended, journal, he]
        by_cases hv : stream.previousVersion = entry.version
        · simp [hv, pure, Except.pure]
        · simp [hv, Ne.symm hv, throw, throwThe, MonadExceptOf.throw]
  · simp [persist, checkName, hn, bind, Except.bind]

/-- A stream that is taken passed every test, and the store is extended by it. -/
theorem persist_eq_ok {store store' : Store S} {stream : Stream S}
    (h : store.persist stream = .ok store') :
    stream.name = store.name ∧ store.storedVersion stream.id = stream.previousVersion ∧
      ∃ snapshot, store.codec.encodeValue stream.snapshot = .ok snapshot ∧
        store' = store.extended stream snapshot := by
  rw [persist_eq] at h
  split at h
  next hn =>
    split at h
    next => cases h
    next snapshot he =>
      split at h
      next hv =>
        cases h
        exact ⟨hn, hv, snapshot, he, rfl⟩
      next => cases h
  next => cases h

theorem persist_isOk_iff (store : Store S) (stream : Stream S) :
    (∃ store', store.persist stream = .ok store') ↔
      stream.name = store.name ∧ (∃ text, store.codec.encodeValue stream.snapshot = .ok text) ∧
        store.storedVersion stream.id = stream.previousVersion := by
  constructor
  · rintro ⟨store', h⟩
    obtain ⟨hn, hv, text, he, -⟩ := persist_eq_ok h
    exact ⟨hn, ⟨text, he⟩, hv⟩
  · rintro ⟨hn, ⟨text, he⟩, hv⟩
    exact ⟨store.extended stream text, by simp [persist_eq, hn, he, hv]⟩

end EventJournal.Store
