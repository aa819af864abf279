import EventJournal.Proofs.Store.Snapshots

/-!
Stores that resemble each other: they hold the same streams, which were stored at other times and whose events have
other ids. Streams that resemble each other are stored alike, wherever the store holds the same under their id.
-/
namespace EventJournal

variable {S : Type}

/-- What an event says, whatever its id and its time. -/
structure Gist where
  name : String
  payload : Json
  version : Nat

def Event.gist (e : Event) : Gist :=
  ⟨e.name, e.payload, e.version⟩

/-- Two streams that differ at most in ids and times of their changes. -/
structure Stream.Resembles (s t : Stream S) : Prop where
  id : s.id = t.id
  name : s.name = t.name
  owner : s.owner = t.owner
  previousVersion : s.previousVersion = t.previousVersion
  state : s.state = t.state
  changes : s.changes.map Event.gist = t.changes.map Event.gist

namespace Stream.Resembles

variable {s t : Stream S} (h : s.Resembles t)
include h

theorem symm : t.Resembles s :=
  ⟨h.id.symm, h.name.symm, h.owner.symm, h.previousVersion.symm, h.state.symm, h.changes.symm⟩

theorem length_changes : s.changes.length = t.changes.length := by
  simpa using congrArg List.length h.changes

theorem version_eq : s.version = t.version := by
  rw [version, version, h.previousVersion, h.length_changes]

theorem hasChanges_eq : s.hasChanges = t.hasChanges := by
  have hlength := h.length_changes
  cases hs : s.changes <;> cases ht : t.changes <;> simp_all [hasChanges]

theorem snapshot_eq : { s.snapshot with updatedAt := t.updatedAt } = t.snapshot := by
  simp only [snapshot, h.id, h.name, h.owner, h.version_eq, h.state]

end Stream.Resembles

/-- A codec that minds what it is given: whether a snapshot can be written does not depend on its time, nor does what
else is read of it, and that is about the same stream. -/
structure Codec.Steady (codec : Codec) (S : Type) [State S] : Prop where
  writes : ∀ (s : Snapshot S) text updatedAt, codec.encodeValue s = .ok text →
    ∃ text', codec.encodeValue { s with updatedAt } = .ok text'
  reads : ∀ (s s' : Snapshot S) text, codec.encodeValue s = .ok text →
    codec.decodeValue (Snapshot S) (Text.symbols text) = .ok s' → s'.id = s.id
  rereads : ∀ (s r r' : Snapshot S) text text' updatedAt, codec.encodeValue s = .ok text →
    codec.encodeValue { s with updatedAt } = .ok text' → codec.decodeValue (Snapshot S) (Text.symbols text) = .ok r →
      codec.decodeValue (Snapshot S) (Text.symbols text') = .ok r' → { r with updatedAt := r'.updatedAt } = r'

/-- Two entries of one stream: of the snapshots in them one is the other, but for its time. -/
structure Entry.Resembles (S : Type) [State S] (codec : Codec) (a b : Entry) : Prop where
  owner : a.owner = b.owner
  version : a.version = b.version
  journal : a.journal.map Event.gist = b.journal.map Event.gist
  snapshot : a.snapshot = b.snapshot ∨ ∃ (s : Snapshot S) (updatedAt : Timestamp),
    codec.encodeValue s = .ok a.snapshot ∧ codec.encodeValue { s with updatedAt } = .ok b.snapshot

section Steady

variable [State S]

theorem Entry.rel_refl (codec : Codec) (entry : Option Entry) : Option.Rel (Entry.Resembles S codec) entry entry := by
  cases entry with
  | none => exact .none
  | some entry => exact .some ⟨rfl, rfl, rfl, .inl rfl⟩

end Steady

namespace Store

/-- Two stores that hold streams which resemble each other. -/
structure Resembles [State S] (store store' : Store S) : Prop where
  name_eq : store.name = store'.name
  codec_eq : store.codec = store'.codec
  policy_eq : store.policy = store'.policy
  entries : ∀ id, Option.Rel (Entry.Resembles S store.codec) (store.entry? id) (store'.entry? id)

theorem Resembles.refl [State S] (store : Store S) : store.Resembles store :=
  ⟨rfl, rfl, rfl, fun _ => Entry.rel_refl store.codec _⟩

/-- Streams that are loaded from such stores differ at most in the time of their last change. -/
theorem Resembles.resembles_load [State S] {store store' : Store S} (h : store.Resembles store')
    (hcodec : store.codec.Steady S) {id : StreamId} {owner : Option OwnerId} {s t : Stream S}
    (hs : store.load id owner = .ok s) (ht : store'.load id owner = .ok t) : s.Resembles t := by
  obtain ⟨entry, r, he, hr, rfl⟩ := exists_of_load hs
  obtain ⟨entry', r', he', hr', rfl⟩ := exists_of_load ht
  have hentries := h.entries id
  rw [he, he'] at hentries
  cases hentries with
  | some hentry =>
    have hread : { r with updatedAt := r'.updatedAt } = r' := by
      rw [← h.codec_eq] at hr'
      obtain htext | ⟨s, updatedAt, hwrite, hwrite'⟩ := hentry.snapshot
      · rw [← htext] at hr'
        cases hr.symm.trans hr'
        rfl
      · exact hcodec.rereads s r r' _ _ updatedAt hwrite hwrite' hr hr'
    rw [← hread, ← h.policy_eq]
    exact ⟨rfl, rfl, rfl, rfl, rfl, rfl⟩

/-- Two stores that hold the same under an id. -/
structure Agrees (store store' : Store S) (id : StreamId) : Prop where
  name_eq : store.name = store'.name
  codec_eq : store.codec = store'.codec
  policy_eq : store.policy = store'.policy
  entry_eq : store.entry? id = store'.entry? id

section Agrees

variable {store store' : Store S} {id : StreamId}

theorem Agrees.refl (store : Store S) (id : StreamId) : store.Agrees store id :=
  ⟨rfl, rfl, rfl, rfl⟩

theorem Agrees.symm (h : store.Agrees store' id) : store'.Agrees store id :=
  ⟨h.name_eq.symm, h.codec_eq.symm, h.policy_eq.symm, h.entry_eq.symm⟩

theorem Agrees.trans {store'' : Store S} (h : store.Agrees store' id) (h' : store'.Agrees store'' id) :
    store.Agrees store'' id :=
  ⟨h.name_eq.trans h'.name_eq, h.codec_eq.trans h'.codec_eq, h.policy_eq.trans h'.policy_eq,
    h.entry_eq.trans h'.entry_eq⟩

theorem Agrees.load_eq [State S] (h : store.Agrees store' id) (owner : Option OwnerId) :
    store.load id owner = store'.load id owner := by
  rw [load, load, h.entry_eq, h.name_eq, h.codec_eq, h.policy_eq]

theorem Agrees.journal_eq (h : store.Agrees store' id) : store.journal id = store'.journal id := by
  rw [journal, journal, h.entry_eq]

theorem Agrees.storedVersion_eq (h : store.Agrees store' id) : store.storedVersion id = store'.storedVersion id := by
  rw [storedVersion, storedVersion, versionOf, versionOf, h.entry_eq]

/-- The streams of all other ids stay. -/
theorem agrees_of_persist [State S] {s : Stream S} (h : store.persist s = .ok store') (hid : id ≠ s.id) :
    store.Agrees store' id := by
  obtain ⟨-, -, snapshot, -, rfl⟩ := persist_eq_ok h
  exact ⟨rfl, rfl, rfl, (entry?_extended_other store s snapshot hid).symm⟩

end Agrees

section Persist

variable [State S] {store store' taken taken' : Store S} {s t : Stream S}

/-- A stream is stored in the same way wherever the same is held under its id. -/
theorem Agrees.persist (h : store.Agrees store' s.id) (hs : store.persist s = .ok taken) :
    ∃ taken', store'.persist s = .ok taken' ∧ taken.Agrees taken' s.id := by
  obtain ⟨hname, hversion, text, htext, rfl⟩ := persist_eq_ok hs
  refine ⟨store'.extended s text, ?_, ⟨h.name_eq, h.codec_eq, h.policy_eq, ?_⟩⟩
  · rw [persist_eq, if_pos (hname.trans h.name_eq), ← h.codec_eq, htext]
    exact if_pos (h.storedVersion_eq ▸ hversion)
  · rw [entry?_extended, entry?_extended, h.entry_eq, h.journal_eq]

/-- And leaves an entry that resembles the other one. -/
theorem rel_of_persist (h : s.Resembles t) (hs : store.persist s = .ok taken) (ht : store.persist t = .ok taken') :
    Option.Rel (Entry.Resembles S store.codec) (taken.entry? s.id) (taken'.entry? s.id) := by
  obtain ⟨-, -, text, htext, rfl⟩ := persist_eq_ok hs
  obtain ⟨-, -, text', htext', rfl⟩ := persist_eq_ok ht
  rw [entry?_extended, h.id, entry?_extended]
  refine .some ⟨?_, h.version_eq, ?_, .inr ⟨s.snapshot, t.updatedAt, htext, h.snapshot_eq ▸ htext'⟩⟩
  · rw [h.owner]
  · rw [List.map_append, List.map_append, h.changes]

end Persist

/-- A store into which streams were put, whatever they were, and with whatever outbox. -/
inductive Written [State S] (name : String) (codec : Codec) (policy : VersionPolicy) : Store S → Prop
  | fresh : Written name codec policy (.fresh name codec policy)
  | persist {store store' : Store S} {stream : Stream S} (written : Written name codec policy store)
      (taken : store.persist stream = .ok store') : Written name codec policy store'
  | outbox {store : Store S} (written : Written name codec policy store) (outbox : Outbox) :
      Written name codec policy { store with outbox }

namespace Written

variable [State S] {name : String} {codec : Codec} {policy : VersionPolicy} {store : Store S}
  (h : store.Written name codec policy)
include h

theorem settings_eq : store.name = name ∧ store.codec = codec ∧ store.policy = policy := by
  induction h with
  | fresh => exact ⟨rfl, rfl, rfl⟩
  | persist _ taken ih =>
    obtain ⟨-, -, _, -, rfl⟩ := persist_eq_ok taken
    exact ih
  | outbox _ _ ih => exact ih

theorem name_eq : store.name = name := h.settings_eq.1

theorem codec_eq : store.codec = codec := h.settings_eq.2.1

theorem policy_eq : store.policy = policy := h.settings_eq.2.2

/-- What is kept under an id was written of a stream with that id. -/
theorem exists_snapshot {id : StreamId} {entry : Entry} (he : store.entry? id = some entry) :
    ∃ s : Snapshot S, s.id = id ∧ codec.encodeValue s = .ok entry.snapshot := by
  induction h with
  | fresh => cases he
  | @persist store _ stream written taken ih =>
    obtain ⟨-, -, text, htext, rfl⟩ := persist_eq_ok taken
    by_cases hid : id = stream.id
    · subst hid
      rw [entry?_extended] at he
      cases he
      exact ⟨stream.snapshot, rfl, written.codec_eq ▸ htext⟩
    · rw [entry?_extended_other _ _ _ hid] at he
      exact ih he
  | outbox _ _ ih => exact ih he

/-- So under an id the stream with that id is found. -/
theorem id_of_load (hcodec : codec.Steady S) {id : StreamId} {owner : Option OwnerId} {s : Stream S}
    (hs : store.load id owner = .ok s) : s.id = id := by
  obtain ⟨entry, snapshot, he, hread, rfl⟩ := exists_of_load hs
  obtain ⟨written, rfl, htext⟩ := h.exists_snapshot he
  exact hcodec.reads written snapshot _ htext (h.codec_eq ▸ hread)

end Written

end Store

end EventJournal
