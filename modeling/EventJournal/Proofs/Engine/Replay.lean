import EventJournal.Proofs.Engine.Custody
import EventJournal.Proofs.Engine.Publication
import EventJournal.Proofs.Stream.Folding

/-!
Two ways to a stored stream: from its snapshot, which is written anew with every change, and from its journal,
which only grows. They lead to the same stream, if controllers change streams only by appending to them and the
codec reads what it wrote.
-/
namespace EventJournal

open History

variable {W S α : Type}

/-- What the codec encodes it decodes again. -/
def Codec.Recovers (codec : Codec) (α : Type) [Coded α] : Prop :=
  ∀ (a : α) text, codec.encodeValue a = .ok text → codec.decodeValue α (Text.symbols text) = .ok a

mutual
/-- The values of a shape can be told apart, unless there is free JSON in them. -/
def Shape.decEqVal? : (shape : Shape) → Option (DecidableEq shape.Val)
  | .bool => some (inferInstanceAs (DecidableEq Bool))
  | .nat _ _ => some (inferInstanceAs (DecidableEq Nat))
  | .int => some (inferInstanceAs (DecidableEq Int))
  | .text => some (inferInstanceAs (DecidableEq String))
  | .uuid => some (inferInstanceAs (DecidableEq Uuid))
  | .time => some (inferInstanceAs (DecidableEq Timestamp))
  | .json => none
  | .option inner => inner.decEqVal?.map fun (_ : DecidableEq inner.Val) =>
      inferInstanceAs (DecidableEq (Option inner.Val))
  | .list item => item.decEqVal?.map fun (_ : DecidableEq item.Val) =>
      inferInstanceAs (DecidableEq (List item.Val))
  | .choice names => some (inferInstanceAs (DecidableEq (Fin names.length)))
  | .record _ _ fields => fields.decEqVal?

def Fields.decEqVal? : (fields : Fields) → Option (DecidableEq fields.Val)
  | .nil => some (inferInstanceAs (DecidableEq Unit))
  | .cons _ shape _ rest =>
    shape.decEqVal?.bind fun (_ : DecidableEq shape.Val) =>
      rest.decEqVal?.map fun (_ : DecidableEq rest.Val) =>
        inferInstanceAs (DecidableEq (shape.Val × rest.Val))
end

/-- A codec that refuses to encode what it is not seen to decode. -/
def Codec.checked (codec : Codec) : Codec :=
  { codec with
    encode := fun shape v =>
      match shape.decEqVal?, codec.encode shape v with
      | some _, .ok text =>
        match codec.decode shape (Text.symbols text) with
        | .ok read => if read = v then .ok text else .error (.encode "read otherwise")
        | .error e => .error e
      | none, .ok _ => .error (.encode "not comparable")
      | _, .error e => .error e }

theorem Codec.recovers_checked (codec : Codec) (α : Type) [Coded α] : codec.checked.Recovers α := by
  intro a text h
  simp only [encodeValue, checked] at h
  split at h
  · split at h
    next read hread =>
      split at h
      next heq =>
        cases h
        simp only [decodeValue, checked, hread, heq]
        exact congrArg Except.ok (Coded.ofVal_toVal a)
      · cases h
    · cases h
  · cases h
  · cases h

section Appends

variable [State S]

/-- A program that changes its stream only by appending to it, and gives up when an event is refused. -/
def Revision.Appends (work : Revision (Fiber W) S α) : Prop :=
  ∀ s : Stream S, Keeps s.GrowsTo work

theorem Revision.appends_emit [Ambient (Fiber W)] (name : String) (payload : Payload) :
    Appends (emit name payload : Revision (Fiber W) S Event) :=
  fun _ => Keeps.emit fun ht ha => ht.append ha

/-- The controllers of an engine only append. -/
def Call.Appends (call : Call W S) : Prop :=
  ∀ s : Stream S, call.Keeps s.GrowsTo

theorem Revision.Appends.keeps {work : Revision (Fiber W) S α} (hw : work.Appends) {P : Stream S → Prop}
    (hp : ∀ s t, P s → s.GrowsTo t → P t) : work.Keeps P :=
  fun s hs => (hw s s .refl).mono fun r hr a ha => hp s r.2 hs (hr a ha)

theorem Call.Appends.keeps {call : Call W S} (hc : call.Appends) {P : Stream S → Prop}
    (hp : ∀ s t, P s → s.GrowsTo t → P t) : call.Keeps P := by
  cases call with
  | command staff ctx command | event staff ctx event =>
    exact {
      commands := fun n c hmem ctx command =>
        Revision.Appends.keeps (fun s => (hc s).commands n c hmem ctx command) hp
      events := fun n c hmem ctx event =>
        Revision.Appends.keeps (fun s => (hc s).events n c hmem ctx event) hp }
  | pass publisher config ctx => exact trivial

end Appends

/-- An entry whose snapshot tells what its journal folds to. -/
structure Entry.Tells (S : Type) [State S] (codec : Codec) (name : String) (id : StreamId)
    (entry : Entry) : Prop where
  begun : entry.journal ≠ []
  length : entry.version = entry.journal.length
  snapshot : ∃ updatedAt, ∃ state : S, State.fold entry.journal = .ok state ∧
    codec.decodeValue (Snapshot S) (Text.symbols entry.snapshot) =
      .ok ⟨id, name, entry.owner, entry.version, updatedAt, state⟩

namespace Store

/-- Every snapshot tells what its journal does. -/
structure Telling [State S] (codec : Codec) (name : String) (store : Store S) : Prop where
  name_eq : store.name = name
  codec_eq : store.codec = codec
  tells : ∀ id entry, store.entry? id = some entry → entry.Tells S codec name id

/-- One store has all that another has. -/
structure GrowsTo (store store' : Store S) : Prop where
  journal : ∀ id, store.journal id <+: store'.journal id
  owner : ∀ id entry, store.entry? id = some entry →
    ∃ entry', store'.entry? id = some entry' ∧ entry'.owner = entry.owner

theorem GrowsTo.refl (store : Store S) : store.GrowsTo store :=
  ⟨fun _ => List.prefix_refl _, fun _ entry h => ⟨entry, h, rfl⟩⟩

theorem GrowsTo.trans {a b c : Store S} (h : a.GrowsTo b) (h' : b.GrowsTo c) : a.GrowsTo c where
  journal id := (h.journal id).trans (h'.journal id)
  owner id entry he := by
    obtain ⟨entry', he', ho⟩ := h.owner id entry he
    obtain ⟨entry'', he'', ho'⟩ := h'.owner id entry' he'
    exact ⟨entry'', he'', ho'.trans ho⟩

/-- A stream with the state to which a first part of its journal and its changes fold. -/
structure Roots [State S] (name : String) (store : Store S) (s : Stream S) : Prop where
  name_eq : s.name = name
  folds : ∃ past, past <+: store.journal s.id ∧ past.length = s.previousVersion ∧
    State.fold (past ++ s.changes) = .ok s.state
  owner : s.previousVersion ≠ 0 → ∃ entry, store.entry? s.id = some entry ∧ entry.owner = s.owner

section Roots

variable [State S] {codec : Codec} {name : String} {store store' : Store S} {s : Stream S}

theorem Roots.stable (h : store.Roots name s) (hg : store.GrowsTo store') : store'.Roots name s where
  name_eq := h.name_eq
  folds := by
    obtain ⟨past, hp, hrest⟩ := h.folds
    exact ⟨past, hp.trans (hg.journal s.id), hrest⟩
  owner hv := by
    obtain ⟨entry, he, ho⟩ := h.owner hv
    obtain ⟨entry', he', ho'⟩ := hg.owner s.id entry he
    exact ⟨entry', he', ho'.trans ho⟩

/-- What appending makes of a stream that is rooted in the store. -/
theorem Roots.grows {t : Stream S} (h : store.Roots name s) (hg : s.GrowsTo t) : store.Roots name t := by
  refine hg.keeps h ?_
  intro t state updatedAt event ht htake
  obtain ⟨past, hp, hl, hfold⟩ := ht.folds
  refine ⟨ht.name_eq, ⟨past, hp, hl, ?_⟩, ht.owner⟩
  rw [← List.append_assoc, State.fold_concat hfold, htake]

theorem roots_blank (policy : VersionPolicy) (stamp : Stamp) (id : StreamId) (owner : Option OwnerId) :
    store.Roots name (((Stream.blank name stamp).withPolicy policy).assign id owner) where
  name_eq := rfl
  folds := ⟨[], List.nil_prefix, rfl, rfl⟩
  owner hv := absurd rfl hv

/-- A stored stream can be had both ways, and they agree. -/
theorem Telling.load_replay (h : store.Telling codec name) {id : StreamId} {entry : Entry}
    (he : store.entry? id = some entry) :
    ∃ updatedAt, ∃ state : S,
      store.load id none = .ok ⟨id, name, entry.owner, entry.version, updatedAt, state, [], store.policy⟩ ∧
      ∀ now, ∃ updatedAt, store.replay id now =
        .ok ⟨id, name, entry.owner, entry.version, updatedAt, state, [], store.policy⟩ := by
  have ht := h.tells id entry he
  obtain ⟨updatedAt, state, hfold, hdecode⟩ := ht.snapshot
  rw [← h.codec_eq] at hdecode
  refine ⟨updatedAt, state, ?_, ?_⟩
  · simp only [load, he, hdecode, Option.isSome_none, Bool.false_eq_true, false_and, if_false]
    rfl
  · intro now
    obtain ⟨updatedAt, hr⟩ := Stream.replay_eq_ok hfold name id entry.owner store.policy now
    refine ⟨updatedAt, ?_⟩
    simp only [replay, he, h.name_eq, hr, ht.length]
    rfl

theorem Telling.length_journal (h : store.Telling codec name) (id : StreamId) :
    (store.journal id).length = store.storedVersion id := by
  cases he : store.entry? id with
  | none =>
    rw [storedVersion_of_none he, journal, he]
    rfl
  | some entry => rw [journal_of_some he, storedVersion_of_some he, (h.tells id entry he).length]

theorem Telling.roots_load (h : store.Telling codec name) {id : StreamId} {owner : Option OwnerId}
    (hs : store.load id owner = .ok s) : store.Roots name s := by
  obtain ⟨entry, snapshot, he, hread, rfl⟩ := exists_of_load hs
  have ht := h.tells id entry he
  obtain ⟨updatedAt, state, hfold, hdecode⟩ := ht.snapshot
  rw [h.codec_eq, hdecode] at hread
  cases hread
  exact {
    name_eq := rfl
    folds := by
      refine ⟨entry.journal, ?_, ht.length.symm, ?_⟩
      · exact journal_of_some he ▸ List.prefix_refl _
      · exact (List.append_nil entry.journal).symm ▸ hfold
    owner := fun _ => ⟨entry, he, rfl⟩ }

/-- The owner that is kept of a stream is its own, also if it was stored before. -/
theorem Roots.owner_eq (h : store.Roots name s) (ht : store.Telling codec name)
    (hv : store.storedVersion s.id = s.previousVersion) :
    ((store.entry? s.id).map Entry.owner).getD s.owner = s.owner := by
  cases he : store.entry? s.id with
  | none => rfl
  | some entry =>
    have hpos : s.previousVersion ≠ 0 := by
      rw [← hv, ← ht.length_journal, journal_of_some he]
      exact fun hl => (ht.tells s.id entry he).begun (List.eq_nil_of_length_eq_zero hl)
    obtain ⟨entry', he', ho⟩ := h.owner hpos
    rw [he] at he'
    cases he'
    exact ho

omit [State S] in
theorem growsTo_extended (snapshot : String) : store.GrowsTo (store.extended s snapshot) where
  journal id := by
    by_cases hid : id = s.id
    · subst hid
      rw [journal_extended]
      exact List.prefix_append _ _
    · exact (journal_extended_other store s snapshot hid).symm ▸ List.prefix_refl _
  owner id entry he := by
    by_cases hid : id = s.id
    · subst hid
      exact ⟨_, entry?_extended store s snapshot, by rw [he]; rfl⟩
    · exact ⟨entry, by rw [entry?_extended_other _ _ _ hid, he], rfl⟩

/-- A rooted stream is stored with a snapshot that tells what its journal does. -/
theorem Telling.persist (hcodec : codec.Recovers (Snapshot S)) (h : store.Telling codec name)
    (hs : store.Roots name s) (hc : s.changes ≠ []) (hp : store.persist s = .ok store') :
    store'.Telling codec name ∧ store.GrowsTo store' := by
  obtain ⟨-, hv, snapshot, hencode, rfl⟩ := persist_eq_ok hp
  refine ⟨⟨h.name_eq, h.codec_eq, ?_⟩, growsTo_extended snapshot⟩
  intro id entry he
  by_cases hid : id = s.id
  · subst hid
    rw [entry?_extended, hs.owner_eq h hv] at he
    cases he
    obtain ⟨past, hprefix, hl, hfold⟩ := hs.folds
    have hpast : past = store.journal s.id :=
      hprefix.eq_of_length (by rw [hl, h.length_journal, hv])
    have hdecode : codec.decodeValue (Snapshot S) (Text.symbols snapshot) = .ok s.snapshot :=
      hcodec s.snapshot snapshot (h.codec_eq ▸ hencode)
    exact {
      begun := List.append_ne_nil_of_right_ne_nil _ hc
      length := by
        rw [List.length_append, h.length_journal, hv]
        rfl
      snapshot := by
        refine ⟨s.updatedAt, s.state, hpast ▸ hfold, ?_⟩
        rw [hdecode, Stream.snapshot, hs.name_eq] }
  · rw [entry?_extended_other _ _ _ hid] at he
    exact h.tells id entry he

theorem telling_fresh (name : String) (codec : Codec) (policy : VersionPolicy) :
    (fresh name codec policy : Store S).Telling codec name where
  name_eq := rfl
  codec_eq := rfl
  tells _ _ he := by cases he

omit [State S] in
theorem exists_entry {id : StreamId} (h : id ∈ store.ids) : ∃ entry, store.entry? id = some entry := by
  cases he : store.entry? id with
  | some entry => exact ⟨entry, rfl⟩
  | none =>
    obtain ⟨p, hp, rfl⟩ := List.mem_map.mp h
    have hne := List.lookup_eq_none_iff.mp he p hp
    simp at hne

end Roots

/-- What engines mind for the two ways to agree. -/
def custody (S : Type) [State S] (codec : Codec) (name : String) : Custody S where
  inv := Telling codec name
  grows := GrowsTo
  fits := Roots name

theorem lawful_custody [State S] {codec : Codec} (hcodec : codec.Recovers (Snapshot S)) (name : String)
    (policy : VersionPolicy) : (custody S codec name).Lawful name policy where
  name_eq h := h.name_eq
  refl := GrowsTo.refl
  trans := GrowsTo.trans
  stable := Roots.stable
  load h hs := h.roots_load hs
  blank stamp id owner _ := roots_blank policy stamp id owner
  persist h hs hc hp := h.persist hcodec hs hc hp
  outbox _ h := ⟨⟨h.name_eq, h.codec_eq, h.tells⟩, fun _ => List.prefix_refl _, fun _ e he => ⟨e, he, rfl⟩⟩

end Store

/-- Two streams that differ at most in when they were updated. -/
structure Stream.Alike (s t : Stream S) : Prop where
  id : s.id = t.id
  name : s.name = t.name
  owner : s.owner = t.owner
  previousVersion : s.previousVersion = t.previousVersion
  state : s.state = t.state
  changes : s.changes = t.changes

/-- Whatever engines do with a store that starts empty, and whatever fails, is refused or cancelled meanwhile:
every stored stream can be loaded and can be replayed, which leads to the same stream, without changes. -/
theorem replay_agrees [Ambient (Fiber W)] [State S] (name : String) (codec : Codec)
    (hcodec : codec.Recovers (Snapshot S)) (policy : VersionPolicy) (w : W) (calls : List (Call W S))
    (ha : ∀ call ∈ calls, call.Appends) (moves : List (Move (W → W))) :
    let store := ((Call.crowd name codec policy w calls).run Errand.rules moves).state.1
    ∀ id ∈ store.ids, ∀ now, ∃ loaded replayed, store.load id none = .ok loaded ∧
      store.replay id now = .ok replayed ∧ loaded.Alike replayed ∧ loaded.changes = [] := by
  intro store id hid now
  have hkeeps : ∀ call ∈ calls, ∀ store : Store S, call.Keeps (store.Roots name) :=
    fun call hcall _ => (ha call hcall).keeps fun _ _ hs hg => hs.grows hg
  have hc := Custody.holds_crowd (Store.lawful_custody hcodec name policy) False.elim hkeeps (Store.telling_fresh name codec policy) w moves
  have htelling : store.Telling codec name := hc.inv.1
  obtain ⟨entry, he⟩ := Store.exists_entry hid
  obtain ⟨updatedAt, state, hload, hreplay⟩ := htelling.load_replay he
  obtain ⟨updatedAt', hreplay⟩ := hreplay now
  exact ⟨_, _, hload, hreplay, ⟨rfl, rfl, rfl, rfl, rfl, rfl⟩, rfl⟩

namespace Moody

theorem appends_calls : ∀ call ∈ calls, call.Appends := by
  have hstaff : ∀ s : Stream Tally, staff.Keeps s.GrowsTo := by
    intro s
    have hnoting : ∀ ctx command, Revision.Keeps s.GrowsTo (noting ctx command) :=
      fun ctx command => (Revision.appends_emit "noted" (.ok .null) s).bind fun _ =>
        Revision.keeps_pure none
    exact {
      commands := by
        intro n c hc ctx command
        simp only [staff, List.mem_cons, Prod.mk.injEq, List.not_mem_nil, or_false] at hc
        obtain ⟨-, rfl⟩ | ⟨-, rfl⟩ := hc
        · exact hnoting ctx command
        · exact hnoting ctx command
      events := fun n c hc => by cases hc }
  intro call hcall s
  simp only [calls, List.mem_cons, List.not_mem_nil, or_false] at hcall
  obtain rfl | rfl | rfl := hcall
  · exact hstaff s
  · exact hstaff s
  · trivial

/-- The store after the first command. -/
def stored : Store Tally :=
  ((Call.crowd "tally" (Codec.json .compact).checked .sequential (create [true]) calls).run Errand.rules
    (.replicate 20 (.job 0))).state.1

theorem ids_stored : stored.ids = [⟨.ofNat 2⟩] := by
  decide +kernel

end Moody

/-- So a stream can be had both ways whose first event was not published. -/
theorem replay_agrees_after_refusal :
    (Codec.json .compact).checked.Recovers (Snapshot Tally) ∧ (∀ call ∈ Moody.calls, call.Appends) ∧
      ⟨.ofNat 2⟩ ∈ Moody.stored.ids ∧ ∀ now, ∃ loaded replayed,
        Moody.stored.load ⟨.ofNat 2⟩ none = .ok loaded ∧
          Moody.stored.replay ⟨.ofNat 2⟩ now = .ok replayed ∧ loaded.Alike replayed ∧
            loaded.changes = [] := by
  have hcodec := Codec.recovers_checked (.json .compact) (Snapshot Tally)
  have hid : ⟨.ofNat 2⟩ ∈ Moody.stored.ids := by
    rw [Moody.ids_stored]
    exact List.mem_singleton_self _
  exact ⟨hcodec, Moody.appends_calls, hid, replay_agrees "tally" _ hcodec .sequential (Moody.create [true])
    Moody.calls Moody.appends_calls _ _ hid⟩

end EventJournal
