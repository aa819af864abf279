import EventJournal.Ambient
import EventJournal.Proofs.Store.Journal
import EventJournal.Proofs.Stream.Numbering
import EventJournal.Tally

/-!
Many writers on one store. Each has drafts: streams that were opened, changed, cleared or stored in any
order, also several of one stream. The counters of a draft, of an entry and of its journal stay in step,
so of two writers that start from one version at most one gets its changes in.
-/
namespace EventJournal

/-- The whole state of a program as a cell. -/
def Cell.whole {s : Type} : Cell (StateM s) s :=
  ⟨fun f => f⟩

/-- A step of a writer; drafts go by the order in which they were opened. -/
inductive Edit where
  | load (id : StreamId) (owner : Option OwnerId)
  | blank (stamp : Stamp)
  /-- Only a draft without changes takes a new identity. -/
  | assign (draft : Nat) (id : StreamId) (owner : Option OwnerId)
  | append (draft : Nat) (posting : Posting) (name : String) (payload : Payload)
  | clear (draft : Nat)
  | persist (draft : Nat)

/-- A store with the drafts that were opened on it. -/
structure Desk (S : Type) where
  store : Store S
  drafts : List (Stream S)

namespace Desk

variable {S : Type}

/-- No stream is stored, and no draft is open. -/
def fresh (name : String) (codec : Codec) (policy : VersionPolicy) : Desk S :=
  ⟨.fresh name codec policy, []⟩

/-- The journals are series as long as the stored versions say, and all drafts are sound. -/
structure Sound (name : String) (codec : Codec) (policy : VersionPolicy) (d : Desk S) : Prop where
  name_eq : d.store.name = name
  codec_eq : d.store.codec = codec
  policy_eq : d.store.policy = policy
  length : ∀ id, d.store.storedVersion id = (d.store.journal id).length
  series : ∀ id, Event.Series policy id name 0 (d.store.journal id)
  drafts : ∀ s ∈ d.drafts, s.Sound policy

section Sound

variable {name : String} {codec : Codec} {policy : VersionPolicy} {d : Desk S}

theorem Sound.fresh (name : String) (codec : Codec) (policy : VersionPolicy) :
    (fresh name codec policy : Desk S).Sound name codec policy where
  name_eq := rfl
  codec_eq := rfl
  policy_eq := rfl
  length _ := rfl
  series _ := .nil
  drafts := by simp [Desk.fresh]

theorem Sound.open (h : d.Sound name codec policy) {s : Stream S} (hp : s.policy = d.store.policy)
    (hc : s.changes = []) : Sound name codec policy { d with drafts := d.drafts ++ [s] } := by
  refine { h with drafts := ?_ }
  intro t ht
  rcases List.mem_append.mp ht with ht | ht
  · exact h.drafts t ht
  · rw [List.mem_singleton.mp ht]
    exact .of_changes_nil (hp.trans h.policy_eq) hc

theorem Sound.modify (h : d.Sound name codec policy) (k : Nat) {f : Stream S → Stream S}
    (hf : ∀ s, s.Sound policy → (f s).Sound policy) :
    Sound name codec policy { d with drafts := d.drafts.modify k f } := by
  refine { h with drafts := ?_ }
  intro t ht
  obtain ⟨j, hj⟩ := List.mem_iff_getElem?.mp ht
  rw [List.getElem?_modify] at hj
  by_cases hk : k = j
  · simp only [hk, if_true, Option.map_eq_map, Option.map_eq_some_iff] at hj
    obtain ⟨s, hs, rfl⟩ := hj
    exact hf s (h.drafts s (List.mem_of_getElem? hs))
  · simp only [hk, if_false, Option.map_eq_map] at hj
    rw [Option.map_id'] at hj
    exact h.drafts t (List.mem_of_getElem? hj)

/-- A sound stream continues the journal that it is stored into. -/
theorem Sound.extend (h : d.Sound name codec policy) {s : Stream S} (hs : s.Sound policy)
    (hn : s.name = d.store.name) (hv : d.store.storedVersion s.id = s.previousVersion)
    (snapshot : String) : Sound name codec policy { d with store := d.store.extended s snapshot } where
  name_eq := h.name_eq
  codec_eq := h.codec_eq
  policy_eq := h.policy_eq
  drafts := h.drafts
  length id := by
    by_cases hid : id = s.id
    · subst id
      have hl := h.length s.id
      simp only [Store.storedVersion_extended, Store.journal_extended, List.length_append,
        Stream.version]
      omega
    · simp only [Store.storedVersion_extended_other _ _ _ hid, Store.journal_extended_other _ _ _ hid,
        h.length]
  series id := by
    by_cases hid : id = s.id
    · subst id
      have hl := h.length s.id
      rw [Store.journal_extended]
      refine (h.series s.id).append ?_
      rw [Nat.zero_add, ← hl, hv, ← h.name_eq, ← hn]
      exact hs.2
    · rw [Store.journal_extended_other _ _ _ hid]
      exact h.series id

end Sound

variable [State S]

/-- Tries to store a stream. -/
def persist (store : Store S) (stream : Stream S) : Except StorageError Unit × Store S :=
  Cell.whole.attempt (fun store => store.persist stream) store

def step (d : Desk S) : Edit → Desk S
  | .load id owner =>
    match d.store.load id owner with
    | .ok s => { d with drafts := d.drafts ++ [s] }
    | .error _ => d
  | .blank stamp => { d with drafts := d.drafts ++ [d.store.blankStream stamp] }
  | .assign k id owner =>
    { d with drafts := d.drafts.modify k fun s => if s.hasChanges then s else s.assign id owner }
  | .append k posting name payload =>
    { d with drafts := d.drafts.modify k fun s => s.appended posting name payload }
  | .clear k => { d with drafts := d.drafts.modify k Stream.clearChanges }
  | .persist k =>
    match d.drafts[k]? with
    | some s => { d with store := (persist d.store s).2 }
    | none => d

def run (d : Desk S) (edits : List Edit) : Desk S :=
  edits.foldl step d

@[simp] theorem run_nil (d : Desk S) : d.run [] = d := rfl

@[simp] theorem run_cons (d : Desk S) (edit : Edit) (edits : List Edit) :
    d.run (edit :: edits) = (d.step edit).run edits := rfl

/-- Either the stream is taken and the store extended by it, or an error is told and nothing changes. -/
theorem persist_cases (store : Store S) (stream : Stream S) :
    (∃ snapshot, stream.name = store.name ∧ store.codec.encodeValue stream.snapshot = .ok snapshot ∧
      store.storedVersion stream.id = stream.previousVersion ∧
      persist store stream = (.ok (), store.extended stream snapshot)) ∨
    ∃ e, persist store stream = (.error e, store) := by
  cases h : store.persist stream with
  | ok store' =>
    obtain ⟨hn, hv, snapshot, he, rfl⟩ := Store.persist_eq_ok h
    exact .inl ⟨snapshot, hn, he, hv, by simp [persist, Cell.attempt, Cell.whole, h]⟩
  | error e => exact .inr ⟨e, by simp [persist, Cell.attempt, Cell.whole, h]⟩

theorem persist_ok_iff (store : Store S) (stream : Stream S) :
    (persist store stream).1 = .ok () ↔
      stream.name = store.name ∧ (∃ text, store.codec.encodeValue stream.snapshot = .ok text) ∧
        store.storedVersion stream.id = stream.previousVersion := by
  rw [← Store.persist_isOk_iff]
  cases h : store.persist stream with
  | ok store' => simp [persist, Cell.attempt, Cell.whole, h]
  | error e => simp [persist, Cell.attempt, Cell.whole, h]

variable {name : String} {codec : Codec} {policy : VersionPolicy} {d : Desk S}

theorem Sound.step (h : d.Sound name codec policy) (edit : Edit) :
    (d.step edit).Sound name codec policy := by
  cases edit with
  | load id owner =>
    simp only [Desk.step]
    split
    next s hs =>
      obtain ⟨hp, hc⟩ := Store.load_eq_ok hs
      exact h.open hp hc
    next => exact h
  | blank stamp => exact h.open rfl rfl
  | assign k id owner =>
    refine h.modify k fun s hs => ?_
    by_cases hc : s.changes = []
    · simpa [Stream.hasChanges, hc] using hs.assign hc id owner
    · simpa [Stream.hasChanges, hc] using hs
  | append k posting name payload => exact h.modify k fun s hs => hs.appended posting name payload
  | clear k => exact h.modify k fun s hs => hs.clearChanges
  | persist k =>
    simp only [Desk.step]
    split
    next s hs =>
      obtain ⟨snapshot, hn, -, hv, he⟩ | ⟨e, he⟩ := persist_cases d.store s
      · rw [he]
        exact h.extend (h.drafts s (List.mem_of_getElem? hs)) hn hv snapshot
      · rw [he]
        exact h
    next => exact h

theorem Sound.run (h : d.Sound name codec policy) (edits : List Edit) :
    (d.run edits).Sound name codec policy := by
  induction edits generalizing d with
  | nil => exact h
  | cons edit edits ih => exact ih (h.step edit)

/-- A stored version is not lowered by storing a stream, its own or another. -/
theorem storedVersion_persist_le (store : Store S) (stream : Stream S) (id : StreamId) :
    store.storedVersion id ≤ (persist store stream).2.storedVersion id := by
  obtain ⟨snapshot, -, -, hv, he⟩ | ⟨e, he⟩ := persist_cases store stream
  · rw [he]
    by_cases hid : id = stream.id
    · subst id
      rw [Store.storedVersion_extended, hv]
      exact Nat.le_add_right _ _
    · exact Nat.le_of_eq (Store.storedVersion_extended_other store stream snapshot hid).symm
  · exact Nat.le_of_eq (by rw [he])

theorem storedVersion_step_le (d : Desk S) (edit : Edit) (id : StreamId) :
    d.store.storedVersion id ≤ (d.step edit).store.storedVersion id := by
  cases edit with
  | load id' owner =>
    simp only [Desk.step]
    split <;> exact Nat.le_refl _
  | persist k =>
    simp only [Desk.step]
    split
    next s hs => exact storedVersion_persist_le d.store s id
    next => exact Nat.le_refl _
  | blank | assign | append | clear => exact Nat.le_refl _

theorem storedVersion_run_le (d : Desk S) (edits : List Edit) (id : StreamId) :
    d.store.storedVersion id ≤ (d.run edits).store.storedVersion id := by
  induction edits generalizing d with
  | nil => exact Nat.le_refl _
  | cons edit edits ih => exact Nat.le_trans (storedVersion_step_le d edit id) (ih (d.step edit))

/-- Once the changes of a draft are in, whatever started from the same version is refused for good. -/
theorem persist_ne_ok_of_taken {s t : Stream S} {k : Nat} (hs : d.drafts[k]? = some s)
    (hc : s.changes ≠ []) (ht : (persist d.store s).1 = .ok ()) (later : List Edit) (hid : t.id = s.id)
    (hv : t.previousVersion = s.previousVersion) :
    (persist (d.run (.persist k :: later)).store t).1 ≠ .ok () := by
  intro hok
  have hstored : (d.run (.persist k :: later)).store.storedVersion s.id = s.previousVersion := by
    rw [← hid, ← hv]
    exact ((persist_ok_iff _ t).mp hok).2.2
  have hstep : (d.step (.persist k)).store.storedVersion s.id = s.version := by
    obtain ⟨snapshot, -, -, -, he⟩ | ⟨e, he⟩ := persist_cases d.store s
    · simp [Desk.step, hs, he]
    · rw [he] at ht
      cases ht
  have hle := storedVersion_run_le (d.step (.persist k)) later s.id
  have hpos : 0 < s.changes.length := List.length_pos_iff.mpr hc
  rw [run_cons] at hstored
  rw [hstored, hstep, Stream.version] at hle
  omega

/-- A stream that is taken adds its changes to its journal and touches nothing else. -/
theorem persist_ok_effect {store : Store S} {s : Stream S} (h : (persist store s).1 = .ok ()) :
    (persist store s).2.journal s.id = store.journal s.id ++ s.changes ∧
      (persist store s).2.storedVersion s.id = s.version ∧
      (∀ id, id ≠ s.id → Store.entry? (persist store s).2 id = store.entry? id) ∧
      (persist store s).2.outbox = store.outbox := by
  obtain ⟨snapshot, -, -, -, he⟩ | ⟨e, he⟩ := persist_cases store s
  · rw [he]
    refine ⟨?_, ?_, ?_, rfl⟩
    · exact Store.journal_extended store s snapshot
    · exact Store.storedVersion_extended store s snapshot
    · intro id hid
      exact Store.entry?_extended_other store s snapshot hid
  · rw [he] at h
    cases h

theorem persist_error_effect {store : Store S} {s : Stream S} {e : StorageError}
    (h : (persist store s).1 = .error e) : (persist store s).2 = store := by
  obtain ⟨snapshot, -, -, -, he⟩ | ⟨e', he⟩ := persist_cases store s
  · rw [he] at h
    cases h
  · rw [he]

/-- No update is lost. However the writers interleave, a stream is taken exactly if it has the store's
name, can be encoded and started from the stored version; it then adds its changes to its own journal
and nothing else, and a refusal changes nothing. So the entries keep in step with their journals, and of
two drafts with changes that started from one version of a stream at most one is taken. -/
theorem no_lost_update (name : String) (codec : Codec) (policy : VersionPolicy) (edits : List Edit) :
    let d : Desk S := (fresh name codec policy).run edits
    (∀ s, ((persist d.store s).1 = .ok () ↔
        s.name = name ∧ (∃ text, codec.encodeValue s.snapshot = .ok text) ∧
          d.store.storedVersion s.id = s.previousVersion)) ∧
    (∀ s, (persist d.store s).1 = .ok () →
        (persist d.store s).2.journal s.id = d.store.journal s.id ++ s.changes ∧
          (persist d.store s).2.storedVersion s.id = s.version ∧
          (∀ id, id ≠ s.id → Store.entry? (persist d.store s).2 id = d.store.entry? id) ∧
          (persist d.store s).2.outbox = d.store.outbox) ∧
    (∀ s e, (persist d.store s).1 = .error e → (persist d.store s).2 = d.store) ∧
    (∀ id entry, d.store.entry? id = some entry →
        entry.version = entry.journal.length ∧
          ∀ k e, entry.journal[k]? = some e →
            e.version = policy.eventVersion (k + 1) ∧ e.streamId = id ∧ e.streamName = name) ∧
    (∀ (k j : Nat) (s t : Stream S) (later : List Edit),
        d.drafts[k]? = some s → s.changes ≠ [] → (persist d.store s).1 = .ok () →
          (d.run (.persist k :: later)).drafts[j]? = some t → t.changes ≠ [] →
          t.id = s.id → t.previousVersion = s.previousVersion →
          (persist (d.run (.persist k :: later)).store t).1 ≠ .ok ()) := by
  intro d
  have hd : d.Sound name codec policy := (Sound.fresh name codec policy).run edits
  refine ⟨?_, ?_, ?_, ?_, ?_⟩
  · intro s
    rw [persist_ok_iff, hd.name_eq, hd.codec_eq]
  · intro s h
    exact persist_ok_effect h
  · intro s e h
    exact persist_error_effect h
  · intro id entry h
    have hl := hd.length id
    have hs := hd.series id
    rw [Store.storedVersion_of_some h, Store.journal_of_some h] at hl
    rw [Store.journal_of_some h] at hs
    refine ⟨hl, ?_⟩
    intro k e he
    have hk := hs k e he
    rwa [Nat.zero_add] at hk
  · intro k j s t later hs hc ht _ _ hid hv
    exact persist_ne_ok_of_taken hs hc ht later hid hv

/-- Two writers that make the stream of one id anew and each note something. -/
def twoWriters (stamp other : Stamp) (id : StreamId) : List Edit :=
  [.blank stamp, .blank other, .assign 0 id none, .assign 1 id none, .append 0 stamp "noted" (.ok .null),
    .append 1 other "noted" (.ok .null)]

/-- The second of two writers that start from nothing is refused, after the first was taken. -/
theorem no_lost_update_two_writers :
    let time : Timestamp := ⟨2024, 1, 1, 0, 0, 0, 0⟩
    let d : Desk Tally := (fresh "tally" (.json .compact) .sequential).run
      (twoWriters ⟨.ofNat 1, time⟩ ⟨.ofNat 2, time⟩ ⟨.ofNat 3⟩)
    ∃ s t, d.drafts[0]? = some s ∧ (d.step (.persist 0)).drafts[1]? = some t ∧
      (persist d.store s).1 = .ok () ∧ (persist (d.step (.persist 0)).store t).1 ≠ .ok () := by
  intro time d
  have h := no_lost_update (S := Tally) "tally" (.json .compact) .sequential
    (twoWriters ⟨.ofNat 1, time⟩ ⟨.ofNat 2, time⟩ ⟨.ofNat 3⟩)
  refine ⟨_, _, rfl, rfl, rfl, ?_⟩
  have hlater := h.2.2.2.2
  exact hlater 0 1 _ _ [] rfl (List.cons_ne_nil _ _) rfl rfl (List.cons_ne_nil _ _) rfl rfl

end Desk

end EventJournal
