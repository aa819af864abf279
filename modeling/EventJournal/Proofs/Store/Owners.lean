import EventJournal.Proofs.Store.Drafts
import EventJournal.Proofs.Store.Snapshots
import EventJournal.Proofs.Stream.Folding

/-!
Owners of stored streams. The entry of a stream has the owner of the first stream that was stored under its id,
the snapshot in it the owner of the last one. Whoever asks for streams of his own goes by the entry, and gets
what is in the snapshot. So he sees all that is his and nothing else exactly as long as the two agree.
-/
namespace EventJournal

variable {S : Type}

/-- What a writer may do with his drafts. -/
inductive Motion where
  | edit (edit : Edit)
  | own (draft : Nat) (owner : OwnerId)
  /-- Any draft takes a new identity, whether or not it was loaded or has changes. -/
  | rename (draft : Nat) (id : StreamId) (owner : Option OwnerId)

/-- A desk with the streams that its store has taken, the last one last. -/
structure Archive (S : Type) where
  desk : Desk S
  taken : List (Stream S)

namespace Archive

def fresh (name : String) (codec : Codec) (policy : VersionPolicy) : Archive S :=
  ⟨.fresh name codec policy, []⟩

/-- The streams that were taken under an id. -/
def filed (a : Archive S) (id : StreamId) : List (Stream S) :=
  a.taken.filter (·.id = id)

variable [State S]

/-- The stream that the store takes on an edit, if it takes one. -/
def taking (d : Desk S) : Edit → List (Stream S)
  | .persist k =>
    match d.drafts[k]? with
    | some s => if (Desk.persist d.store s).1.isOk then [s] else []
    | none => []
  | _ => []

def step (a : Archive S) : Motion → Archive S
  | .edit edit => ⟨a.desk.step edit, a.taken ++ taking a.desk edit⟩
  | .own k owner => { a with desk.drafts := a.desk.drafts.modify k (·.withOwner owner) }
  | .rename k id owner => { a with desk.drafts := a.desk.drafts.modify k (·.assign id owner) }

def run (a : Archive S) (motions : List Motion) : Archive S :=
  motions.foldl step a

end Archive

namespace Store

variable [State S]

/-- Under an id, owners see what is theirs and only that, and the journal tells of the same owner. -/
structure Scoped (store : Store S) (id : StreamId) : Prop where
  own : ∀ o s, store.load id (some o) = .ok s → s.owner = some o
  seen : ∀ o s, store.load id none = .ok s → s.owner = some o → ∃ t, store.load id (some o) = .ok t
  replayed : ∀ now s t, store.load id none = .ok s → store.replay id now = .ok t → t.owner = s.owner

variable {store : Store S} {id : StreamId}

/-- A stream is loaded if its entry has the owner that is asked for, and its snapshot can be read. -/
theorem load_eq_ok_iff {entry : Entry} (he : store.entry? id = some entry) (owner : Option OwnerId) (s : Stream S) :
    store.load id owner = .ok s ↔ (owner.isSome → entry.owner = owner) ∧
      ∃ snapshot, store.codec.decodeValue (Snapshot S) (Text.symbols entry.snapshot) = .ok snapshot ∧
        s = .ofSnapshot snapshot store.policy := by
  simp only [load, he]
  by_cases ho : owner.isSome ∧ entry.owner ≠ owner
  · rw [if_pos ho]
    constructor
    · intro h
      cases h
    · rintro ⟨h, -⟩
      exact absurd (h ho.1) ho.2
  · rw [if_neg ho]
    have ho' : owner.isSome → entry.owner = owner := fun h => Classical.not_not.mp fun hne => ho ⟨h, hne⟩
    rw [and_iff_right ho']
    cases store.codec.decodeValue (Snapshot S) (Text.symbols entry.snapshot) with
    | ok snapshot =>
      constructor
      · intro h
        cases h
        exact ⟨snapshot, rfl, rfl⟩
      · rintro ⟨_, hs, rfl⟩
        cases hs
        rfl
    | error e =>
      constructor
      · intro h
        cases h
      · rintro ⟨_, hs, -⟩
        cases hs

theorem owner_foldlM_absorb {events : List Event} {s t : Stream S}
    (h : events.foldlM Stream.absorb s = .ok t) : t.owner = s.owner := by
  induction events generalizing s with
  | nil =>
    cases h
    rfl
  | cons event rest ih =>
    rw [List.foldlM_cons, Stream.absorb_eq] at h
    cases ht : State.take s.state event with
    | error e =>
      rw [ht] at h
      cases h
    | ok next =>
      rw [ht] at h
      let u : Stream S :=
        { s with state := next, previousVersion := s.previousVersion + 1, updatedAt := event.createdAt }
      exact ih (s := u) h

theorem owner_of_replay {entry : Entry} (he : store.entry? id = some entry) {now : Timestamp} {t : Stream S}
    (h : store.replay id now = .ok t) : t.owner = entry.owner := by
  simp only [replay, he] at h
  cases hr : Stream.replay (S := S) store.name id entry.owner entry.journal store.policy now with
  | error e =>
    rw [hr] at h
    cases h
  | ok u =>
    rw [hr] at h
    cases h
    exact owner_foldlM_absorb hr

/-- Owners see what is theirs exactly if the entry and what is read from its snapshot have one owner. -/
theorem scoped_iff {entry : Entry} (he : store.entry? id = some entry) :
    store.Scoped id ↔ ∀ snapshot,
      store.codec.decodeValue (Snapshot S) (Text.symbols entry.snapshot) = .ok snapshot →
        snapshot.owner = entry.owner := by
  constructor
  · intro h snapshot hs
    have hload : ∀ owner, (owner.isSome → entry.owner = owner) →
        store.load id owner = .ok (.ofSnapshot snapshot store.policy) :=
      fun owner ho => (load_eq_ok_iff he owner _).mpr ⟨ho, snapshot, hs, rfl⟩
    cases hentry : entry.owner with
    | some o => exact h.own o _ (hload (some o) fun _ => hentry)
    | none =>
      cases hsnapshot : snapshot.owner with
      | none => rfl
      | some o =>
        obtain ⟨t, ht⟩ := h.seen o _ (hload none nofun) hsnapshot
        have ho := ((load_eq_ok_iff he _ t).mp ht).1 rfl
        rw [hentry] at ho
        cases ho
  · intro h
    constructor
    · intro o s hs
      obtain ⟨ho, snapshot, hsnapshot, rfl⟩ := (load_eq_ok_iff he _ s).mp hs
      exact (h snapshot hsnapshot).trans (ho rfl)
    · intro o s hs hso
      obtain ⟨-, snapshot, hsnapshot, rfl⟩ := (load_eq_ok_iff he _ s).mp hs
      have ho : entry.owner = some o := (h snapshot hsnapshot).symm.trans hso
      exact ⟨_, (load_eq_ok_iff he _ _).mpr ⟨fun _ => ho, snapshot, hsnapshot, rfl⟩⟩
    · intro now s t hs ht
      obtain ⟨-, snapshot, hsnapshot, rfl⟩ := (load_eq_ok_iff he _ s).mp hs
      rw [owner_of_replay he ht]
      exact (h snapshot hsnapshot).symm

/-- Nothing is seen where nothing is stored. -/
theorem scoped_of_none (he : store.entry? id = none) : store.Scoped id := by
  have hload : ∀ owner s, store.load id owner ≠ .ok s := by
    intro owner s h
    simp [load, he] at h
  exact ⟨fun o s h => absurd h (hload _ s), fun o s h => absurd h (hload _ s),
    fun now s t h => absurd h (hload _ s)⟩

end Store

namespace Archive

variable [State S] {codec : Codec} {a : Archive S}

omit [State S] in
theorem filed_concat (d : Desk S) (taken : List (Stream S)) (s : Stream S) (id : StreamId) :
    filed ⟨d, taken ++ [s]⟩ id = if s.id = id then filed ⟨d, taken⟩ id ++ [s] else filed ⟨d, taken⟩ id := by
  rw [filed, List.filter_append, filed]
  split
  next h => simp [h]
  next h => simp [h]

/-- An entry has the owner of the first and the snapshot of the last of the streams taken under its id. -/
def Vouched (codec : Codec) : Option Entry → List (Stream S) → Prop
  | none, filed => filed = []
  | some entry, filed => ∃ first last, filed.head? = some first ∧ filed.getLast? = some last ∧
      entry.owner = first.owner ∧ codec.encodeValue last.snapshot = .ok entry.snapshot

structure Sound (codec : Codec) (a : Archive S) : Prop where
  codec_eq : a.desk.store.codec = codec
  vouched : ∀ id, Vouched codec (a.desk.store.entry? id) (a.filed id)

theorem Sound.fresh (name : String) (codec : Codec) (policy : VersionPolicy) :
    Sound codec (fresh name codec policy : Archive S) where
  codec_eq := rfl
  vouched _ := rfl

/-- What is done to drafts is nothing to the store. -/
theorem Sound.of_store_eq (h : a.Sound codec) {d : Desk S} (hd : d.store = a.desk.store) :
    Sound codec ⟨d, a.taken⟩ where
  codec_eq := hd ▸ h.codec_eq
  vouched id := hd ▸ h.vouched id

/-- So is an edit by which no stream is taken. -/
theorem Sound.of_edit (h : a.Sound codec) (edit : Edit) (ht : taking a.desk edit = [])
    (hd : (a.desk.step edit).store = a.desk.store) : (a.step (.edit edit)).Sound codec := by
  rw [Archive.step, ht, List.append_nil]
  exact h.of_store_eq hd

theorem Vouched.extended {store : Store S} {s : Stream S} {filed : List (Stream S)} {snapshot : String}
    (h : Vouched codec (store.entry? s.id) filed) (he : codec.encodeValue s.snapshot = .ok snapshot) :
    Vouched codec (Store.entry? (store.extended s snapshot) s.id) (filed ++ [s]) := by
  rw [Store.entry?_extended]
  cases hentry : store.entry? s.id with
  | none =>
    rw [hentry] at h
    cases h
    exact ⟨s, s, rfl, rfl, rfl, he⟩
  | some entry =>
    rw [hentry] at h
    obtain ⟨first, last, hfirst, -, howner, -⟩ := h
    refine ⟨first, s, ?_, List.getLast?_concat, howner, he⟩
    rw [List.head?_append, hfirst, Option.some_or]

theorem Sound.persist (h : a.Sound codec) (k : Nat) : (a.step (.edit (.persist k))).Sound codec := by
  simp only [step, taking, Desk.step]
  cases hk : a.desk.drafts[k]? with
  | none => simpa using h
  | some s =>
    obtain ⟨snapshot, -, hencode, -, he⟩ | ⟨e, he⟩ := Desk.persist_cases a.desk.store s
    · simp only [he, Except.isOk, Except.toBool, if_true]
      constructor
      · exact h.codec_eq
      · intro id
        rw [filed_concat]
        by_cases hid : s.id = id
        · subst hid
          rw [if_pos rfl]
          exact (h.vouched s.id).extended (h.codec_eq ▸ hencode)
        · rw [if_neg hid, Store.entry?_extended_other _ _ _ (Ne.symm hid)]
          exact h.vouched id
    · simp only [he, Except.isOk, Except.toBool, Bool.false_eq_true, if_false, List.append_nil]
      exact h

theorem Sound.step (h : a.Sound codec) (motion : Motion) : (a.step motion).Sound codec := by
  cases motion with
  | own k owner => exact h.of_store_eq rfl
  | rename k id owner => exact h.of_store_eq rfl
  | edit edit =>
    cases edit with
    | persist k => exact h.persist k
    | load id owner =>
      have hstore : (a.desk.step (.load id owner)).store = a.desk.store := by
        simp only [Desk.step]
        split <;> rfl
      exact h.of_edit (.load id owner) rfl hstore
    | blank stamp => exact h.of_edit (.blank stamp) rfl rfl
    | assign k id owner => exact h.of_edit (.assign k id owner) rfl rfl
    | append k posting name payload => exact h.of_edit (.append k posting name payload) rfl rfl
    | clear k => exact h.of_edit (.clear k) rfl rfl

theorem Sound.run (h : a.Sound codec) (motions : List Motion) : (a.run motions).Sound codec := by
  induction motions generalizing a with
  | nil => exact h
  | cons motion rest ih => exact ih (h.step motion)

/-- With snapshots in JSON it is the last stream taken that is loaded, as it is reread, by whom owned the first. -/
theorem Sound.load_eq_ok_iff {layout : Json.Layout} (h : a.Sound (.json layout))
    (hl : (Coded.shape S).legible) (id : StreamId) (owner : Option OwnerId) (s : Stream S) :
    a.desk.store.load id owner = .ok s ↔ ∃ first last, (a.filed id).head? = some first ∧
      (a.filed id).getLast? = some last ∧ (owner.isSome → first.owner = owner) ∧
        ∃ snapshot, last.snapshot.reread = some snapshot ∧ s = .ofSnapshot snapshot a.desk.store.policy := by
  have hvouched := h.vouched id
  cases he : a.desk.store.entry? id with
  | none =>
    rw [he] at hvouched
    rw [show a.filed id = [] from hvouched]
    constructor
    · intro hs
      simp [Store.load, he] at hs
    · rintro ⟨first, -, hfirst, -⟩
      cases hfirst
  | some entry =>
    rw [he] at hvouched
    obtain ⟨first, last, hfirst, hlast, howner, htext⟩ := hvouched
    have hread := Snapshot.toOption_decodeValue hl htext layout
    rw [Store.load_eq_ok_iff he, h.codec_eq, hfirst, hlast, howner]
    constructor
    · rintro ⟨ho, snapshot, hsnapshot, rfl⟩
      exact ⟨first, last, rfl, rfl, ho, snapshot, hread ▸ Json.toOption_eq_some_iff.mpr hsnapshot, rfl⟩
    · rintro ⟨_, _, ⟨⟩, ⟨⟩, ho, snapshot, hsnapshot, rfl⟩
      refine ⟨ho, snapshot, ?_, rfl⟩
      rw [hsnapshot] at hread
      exact Json.toOption_eq_some_iff.mp hread

/-- However streams are opened, given owners and ids, changed and stored: under an id owners see what is theirs and
only that, and the journal tells of the same owner, exactly if what is read of the stream that was stored last has
the owner of the one that was stored first. -/
theorem scoped_iff_owner_eq (name : String) (codec : Codec) (policy : VersionPolicy) (motions : List Motion)
    (id : StreamId) :
    let a : Archive S := (fresh name codec policy).run motions
    a.desk.store.Scoped id ↔ ∀ first last text snapshot,
      (a.filed id).head? = some first → (a.filed id).getLast? = some last →
        codec.encodeValue last.snapshot = .ok text →
        codec.decodeValue (Snapshot S) (Text.symbols text) = .ok snapshot →
          snapshot.owner = first.owner := by
  intro a
  have ha : a.Sound codec := (Sound.fresh name codec policy).run motions
  have hvouched := ha.vouched id
  cases he : a.desk.store.entry? id with
  | none =>
    rw [he] at hvouched
    refine iff_of_true (Store.scoped_of_none he) ?_
    intro first _ _ _ hfirst
    rw [show a.filed id = [] from hvouched] at hfirst
    cases hfirst
  | some entry =>
    rw [he] at hvouched
    obtain ⟨first, last, hfirst, hlast, howner, htext⟩ := hvouched
    rw [Store.scoped_iff he, ha.codec_eq, howner]
    constructor
    · intro h first' last' text snapshot hfirst' hlast' htext' hsnapshot
      obtain rfl : first = first' := Option.some.inj (hfirst.symm.trans hfirst')
      obtain rfl : last = last' := Option.some.inj (hlast.symm.trans hlast')
      obtain rfl : entry.snapshot = text := Except.ok.inj (htext.symm.trans htext')
      exact h snapshot hsnapshot
    · exact fun h snapshot hsnapshot => h first last entry.snapshot snapshot hfirst hlast htext hsnapshot

end Archive

namespace Handover

def alice : OwnerId :=
  ⟨.ofNat 1⟩

def bob : OwnerId :=
  ⟨.ofNat 2⟩

def cart : StreamId :=
  ⟨.ofNat 3⟩

/-- A stream of one owner is stored, given to another, and stored again. -/
def motions : List Motion :=
  let time : Timestamp := ⟨2024, 1, 1, 0, 0, 0, 0⟩
  [.edit (.blank ⟨.ofNat 4, time⟩), .rename 0 cart (some alice),
    .edit (.append 0 ⟨⟨.ofNat 5, time⟩, time⟩ "noted" (.ok .null)), .edit (.persist 0), .edit (.clear 0), .own 0 bob,
    .edit (.persist 0)]

def store : Store Tally :=
  ((Archive.fresh "tally" (.json .compact) .sequential : Archive Tally).run motions).desk.store

end Handover

/-- The first owner still sees the stream, which has another owner now, who does not see it. -/
theorem seen_by_former_owner :
    (∃ s, Handover.store.load Handover.cart (some Handover.alice) = .ok s ∧ s.owner = some Handover.bob) ∧
      ¬ ∃ s, Handover.store.load Handover.cart (some Handover.bob) = .ok s := by
  let a : Archive Tally := (Archive.fresh "tally" (.json .compact) .sequential).run Handover.motions
  have ha : a.Sound (.json .compact) := (Archive.Sound.fresh _ _ _).run _
  have hloads := ha.load_eq_ok_iff (by decide) Handover.cart
  have hfirst : (a.filed Handover.cart).head?.map (·.owner) = some (some Handover.alice) := by decide +kernel
  have hlast : ((a.filed Handover.cart).getLast?.bind (·.snapshot.reread)).map (·.owner) =
      some (some Handover.bob) := by decide +kernel
  obtain ⟨first, hfirst, halice⟩ := Option.map_eq_some_iff.mp hfirst
  obtain ⟨snapshot, hlast, hbob⟩ := Option.map_eq_some_iff.mp hlast
  obtain ⟨last, hlast, hread⟩ := Option.bind_eq_some_iff.mp hlast
  constructor
  · exact ⟨_, (hloads _ _).mpr ⟨first, last, hfirst, hlast, fun _ => halice, snapshot, hread, rfl⟩, hbob⟩
  · rintro ⟨t, ht⟩
    obtain ⟨first', -, hfirst', -, howner, -⟩ := (hloads _ _).mp ht
    obtain rfl : first = first' := Option.some.inj (hfirst.symm.trans hfirst')
    have hsame : some Handover.alice = some Handover.bob := halice.symm.trans (howner rfl)
    exact absurd hsame (by decide)

end EventJournal
