import EventJournal.Proofs.Engine.Conduct

/-!
The books of a store that many engines and relays share: where each stored event is to be found, and what
the outbox, the jobs and the journals know of each other. Every deed keeps them.
-/
namespace EventJournal

open History

variable {S : Type}

namespace Parcel

/-- The events stand one after the other in their journal, and end at the version. -/
def LiesIn (p : Parcel) (store : Store S) : Prop :=
  ∃ before after, store.journal p.id = before ++ p.events ++ after ∧
    (before ++ p.events).length = p.version

theorem LiesIn.grow {p : Parcel} {store store' : Store S} (hp : p.LiesIn store)
    (hj : ∀ id, store.journal id <+: store'.journal id) : p.LiesIn store' := by
  obtain ⟨before, after, he, hl⟩ := hp
  obtain ⟨more, hm⟩ := hj p.id
  have he' : store'.journal p.id = before ++ p.events ++ (after ++ more) := by
    rw [← hm, he, List.append_assoc]
  exact ⟨before, after ++ more, he', hl⟩

theorem LiesIn.isInfix {p : Parcel} {store : Store S} (hp : p.LiesIn store) :
    p.events <:+: store.journal p.id := by
  obtain ⟨before, after, he, -⟩ := hp
  exact ⟨before, after, he.symm⟩

end Parcel

theorem Store.journal_prefix_extended (store : Store S) (stream : Stream S) (snapshot : String)
    (id : StreamId) : store.journal id <+: (store.extended stream snapshot).journal id := by
  by_cases h : id = stream.id
  · subst id
    rw [journal_extended]
    exact List.prefix_append _ _
  · exact ⟨[], by rw [journal_extended_other store stream snapshot h, List.append_nil]⟩

/-- What a relay knows of a batch that it was told of: should the outbox still have one under that id, it
is the same. -/
structure Known (store : Store S) (b : PendingBatch) : Prop where
  id_le : b.id ≤ store.outbox.lastId
  lies : b.parcel.LiesIn store
  same : ∀ b' ∈ store.outbox.batches, b'.id = b.id → b' = b

namespace Known

variable {store : Store S} {b : PendingBatch}

theorem extended (hb : Known store b) (stream : Stream S) (snapshot : String) :
    Known (store.extended stream snapshot) b :=
  ⟨hb.id_le, hb.lies.grow (store.journal_prefix_extended stream snapshot), hb.same⟩

/-- A new batch has an id of its own. -/
theorem record (hb : Known store b) (batch : Nat → PendingBatch) (hid : ∀ n, (batch n).id = n) :
    Known (store.withOutbox (store.outbox.record batch)) b where
  id_le := Nat.le_succ_of_le hb.id_le
  lies := hb.lies
  same b' hb' he := by
    have hle := hb.id_le
    simp only [Store.withOutbox, Outbox.record, List.mem_append, List.mem_singleton] at hb'
    rcases hb' with hb' | rfl
    · exact hb.same b' hb' he
    · rw [hid] at he
      omega

theorem acknowledge (hb : Known store b) (id : Nat) : Known (store.acknowledge id) b where
  id_le := hb.id_le
  lies := hb.lies
  same b' hb' := hb.same b' (List.mem_filter.mp hb').1

end Known

/-- What the phase of a job says is so. -/
def Phase.Sound (store : Store S) (h : List (Nat × Deed)) : Phase → Prop
  | .free => True
  | .owes p => p.LiesIn store
  | .carries bs => ∀ b ∈ bs, Known store b
  | .delivered b rest => (∀ b' ∈ b :: rest, Known store b') ∧ ∃ i, (i, .published b.events) ∈ h

/-- An event that was published, is pending, is still in the hands of a job, or was lost by one. -/
def Accounted (store : Store S) (h : List (Nat × Deed)) (e : Event) : Prop :=
  (∃ i es, (i, .published es) ∈ h ∧ e ∈ es) ∨
  (∃ b ∈ store.outbox.batches, e ∈ b.events) ∨
  (∃ i p, phase (own i h) = .owes p ∧ e ∈ p.events) ∨
  ∃ i p, (i, .lost p) ∈ h ∧ e ∈ p.events

/-- By these deeds somebody stored the parcel, or was told that it was pending. -/
def Handled (p : Parcel) (deeds : List Deed) : Prop :=
  .stored p ∈ deeds ∨ ∃ bs b, .held bs ∈ deeds ∧ b ∈ bs ∧ b.parcel = p

/-- `tidy` says that controllers add only events of the stream they work on. -/
structure Books (tidy : Prop) (store : Store S) (h : List (Nat × Deed)) : Prop where
  length : ∀ id, store.storedVersion id = (store.journal id).length
  filed : tidy → ∀ id, ∀ e ∈ store.journal id, e.streamId = id
  pending : ∀ b ∈ store.outbox.batches, Known store b
  handed : ∀ i es, (i, .handed es) ∈ h →
    ∃ p, p.events = es ∧ Handled p (own i h) ∧ es <:+: store.journal p.id
  phases : ∀ i, (phase (own i h)).Sound store h
  accounted : ∀ id, ∀ e ∈ store.journal id, Accounted store h e

/-- All changes are events of the stream. -/
def Stream.Own (s : Stream S) : Prop :=
  ∀ e ∈ s.changes, e.streamId = s.id

theorem phase_own_concat (i : Nat) (h : List (Nat × Deed)) (d : Deed) :
    phase (own i (h ++ [(i, d)])) = (phase (own i h)).after d := by
  rw [own_concat, phase_concat]

theorem phase_own_concat_other {i j : Nat} (hij : j ≠ i) (h : List (Nat × Deed)) (d : Deed) :
    phase (own j (h ++ [(i, d)])) = phase (own j h) := by
  have ho : own j [(i, d)] = [] := own_told_other hij [d]
  rw [own_append, ho, List.append_nil]

theorem Handled.mono {p : Parcel} {deeds deeds' : List Deed} (hp : Handled p deeds)
    (hd : ∀ d ∈ deeds, d ∈ deeds') : Handled p deeds' := by
  rcases hp with hp | ⟨bs, b, hbs, hb, he⟩
  · exact .inl (hd _ hp)
  · exact .inr ⟨bs, b, hd _ hbs, hb, he⟩

section Has

/-- The parcels with which a job has to do in a phase. -/
def Phase.Has (p : Parcel) : Phase → Prop
  | .free => False
  | .owes q => q = p
  | .carries bs => ∃ b ∈ bs, b.parcel = p
  | .delivered b rest => ∃ b' ∈ b :: rest, b'.parcel = p

variable {p : Parcel} {f : Phase}

/-- A deed brings only the parcels that it tells of. -/
theorem Phase.has_after {d : Deed} (hp : (f.after d).Has p) : f.Has p ∨ Handled p [d] := by
  cases d with
  | stored q =>
    rw [after_stored] at hp
    exact .inr (.inl (by rw [hp]; exact List.mem_singleton.mpr rfl))
  | held bs =>
    rw [after_held] at hp
    obtain ⟨b, hb, he⟩ := hp
    exact .inr (.inr ⟨bs, b, List.mem_singleton.mpr rfl, hb, he⟩)
  | handed es =>
    rw [after_handed] at hp
    exact .inl hp
  | refused es =>
    rw [after_refused] at hp
    exact .inl hp
  | published es =>
    cases f with
    | carries bs =>
      cases bs with
      | nil => exact .inl hp
      | cons b rest => exact .inl hp
    | owes q => exact hp.elim
    | free | delivered => exact .inl hp
  | kept q | lost q =>
    cases f with
    | carries bs => cases bs <;> exact .inl hp
    | owes r => exact hp.elim
    | free | delivered => exact .inl hp
  | acknowledged id =>
    cases f with
    | carries bs => cases bs <;> exact .inl hp
    | delivered b rest =>
      obtain ⟨b', hb', he⟩ := hp
      exact .inl ⟨b', List.mem_cons_of_mem b hb', he⟩
    | free | owes => exact .inl hp

theorem Phase.has_foldl {deeds : List Deed} (hp : (deeds.foldl Phase.after f).Has p) :
    f.Has p ∨ Handled p deeds := by
  induction deeds generalizing f with
  | nil => exact .inl hp
  | cons d rest ih =>
    obtain hp | hp := ih hp
    · obtain hp | hp := has_after hp
      · exact .inl hp
      · exact .inr (hp.mono fun d' hd' => by
          rw [List.mem_singleton.mp hd']
          exact List.mem_cons_self)
    · exact .inr (hp.mono fun d' hd' => List.mem_cons_of_mem d hd')

/-- Whatever a job has to do with it has stored, or was told of. -/
theorem handled_of_has {deeds : List Deed} (hp : (phase deeds).Has p) : Handled p deeds := by
  obtain hp | hp := Phase.has_foldl hp
  · exact hp.elim
  · exact hp

/-- What is offered in a phase are the events of a parcel. -/
theorem Phase.Offers.has {es : List Event} (hf : f.Offers es) : ∃ p, p.events = es ∧ f.Has p := by
  cases f with
  | owes p => exact ⟨p, hf.symm, rfl⟩
  | carries bs =>
    cases bs with
    | nil => cases hf
    | cons b rest => exact ⟨b.parcel, hf.symm, b, List.mem_cons_self, rfl⟩
  | free | delivered => cases hf

theorem Phase.Sound.lies {store : Store S} {h : List (Nat × Deed)} (hs : f.Sound store h)
    (hp : f.Has p) : p.LiesIn store := by
  cases f with
  | free => cases hp
  | owes q => exact hp ▸ hs
  | carries bs =>
    obtain ⟨b, hb, rfl⟩ := hp
    exact (hs b hb).lies
  | delivered b rest =>
    obtain ⟨b', hb', rfl⟩ := hp
    exact (hs.1 b' hb').lies

end Has

theorem Phase.Sound.mono {store store' : Store S} {h h' : List (Nat × Deed)} {f : Phase}
    (hs : f.Sound store h) (hj : ∀ id, store.journal id <+: store'.journal id)
    (hk : ∀ b, Known store b → Known store' b) (hh : ∀ n ∈ h, n ∈ h') : f.Sound store' h' := by
  cases f with
  | free => trivial
  | owes p => exact Parcel.LiesIn.grow hs hj
  | carries bs => exact fun b hb => hk b (hs b hb)
  | delivered b rest =>
    obtain ⟨hb, i, hi⟩ := hs
    exact ⟨fun b' hb' => hk b' (hb b' hb'), i, hh _ hi⟩

namespace Does

variable [State S] {P : Stream S → Prop} {store store' : Store S} {f : Phase} {d : Deed}

theorem journal_prefix (hd : Does P store f d store') (id : StreamId) :
    store.journal id <+: store'.journal id := by
  cases hd with
  | stored free sound changed taken =>
    obtain ⟨-, -, snapshot, -, rfl⟩ := Store.persist_eq_ok taken
    exact store.journal_prefix_extended _ snapshot id
  | handed | published | refused | kept | lost | held | acknowledged => exact List.prefix_rfl

/-- Stored versions go on counting the events stored. -/
theorem length (hd : Does P store f d store')
    (hl : ∀ id, store.storedVersion id = (store.journal id).length) (id : StreamId) :
    store'.storedVersion id = (store'.journal id).length := by
  cases hd with
  | @stored _ s _ free sound changed taken =>
    obtain ⟨-, hv, snapshot, -, rfl⟩ := Store.persist_eq_ok taken
    by_cases hid : id = s.id
    · subst hid
      have hlen := hl s.id
      rw [Store.storedVersion_extended, Store.journal_extended, List.length_append, Stream.version]
      omega
    · rw [Store.storedVersion_extended_other _ _ _ hid, Store.journal_extended_other _ _ _ hid]
      exact hl id
  | handed | published | refused | kept | lost | held | acknowledged => exact hl id

/-- Only storing changes a journal, by the changes of a stream. -/
theorem mem_journal (hd : Does P store f d store') {id : StreamId} {e : Event}
    (he : e ∈ store'.journal id) :
    e ∈ store.journal id ∨ ∃ s, P s ∧ d = .stored s.parcel ∧ s.id = id ∧ e ∈ s.changes := by
  cases hd with
  | @stored _ s _ free sound changed taken =>
    obtain ⟨-, hv, snapshot, -, rfl⟩ := Store.persist_eq_ok taken
    by_cases hid : id = s.id
    · subst hid
      rw [Store.journal_extended] at he
      rcases List.mem_append.mp he with he | he
      · exact .inl he
      · exact .inr ⟨s, sound, rfl, rfl, he⟩
    · rw [Store.journal_extended_other _ _ _ hid] at he
      exact .inl he
  | handed | published | refused | kept | lost | held | acknowledged => exact .inl he

theorem policy_eq (hd : Does P store f d store') : store'.policy = store.policy := by
  cases hd with
  | stored free sound changed taken =>
    obtain ⟨-, -, snapshot, -, rfl⟩ := Store.persist_eq_ok taken
    rfl
  | handed | published | refused | kept | lost | held | acknowledged => rfl

/-- Only what is offered is handed to a publisher. -/
theorem handed_eq {es : List Event} (hd : Does P store f (.handed es) store') :
    f.Offers es ∧ store' = store := by
  cases hd with
  | handed offers => exact ⟨offers, rfl⟩

theorem known (hd : Does P store f d store') {b : PendingBatch} (hb : Known store b) :
    Known store' b := by
  cases hd with
  | stored free sound changed taken =>
    obtain ⟨-, -, snapshot, -, rfl⟩ := Store.persist_eq_ok taken
    exact hb.extended _ snapshot
  | kept batch hid hp => exact hb.record batch hid
  | acknowledged => exact hb.acknowledge _
  | handed | published | refused | lost | held => exact hb

variable {tidy : Prop} {h : List (Nat × Deed)} {i : Nat}

/-- A batch that is recorded holds what a job owed. -/
theorem pending (hd : Does P store f d store') (hs : f.Sound store h)
    (hb : ∀ b ∈ store.outbox.batches, Known store b) : ∀ b ∈ store'.outbox.batches, Known store' b := by
  intro b hb'
  cases hd with
  | kept batch hid hp =>
    simp only [Store.withOutbox, Outbox.record, List.mem_append, List.mem_singleton] at hb'
    rcases hb' with hb' | rfl
    · exact (hb b hb').record batch hid
    · exact {
        id_le := Nat.le_of_eq (hid _)
        lies := by
          rw [hp]
          exact hs
        same := by
          intro b' hb' he
          simp only [Store.withOutbox, Outbox.record, List.mem_append, List.mem_singleton] at hb'
          rcases hb' with hb' | rfl
          · have hle := (hb b' hb').id_le
            rw [he, hid] at hle
            omega
          · rfl }
  | acknowledged => exact (hb b (List.mem_filter.mp hb').1).acknowledge _
  | stored free sound changed taken =>
    obtain ⟨-, -, snapshot, -, rfl⟩ := Store.persist_eq_ok taken
    exact (hb b hb').extended _ snapshot
  | handed | published | refused | lost | held => exact hb b hb'

/-- The phase that a deed leads to is as sound as the one before it. -/
theorem phase_sound (hd : Does P store f d store') (hl : ∀ id, store.storedVersion id =
    (store.journal id).length) (hb : ∀ b ∈ store.outbox.batches, Known store b)
    (hs : f.Sound store h) : (f.after d).Sound store' (h ++ [(i, d)]) := by
  have hmono : f.Sound store' (h ++ [(i, d)]) :=
    hs.mono hd.journal_prefix (fun _ => hd.known) fun _ hn => List.mem_append_left _ hn
  cases hd with
  | @stored _ s _ free sound changed taken =>
    obtain ⟨-, hv, snapshot, -, rfl⟩ := Store.persist_eq_ok taken
    have hlen := hl s.id
    have hjournal : (store.extended s snapshot).journal s.id =
        store.journal s.id ++ s.changes ++ [] := by
      rw [List.append_nil]
      exact Store.journal_extended store s snapshot
    have hversion : (store.journal s.id ++ s.changes).length = s.version := by
      rw [List.length_append, Stream.version]
      omega
    rw [Phase.after_stored]
    exact ⟨store.journal s.id, [], hjournal, hversion⟩
  | handed => rwa [Phase.after_handed]
  | refused => rwa [Phase.after_refused]
  | published offers =>
    cases f with
    | owes p => trivial
    | carries bs =>
      cases bs with
      | nil => cases offers
      | cons b rest =>
        rw [show _ = b.events from offers]
        exact ⟨hmono, i, by simp⟩
    | free | delivered => cases offers
  | kept | lost => trivial
  | held free limit =>
    rw [Phase.after_held]
    exact fun b hb' => hb b (List.mem_of_mem_take hb')
  | acknowledged => exact fun b' hb' => hmono.1 b' (List.mem_cons_of_mem _ hb')

/-- No deed takes an event from its place without giving it another. -/
theorem accounted (hd : Does P store (phase (own i h)) d store')
    (hs : (phase (own i h)).Sound store h) {e : Event} (ha : Accounted store h e) :
    Accounted store' (h ++ [(i, d)]) e := by
  have hmem : ∀ n ∈ h, n ∈ h ++ [(i, d)] := fun n hn => List.mem_append_left _ hn
  rcases ha with ⟨j, es, hj, he⟩ | ⟨b, hb, he⟩ | ⟨j, p, hp, he⟩ | ⟨j, p, hp, he⟩
  · exact .inl ⟨j, es, hmem _ hj, he⟩
  · generalize hf : phase (own i h) = f at hd hs
    cases hd with
    | stored free sound changed taken =>
      obtain ⟨-, -, snapshot, -, rfl⟩ := Store.persist_eq_ok taken
      exact .inr (.inl ⟨b, hb, he⟩)
    | kept batch hid hp => exact .inr (.inl ⟨b, List.mem_append_left _ hb, he⟩)
    | @acknowledged b₀ rest =>
      obtain ⟨hknown, k, hk⟩ := hs
      by_cases hid : b.id = b₀.id
      · rw [(hknown b₀ List.mem_cons_self).same b hb hid] at he
        exact .inl ⟨k, b₀.events, hmem _ hk, he⟩
      · have hleft : b ∈ (store.outbox.acknowledge b₀.id).batches :=
          List.mem_filter.mpr ⟨hb, by simpa using hid⟩
        exact .inr (.inl ⟨b, hleft, he⟩)
    | handed | published | refused | lost | held => exact .inr (.inl ⟨b, hb, he⟩)
  · by_cases hij : j = i
    · subst hij
      have hphase := phase_own_concat j h d
      rw [hp] at hd hphase
      have hkeep : phase (own j (h ++ [(j, d)])) = .owes p →
          Accounted store' (h ++ [(j, d)]) e :=
        fun hp' => .inr (.inr (.inl ⟨j, p, hp', he⟩))
      cases hd with
      | stored free => cases free
      | held free => cases free
      | handed => exact hkeep (by rw [hphase, Phase.after_handed])
      | refused => exact hkeep (by rw [hphase, Phase.after_refused])
      | @published _ es offers =>
        have hes : es = p.events := offers
        rw [← hes] at he
        exact .inl ⟨j, es, by simp, he⟩
      | kept batch hid hparcel =>
        have hin : batch (store.outbox.lastId + 1) ∈ (store.outbox.record batch).batches := by
          simp [Outbox.record]
        rw [← hparcel (store.outbox.lastId + 1)] at he
        exact .inr (.inl ⟨_, hin, he⟩)
      | lost => exact .inr (.inr (.inr ⟨j, p, by simp, he⟩))
    · have howes : phase (own j (h ++ [(i, d)])) = .owes p := by
        rw [phase_own_concat_other hij]
        exact hp
      exact .inr (.inr (.inl ⟨j, p, howes, he⟩))
  · exact .inr (.inr (.inr ⟨j, p, hmem _ hp, he⟩))

end Does

namespace Books

variable {tidy : Prop} {store store' : Store S} {h : List (Nat × Deed)} {i : Nat} {d : Deed}

theorem fresh (name : String) (codec : Codec) (policy : VersionPolicy) :
    Books tidy (.fresh name codec policy : Store S) [] where
  length _ := rfl
  filed _ id e he := by simp at he
  pending b hb := by simp [Store.fresh, Outbox.empty] at hb
  handed i es he := by simp at he
  phases i := trivial
  accounted id e he := by simp at he

variable [State S]

/-- Every deed keeps the books. -/
theorem does (hb : Books tidy store h)
    (hd : Does (fun s => tidy → s.Own) store (phase (own i h)) d store') :
    Books tidy store' (h ++ [(i, d)]) where
  length := hd.length hb.length
  filed ht id e he := by
    rcases hd.mem_journal he with he | ⟨s, hs, -, rfl, hc⟩
    · exact hb.filed ht id e he
    · exact hs ht e hc
  pending := hd.pending (hb.phases i) hb.pending
  handed j es hj := by
    have hmore : ∀ d' ∈ own j h, d' ∈ own j (h ++ [(i, d)]) := by
      intro d' hd'
      rw [own_append]
      exact List.mem_append_left _ hd'
    rcases List.mem_append.mp hj with hj | hj
    · obtain ⟨p, hes, hp, hin⟩ := hb.handed j es hj
      exact ⟨p, hes, hp.mono hmore, hin.trans (hd.journal_prefix p.id).isInfix⟩
    · cases List.mem_singleton.mp hj
      obtain ⟨hoffers, hsame⟩ := hd.handed_eq
      obtain ⟨p, rfl, hp⟩ := hoffers.has
      have hlies := (hb.phases i).lies hp
      rw [hsame]
      exact ⟨p, rfl, (handled_of_has hp).mono hmore, hlies.isInfix⟩
  phases j := by
    by_cases hij : j = i
    · subst hij
      rw [phase_own_concat]
      exact hd.phase_sound hb.length hb.pending (hb.phases j)
    · rw [phase_own_concat_other hij]
      exact (hb.phases j).mono hd.journal_prefix (fun _ => hd.known)
        fun _ hn => List.mem_append_left _ hn
  accounted id e he := by
    rcases hd.mem_journal he with he | ⟨s, -, rfl, -, he⟩
    · exact hd.accounted (hb.phases i) (hb.accounted id e he)
    · have howes : phase (own i (h ++ [(i, .stored s.parcel)])) = .owes s.parcel := by
        rw [phase_own_concat, Phase.after_stored]
      exact .inr (.inr (.inl ⟨i, s.parcel, howes, he⟩))

end Books

end EventJournal
