import EventJournal.Proofs.Engine.Calls
import EventJournal.Proofs.Engine.Revision

/-!
The conduct of engines and relays: which deeds a job may do in which phase, and what they do to the store.
All that calls do with a store goes by it, wherever they are interrupted and whatever fails. So what every
deed keeps holds of any number of calls at work on one store.
-/
namespace EventJournal

open History

variable {W S κ α β : Type}

namespace Store

/-- Another outbox beside the same journals. -/
def withOutbox (store : Store S) (outbox : Outbox) : Store S :=
  { store with outbox }

end Store

namespace Phase

/-- Nothing is stored that is not published or set aside, nothing published that is not acknowledged. -/
def AtRest : Phase → Prop
  | .free | .carries _ => True
  | .owes _ | .delivered _ _ => False

/-- What a job has to publish next. -/
def Offers : Phase → List Event → Prop
  | .owes p, es => es = p.events
  | .carries (b :: _), es => es = b.events
  | _, _ => False

@[simp] theorem after_handed (f : Phase) (es : List Event) : f.after (.handed es) = f := by
  cases f with
  | carries bs => cases bs <;> rfl
  | free | owes | delivered => rfl

@[simp] theorem after_refused (f : Phase) (es : List Event) : f.after (.refused es) = f := by
  cases f with
  | carries bs => cases bs <;> rfl
  | free | owes | delivered => rfl

@[simp] theorem after_stored (f : Phase) (p : Parcel) : f.after (.stored p) = .owes p := by
  cases f with
  | carries bs => cases bs <;> rfl
  | free | owes | delivered => rfl

@[simp] theorem after_held (f : Phase) (bs : List PendingBatch) : f.after (.held bs) = .carries bs := by
  cases f with
  | carries bs => cases bs <;> rfl
  | free | owes | delivered => rfl

end Phase

/-- A deed that a job may do in a phase, and the store after it. The streams that are stored have the
property `P`. -/
inductive Does [State S] (P : Stream S → Prop) (store : Store S) : Phase → Deed → Store S → Prop where
  | stored {f : Phase} {s : Stream S} {store' : Store S} (free : f.AtRest) (sound : P s)
      (changed : s.changes ≠ []) (taken : store.persist s = .ok store') :
      Does P store f (.stored s.parcel) store'
  | handed {f : Phase} {es : List Event} (offers : f.Offers es) : Does P store f (.handed es) store
  | published {f : Phase} {es : List Event} (offers : f.Offers es) :
      Does P store f (.published es) store
  | refused {f : Phase} {es : List Event} (offers : f.Offers es) : Does P store f (.refused es) store
  | kept {p : Parcel} (batch : Nat → PendingBatch) (id_eq : ∀ n, (batch n).id = n)
      (parcel_eq : ∀ n, (batch n).parcel = p) :
      Does P store (.owes p) (.kept p) (store.withOutbox (store.outbox.record batch))
  | lost {p : Parcel} : Does P store (.owes p) (.lost p) store
  | held {f : Phase} (free : f.AtRest) (limit : Nat) :
      Does P store f (.held (store.pending limit)) store
  | acknowledged {b : PendingBatch} {rest : List PendingBatch} :
      Does P store (.delivered b rest) (.acknowledged b.id) (store.acknowledge b.id)

/-- All controllers of an engine keep a property of the streams they work on. -/
structure Staff.Keeps (P : Stream S → Prop) (staff : Staff W S) : Prop where
  commands : ∀ n c, (n, c) ∈ staff.commands → ∀ ctx command,
    Revision.Keeps P (c.controller ctx command)
  events : ∀ n c, (n, c) ∈ staff.events → ∀ ctx event,
    Revision.Keeps P (c.controller.handle ctx event)

/-- Only the calls of engines have controllers. -/
def Call.Keeps (P : Stream S → Prop) : Call W S → Prop
  | .command staff _ _ => staff.Keeps P
  | .event staff _ _ => staff.Keeps P
  | .pass _ _ _ => True

namespace Errand

/-- What holds of a store and the history of the jobs on it, and is kept by every deed. -/
structure Upheld [State S] (P : Stream S → Prop) (name : String) (policy : VersionPolicy)
    (inv : Store S → List (Nat × Deed) → Prop) : Prop where
  does : ∀ {store store' : Store S} {h : List (Nat × Deed)} {i : Nat} {d : Deed}, inv store h →
    Does P store (phase (own i h)) d store' → inv store' (h ++ [(i, d)])
  /-- Streams are opened with the property `P`. -/
  load : ∀ {store : Store S} {h : List (Nat × Deed)} {id : StreamId} {owner : Option OwnerId}
    {s : Stream S}, inv store h → store.load id owner = .ok s → P s
  blank : ∀ (stamp : Stamp) (id : StreamId) (owner : Option OwnerId),
    P (((Stream.blank name stamp).withPolicy policy).assign id owner)

def pact (inv : Store S → List (Nat × Deed) → Prop) (ended : List Deed → κ → Prop) :
    Pact (Store S × W) Deed κ (W → W) where
  toRules := rules
  inv s h := inv s.1 h
  ended := ended

variable {P : Stream S → Prop} {name : String} {policy : VersionPolicy}
  {inv : Store S → List (Nat × Deed) → Prop} {ended : List Deed → κ → Prop}

theorem lawful (inv : Store S → List (Nat × Deed) → Prop) (ended : List Deed → κ → Prop) :
    (pact inv ended : Pact (Store S × W) Deed κ (W → W)).Lawful where
  outside _ _ _ hb := hb
  call _ _ _ _ _ hc := by cases hc
  again _ _ ha := by cases ha

@[simp] theorem recorded_self (store : Store S) : recorded store store = [] := by
  simp [recorded]

variable {i : Nat} {s : Store S × W} {h : List (Nat × Deed)}

/-- A program that tells nothing and leaves the store alone. Of its result no more is known than `R`. -/
def Idle (inv : Store S → List (Nat × Deed) → Prop) (ended : List Deed → κ → Prop) (R : α → Prop)
    (t : Errand W S α) : Prop :=
  ∀ i s h (post : α → Store S × W → List (Nat × Deed) → Prop), inv s.1 h →
    (∀ a s' h', R a → inv s'.1 h' → own i h' = own i h → post a s' h') →
    (pact inv ended).Safe i post t s h

theorem idle_pure {R : α → Prop} {a : α} (ha : R a) :
    Idle inv ended R (pure a : Errand W S α) := by
  intro i s h post hb hp
  exact hp a s h ha hb rfl

theorem Idle.bind {R : α → Prop} {R' : β → Prop} {t : Errand W S α} {f : α → Errand W S β}
    (ht : Idle inv ended R t) (hf : ∀ a, R a → Idle inv ended R' (f a)) :
    Idle inv ended R' (t >>= f) := by
  intro i s h post hb hp
  refine Pact.Safe.bind (ht i s h _ hb ?_)
  intro a s' h' ha hb' ho
  apply hf a ha i s' h' post hb'
  intro b s'' h'' hR hb'' ho'
  exact hp b s'' h'' hR hb'' (ho'.trans ho)

/-- What happens beside the store is idle. -/
theorem idle_beside {R : α → Prop} {t : Fiber W α} (ht : t.Yields R) :
    Idle inv ended R (Told.beside t : Errand W S α) := by
  intro i s h post hb hp
  induction t generalizing s h with
  | done a => exact hp a s h ht hb rfl
  | act ready effect next ih =>
    refine ⟨hb, ?_⟩
    intro s' h' hb' ho _
    simp only [pact, rules, recorded_self, append_told_nil]
    apply ih s'.2 (ht s'.2) (s'.1, effect s'.2) h' hb'
    intro a s'' h'' ha hb'' ho'
    exact hp a s'' h'' ha hb'' (ho'.trans ho)

/-- An act on the store, in whatever state it finds it. -/
theorem safe_act {f : Store S → α × Store S} {post : α → Store S × W → List (Nat × Deed) → Prop}
    (hb : inv s.1 h)
    (hpost : ∀ (s' : Store S × W) h', inv s'.1 h' → own i h' = own i h →
      post (f s'.1).1 ((f s'.1).2, s'.2) (h' ++ told i (recorded s'.1 (f s'.1).2))) :
    (pact inv ended).Safe i post (Told.kept.act f) s h :=
  ⟨hb, fun s' h' hb' ho _ => hpost s' h' hb' ho⟩

/-- Whatever is read of the store. -/
theorem idle_read {R : α → Prop} {f : Store S → α} (hf : ∀ store h, inv store h → R (f store)) :
    Idle inv ended R (Cell.read Told.kept f : Errand W S α) := by
  intro i s h post hb hp
  apply safe_act hb
  intro s' h' hb' ho
  rw [recorded_self, append_told_nil]
  exact hp (f s'.1) s' h' (hf s'.1 h' hb') hb' ho

section Deeds

variable [State S] {fault : Context → Stream S → Fiber W (Option StorageError)} {ctx : Context}
  {stream : Stream S} (hu : Upheld P name policy inv)
include hu

/-- A job that owes nothing tries to store a stream. -/
theorem safe_persist [Ambient (Fiber W)]
    {post : Except StorageError Unit → Store S × W → List (Nat × Deed) → Prop}
    (hb : inv s.1 h) (hf : (phase (own i h)).AtRest) (hs : P stream) (hc : stream.changes ≠ [])
    (hok : ∀ s' h', inv s'.1 h' → own i h' = own i h ++ [.stored stream.parcel] → post (.ok ()) s' h')
    (herr : ∀ e s' h', inv s'.1 h' → own i h' = own i h → post (.error e) s' h') :
    (pact inv ended).Safe i post ((storage name policy fault).persist ctx stream) s h := by
  change (pact inv ended).Safe i post (Told.kept.attempt (·.persist stream) >>= _) s h
  refine Pact.Safe.bind (safe_act hb ?_)
  intro s' h' hb' ho
  cases hp : s'.1.persist stream with
  | error e =>
    simp only [hp]
    rw [recorded_self, append_told_nil]
    exact herr e s' h' hb' ho
  | ok store =>
    have hw : recorded s'.1 store = [] := by
      obtain ⟨-, -, snapshot, -, rfl⟩ := Store.persist_eq_ok hp
      simp [recorded]
    simp only [hp]
    rw [hw, append_told_nil]
    have hf' : (phase (own i h')).AtRest := by
      rw [ho]
      exact hf
    apply hok (store, s'.2) _ (hu.does hb' (.stored hf' hs hc hp))
    rw [own_concat, ho]

/-- A job publishes what it has to publish next. -/
theorem safe_publisher {inner : Publisher (Fiber W)} {es : List Event}
    {post : Except PublishError Unit → Store S × W → List (Nat × Deed) → Prop}
    (hb : inv s.1 h) (hf : (phase (own i h)).Offers es)
    (hok : ∀ s' h', inv s'.1 h' → own i h' = own i h ++ [.handed es] ++ [.published es] →
      post (.ok ()) s' h')
    (herr : ∀ e s' h', inv s'.1 h' → own i h' = own i h ++ [.handed es] ++ [.refused es] →
      post (.error e) s' h') :
    (pact inv ended).Safe i post (publisher inner ctx es) s h := by
  have hhanded : inv s.1 (h ++ [(i, .handed es)]) := hu.does hb (.handed hf)
  change (pact inv ended).Safe i post (Told.beside (inner ctx es) >>= _) s (h ++ [(i, .handed es)])
  refine Pact.Safe.bind (idle_beside (inner ctx es).yields_true i s _ _ hhanded ?_)
  intro r s' h' _ hb' ho
  rw [own_concat] at ho
  have hf' : (phase (own i h')).Offers es := by
    rw [ho, phase_concat, Phase.after_handed]
    exact hf
  cases r with
  | ok u =>
    apply hok s' _ (hu.does hb' (.published hf'))
    rw [own_concat, ho]
  | error e =>
    apply herr e s' _ (hu.does hb' (.refused hf'))
    rw [own_concat, ho]

/-- A job sets aside what it owes. -/
theorem safe_setAside [Ambient (Fiber W)]
    {post : Except StorageError Unit → Store S × W → List (Nat × Deed) → Prop}
    (hb : inv s.1 h) (hf : phase (own i h) = .owes stream.parcel)
    (hok : ∀ s' h', inv s'.1 h' → own i h' = own i h ++ [.kept stream.parcel] → post (.ok ()) s' h')
    (herr : ∀ e s' h', inv s'.1 h' → own i h' = own i h ++ [.lost stream.parcel] →
      post (.error e) s' h') :
    (pact inv ended).Safe i post ((storage name policy fault).setAside ctx stream) s h := by
  -- a fault and a refusal of the store come to the same: the changes are lost
  have hlost : ∀ e s' h', inv s'.1 h' → own i h' = own i h →
      post (.error e) s' (h' ++ [(i, .lost stream.parcel)]) := by
    intro e s' h' hb' ho
    have hd : Does P s'.1 (phase (own i h')) (.lost stream.parcel) s'.1 := by
      rw [ho, hf]
      exact .lost
    apply herr e s' _ (hu.does hb' hd)
    rw [own_concat, ho]
  refine Pact.Safe.bind (Pact.Safe.bind (idle_beside (fault ctx stream).yields_true i s h _ hb ?_))
  intro r s₁ h₁ _ hb₁ ho₁
  cases r with
  | some e => exact hlost e s₁ h₁ hb₁ ho₁
  | none =>
    refine Pact.Safe.bind (idle_beside (Fiber.yields_true _) i s₁ h₁ _ hb₁ ?_)
    intro now s₂ h₂ _ hb₂ ho₂
    refine Pact.Safe.bind (safe_act hb₂ ?_)
    intro s' h' hb' ho
    have ho' : own i h' = own i h := ho.trans (ho₂.trans ho₁)
    by_cases hn : stream.name = s'.1.name
    · let batch (id : Nat) : PendingBatch :=
        ⟨id, s'.1.name, stream.id, stream.version, stream.changes, now⟩
      have hset : s'.1.setAside stream now = .ok (s'.1.withOutbox (s'.1.outbox.record batch)) :=
        (Store.setAside_eq _ _ _).trans (if_pos hn)
      have hw : recorded s'.1 (s'.1.withOutbox (s'.1.outbox.record batch)) = [.kept stream.parcel] := by
        simp [recorded, Store.withOutbox, Outbox.record, batch, PendingBatch.parcel, Stream.parcel]
      have hd : Does P s'.1 (phase (own i h')) (.kept stream.parcel)
          (s'.1.withOutbox (s'.1.outbox.record batch)) := by
        rw [ho', hf]
        exact .kept batch (fun _ => rfl) (fun _ => rfl)
      rw [hset]
      dsimp only
      rw [hw, told, List.map_cons, List.map_nil]
      refine Pact.Safe.bind (idle_beside (Fiber.yields_true _) i (_, s'.2) _ _ (hu.does hb' hd) ?_)
      intro u s₃ h₃ _ hb₃ ho₃
      apply hok s₃ h₃ hb₃
      rw [ho₃, own_concat, ho']
    · rw [Store.setAside_eq, if_neg hn]
      dsimp only
      rw [recorded_self, append_told_nil]
      exact hlost _ s' h' hb' ho'

/-- A relay that owes nothing asks for the pending batches. -/
theorem safe_pending {limit : Nat}
    {post : Except StorageError (List PendingBatch) → Store S × W → List (Nat × Deed) → Prop}
    (hb : inv s.1 h) (hf : (phase (own i h)).AtRest)
    (hok : ∀ bs s' h', inv s'.1 h' → own i h' = own i h ++ [.held bs] → post (.ok bs) s' h') :
    (pact inv ended).Safe i post ((backlog : Backlog (Errand W S)).pending ctx limit) s h := by
  change (pact inv ended).Safe i post
    ((Cell.read Told.kept fun store => Except.ok (store.pending limit)) >>= _) s h
  refine Pact.Safe.bind (safe_act hb ?_)
  intro s' h' hb' ho
  rw [recorded_self, append_told_nil]
  have hf' : (phase (own i h')).AtRest := by
    rw [ho]
    exact hf
  apply hok _ s' _ (hu.does hb' (.held hf' limit))
  rw [own_concat, ho]

/-- A relay acknowledges the batch that it has published. -/
theorem safe_acknowledge {b : PendingBatch} {rest : List PendingBatch}
    {post : Except StorageError Unit → Store S × W → List (Nat × Deed) → Prop}
    (hb : inv s.1 h) (hf : phase (own i h) = .delivered b rest)
    (hok : ∀ s' h', inv s'.1 h' → own i h' = own i h ++ [.acknowledged b.id] → post (.ok ()) s' h') :
    (pact inv ended).Safe i post ((backlog : Backlog (Errand W S)).acknowledge ctx b.id) s h := by
  change (pact inv ended).Safe i post
    ((Told.kept.act fun store => (Except.ok (), store.acknowledge b.id)) >>= _) s h
  refine Pact.Safe.bind (safe_act hb ?_)
  intro s' h' hb' ho
  have hw : recorded s'.1 (s'.1.acknowledge b.id) = [] := by simp [recorded, Store.acknowledge]
  have hd : Does P s'.1 (phase (own i h')) (.acknowledged b.id) (s'.1.acknowledge b.id) := by
    rw [ho, hf]
    exact .acknowledged
  dsimp only
  rw [hw, append_told_nil]
  apply hok (_, s'.2) _ (hu.does hb' hd)
  rw [own_concat, ho]

end Deeds

end Errand

end EventJournal
