import EventJournal.Proofs.Store.Journal
import EventJournal.Proofs.Stream.Numbering
import EventJournal.Tally

/-!
The outbox as those see it who use it: a queue from which batches may be taken at any place. What it tells depends on
the calls alone. It lists, of the batches recorded so far, those that nobody has acknowledged since.
-/
namespace EventJournal

/-- The calls on a store that concern its outbox. -/
inductive OutboxCall (S : Type) where
  | setAside (stream : Stream S) (now : Timestamp)
  | acknowledge (id : Nat)
  | pending (limit : Nat)

/-- What such a call comes back with. -/
inductive OutboxReply where
  | recorded (id : Nat)
  | refused (error : StorageError)
  | acknowledged
  | listed (batches : List PendingBatch)

/-- A call with the reply to it. -/
abbrev Dealing (S : Type) :=
  OutboxCall S × OutboxReply

variable {S : Type} {name : String}

namespace Store

def answer (store : Store S) : OutboxCall S → OutboxReply × Store S
  | .setAside stream now =>
    match store.setAside stream now with
    | .ok store => (.recorded store.outbox.lastId, store)
    | .error e => (.refused e, store)
  | .acknowledge id => (.acknowledged, store.acknowledge id)
  | .pending limit => (.listed (store.pending limit), store)

/-- What is said while calls are made one after the other. -/
def dialogue (store : Store S) : List (OutboxCall S) → List (Dealing S)
  | [] => []
  | call :: rest => (call, (store.answer call).1) :: (store.answer call).2.dialogue rest

end Store

namespace Dealing

/-- The batch that came into the outbox of a store with that name: it has the changes and the version that the stream
had then, and the id that was given. -/
def batch? (name : String) : Dealing S → Option PendingBatch
  | (.setAside stream now, .recorded id) =>
    some ⟨id, name, stream.id, stream.version, stream.changes, now⟩
  | _ => none

def acknowledges (id : Nat) : Dealing S → Bool
  | (.acknowledge i, _) => id == i
  | _ => false

/-- The batches recorded so far that nobody has acknowledged since, in the order in which they were recorded. -/
def outstanding (name : String) : List (Dealing S) → List PendingBatch
  | [] => []
  | d :: later =>
    (d.batch? name).toList.filter (fun b => !later.any (acknowledges b.id)) ++ outstanding name later

/-- The ids given so far, in that order. -/
def given (name : String) (said : List (Dealing S)) : List Nat :=
  (said.filterMap (batch? name)).map PendingBatch.id

theorem given_concat (said : List (Dealing S)) (d : Dealing S) :
    given name (said ++ [d]) = given name said ++ (d.batch? name).toList.map PendingBatch.id := by
  rw [given, List.filterMap_append, List.map_append, given]
  cases h : d.batch? name <;> simp [h]

/-- One dealing more takes away what it acknowledges, and may add a batch. -/
theorem outstanding_concat (said : List (Dealing S)) (d : Dealing S) :
    outstanding name (said ++ [d]) =
      (outstanding name said).filter (fun b => !d.acknowledges b.id) ++ (d.batch? name).toList := by
  induction said with
  | nil => simp [outstanding]
  | cons first later ih =>
    have hfirst : ∀ b : PendingBatch, (!(later ++ [d]).any (acknowledges b.id)) =
        (!d.acknowledges b.id && !later.any (acknowledges b.id)) := by
      intro b
      rw [List.any_append, List.any_cons, List.any_nil, Bool.or_false, Bool.not_or, Bool.and_comm]
    rw [List.cons_append, outstanding, outstanding, ih, List.filter_append, List.filter_filter, List.append_assoc]
    simp only [hfirst]

theorem outstanding_sublist (said : List (Dealing S)) :
    (outstanding name said).Sublist (said.filterMap (batch? name)) := by
  induction said with
  | nil => exact List.Sublist.refl _
  | cons d later ih =>
    have hfirst : [d].filterMap (batch? name) = (d.batch? name).toList := by
      cases h : d.batch? name <;> simp [h]
    rw [outstanding, ← List.singleton_append, List.filterMap_append, hfirst]
    exact List.Sublist.append List.filter_sublist ih

/-- The order of the batches is that of their ids. -/
theorem rising_outstanding {said : List (Dealing S)} (h : (given name said).Pairwise (· < ·)) :
    (outstanding name said).Pairwise fun b c => b.id < c.id :=
  (List.pairwise_map.mp h).sublist (outstanding_sublist said)

end Dealing

open Dealing

/-- What holds of an outbox after some dealings: it has the outstanding batches, and its counter is not behind any id
that was given. -/
structure Outbox.Follows (name : String) (o : Outbox) (said : List (Dealing S)) : Prop where
  batches_eq : o.batches = outstanding name said
  rising : (given name said).Pairwise (· < ·)
  given_le : ∀ id ∈ given name said, id ≤ o.lastId

namespace Outbox.Follows

variable {o : Outbox} {said : List (Dealing S)}

theorem empty (name : String) : Outbox.empty.Follows name ([] : List (Dealing S)) :=
  ⟨rfl, List.Pairwise.nil, fun _ h => by cases h⟩

/-- A dealing that records nothing gives no id. -/
theorem given_eq {d : Dealing S} (hbatch : d.batch? name = none) : given name (said ++ [d]) = given name said := by
  rw [given_concat, hbatch]
  exact List.append_nil _

/-- A dealing that neither records nor acknowledges. -/
theorem silent (h : o.Follows name said) {d : Dealing S} (hbatch : d.batch? name = none)
    (hacknowledges : ∀ id, d.acknowledges id = false) : o.Follows name (said ++ [d]) where
  batches_eq := by
    have hkept := List.filter_eq_self.mpr fun b (_ : b ∈ outstanding name said) => congrArg not (hacknowledges b.id)
    rw [outstanding_concat, hbatch, hkept, h.batches_eq]
    exact (List.append_nil _).symm
  rising := by
    rw [given_eq hbatch]
    exact h.rising
  given_le := by
    rw [given_eq hbatch]
    exact h.given_le

theorem record (h : o.Follows name said) (stream : Stream S) (now : Timestamp) :
    (o.record fun id => ⟨id, name, stream.id, stream.version, stream.changes, now⟩).Follows name
      (said ++ [(.setAside stream now, .recorded (o.lastId + 1))]) where
  batches_eq := by
    have hkept := List.filter_eq_self.mpr fun b (_ : b ∈ outstanding name said) => rfl
    rw [outstanding_concat, Outbox.record, h.batches_eq]
    exact congrArg (· ++ _) hkept.symm
  rising := by
    rw [given_concat]
    refine List.pairwise_append.mpr ⟨h.rising, List.pairwise_singleton _ _, ?_⟩
    intro id hid new hnew
    rw [List.mem_singleton.mp hnew]
    exact Nat.lt_succ_of_le (h.given_le id hid)
  given_le := by
    rw [given_concat]
    intro id hid
    rcases List.mem_append.mp hid with hid | hid
    · exact Nat.le_succ_of_le (h.given_le id hid)
    · exact Nat.le_of_eq (List.mem_singleton.mp hid)

/-- Any id may be acknowledged. One that was not given yet takes nothing away, and is given later all the same. -/
theorem acknowledge (h : o.Follows name said) (id : Nat) (r : OutboxReply) :
    (o.acknowledge id).Follows name (said ++ [(.acknowledge id, r)]) where
  batches_eq := by
    rw [outstanding_concat, Outbox.acknowledge, h.batches_eq]
    exact (List.append_nil _).symm
  rising := by
    rw [given_eq rfl]
    exact h.rising
  given_le := by
    rw [given_eq rfl]
    exact h.given_le

variable {store : Store S}

/-- What one call makes of the outbox and of what was said. -/
theorem answer (h : store.outbox.Follows store.name said) (call : OutboxCall S) :
    (store.answer call).2.name = store.name ∧
      (store.answer call).2.outbox.Follows store.name (said ++ [(call, (store.answer call).1)]) := by
  cases call with
  | setAside stream now =>
    rw [Store.answer, Store.setAside_eq]
    by_cases hname : stream.name = store.name
    · rw [if_pos hname]
      exact ⟨rfl, h.record stream now⟩
    · rw [if_neg hname]
      exact ⟨rfl, h.silent rfl fun _ => rfl⟩
  | acknowledge id => exact ⟨rfl, h.acknowledge id _⟩
  | pending limit => exact ⟨rfl, h.silent rfl fun _ => rfl⟩

/-- What has been said after a whole dialogue. -/
theorem dialogue (h : store.outbox.Follows store.name said) (calls : List (OutboxCall S)) :
    ∃ o : Outbox, o.Follows store.name (said ++ store.dialogue calls) := by
  induction calls generalizing store said with
  | nil => exact ⟨store.outbox, (List.append_nil said).symm ▸ h⟩
  | cons call rest ih =>
    obtain ⟨hname, hnext⟩ := h.answer call
    rw [← hname] at hnext
    obtain ⟨o, ho⟩ := ih hnext
    rw [List.append_assoc, hname] at ho
    exact ⟨o, ho⟩

/-- Each reply is the answer of a store whose outbox follows what was said before. -/
theorem reply (h : store.outbox.Follows store.name said) {calls : List (OutboxCall S)}
    {past later : List (Dealing S)} {call : OutboxCall S} {r : OutboxReply}
    (hsaid : store.dialogue calls = past ++ (call, r) :: later) :
    ∃ now : Store S, now.name = store.name ∧ now.outbox.Follows store.name (said ++ past) ∧ r = (now.answer call).1 := by
  induction calls generalizing store said past with
  | nil => simp [Store.dialogue] at hsaid
  | cons first rest ih =>
    rw [Store.dialogue] at hsaid
    obtain ⟨hname, hnext⟩ := h.answer first
    cases past with
    | nil =>
      obtain ⟨hd, -⟩ := List.cons.inj hsaid
      cases hd
      exact ⟨store, rfl, (List.append_nil said).symm ▸ h, rfl⟩
    | cons d past =>
      obtain ⟨rfl, hrest⟩ := List.cons.inj hsaid
      rw [← hname] at hnext
      obtain ⟨now, hnow, hfollows, hr⟩ := ih hnext hrest
      rw [List.append_assoc, hname] at hfollows
      exact ⟨now, hnow.trans hname, hfollows, hr⟩

end Outbox.Follows

theorem Store.map_fst_dialogue (store : Store S) (calls : List (OutboxCall S)) :
    (store.dialogue calls).map Prod.fst = calls := by
  induction calls generalizing store with
  | nil => rfl
  | cons call rest ih => exact congrArg (call :: ·) (ih _)

/-- The outbox is a queue from which batches may be taken at any place. Whatever calls are made on it, in whatever
order: a stream of the store's name is recorded under an id above all that were given before, so that no id is given
twice; anything may be acknowledged, be it pending or gone or still to come; and a listing has the first batches of
those that were recorded and not acknowledged since, in the order in which they were recorded, which is that of their
ids, each with the changes and the version of its stream at that time. -/
theorem outbox_is_queue (store : Store S) (hempty : store.outbox = .empty) (calls : List (OutboxCall S)) :
    let said := store.dialogue calls
    said.map Prod.fst = calls ∧
    (∀ past stream now r later, said = past ++ (.setAside stream now, r) :: later →
      (stream.name = store.name → ∃ id, r = .recorded id ∧ ∀ i ∈ given store.name past, i < id) ∧
        (stream.name ≠ store.name → r = .refused (.nameMismatch store.name stream.name))) ∧
    (∀ past id r later, said = past ++ (.acknowledge id, r) :: later → r = .acknowledged) ∧
    (∀ past limit r later, said = past ++ (.pending limit, r) :: later →
      r = .listed ((outstanding store.name past).take limit)) ∧
    (given store.name said).Pairwise (· < ·) ∧
    (outstanding store.name said).Pairwise fun b c => b.id < c.id := by
  intro said
  have hstart : store.outbox.Follows store.name ([] : List (Dealing S)) := hempty ▸ .empty store.name
  refine ⟨store.map_fst_dialogue calls, ?_, ?_, ?_, ?_⟩
  · intro past stream now r later hsaid
    obtain ⟨held, hname, hfollows, rfl⟩ := hstart.reply hsaid
    rw [Store.answer, Store.setAside_eq, hname]
    constructor
    · intro h
      rw [if_pos h]
      exact ⟨_, rfl, fun i hi => Nat.lt_succ_of_le (hfollows.given_le i hi)⟩
    · intro h
      rw [if_neg h]
  · intro past id r later hsaid
    obtain ⟨held, -, -, rfl⟩ := hstart.reply hsaid
    rfl
  · intro past limit r later hsaid
    obtain ⟨held, -, hfollows, rfl⟩ := hstart.reply hsaid
    exact congrArg (fun bs => OutboxReply.listed (bs.take limit)) hfollows.batches_eq
  · obtain ⟨o, ho⟩ := hstart.dialogue calls
    exact ⟨ho.rising, rising_outstanding ho.rising⟩

namespace Hasty

def time : Timestamp :=
  ⟨2024, 1, 1, 0, 0, 0, 0⟩

def store : Store Tally :=
  .fresh "tally" (.json .compact) .sequential

/-- A stream stored at that version, with one event behind it. -/
def stream (version : Nat) : Stream Tally :=
  let stored := { Stream.create "tally" ⟨.ofNat 1⟩ State.blank time with previousVersion := version }
  stored.appended ⟨⟨.ofNat 2, time⟩, time⟩ "noted" (.ok .null)

/-- The second batch is acknowledged before it is recorded, and the first one twice. -/
def calls : List (OutboxCall Tally) :=
  [.setAside (stream 0) time, .acknowledge 2, .setAside (stream 1) time, .acknowledge 1, .acknowledge 1, .pending 5]

end Hasty

/-- What was acknowledged too early is listed all the same. -/
theorem outbox_is_queue_early_acknowledgement :
    Hasty.store.outbox = .empty ∧ given "tally" (Hasty.store.dialogue Hasty.calls) = [1, 2] ∧
      (Hasty.store.dialogue Hasty.calls)[5]?.map Prod.snd =
        some (.listed [⟨2, "tally", ⟨.ofNat 1⟩, 2, (Hasty.stream 1).changes, Hasty.time⟩]) := by
  obtain ⟨-, -, -, hlisted, -, -⟩ := outbox_is_queue Hasty.store rfl Hasty.calls
  have hlast := hlisted ((Hasty.store.dialogue Hasty.calls).take 5) 5 _ [] rfl
  exact ⟨rfl, rfl, congrArg some hlast⟩

end EventJournal
