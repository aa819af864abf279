import EventJournal.Proofs.Engine.Calls
import EventJournal.Proofs.Engine.Order

/-!
The rounds of a relay. It passes over an outbox again and again, into which others put batches at any time, also during
a pass. The relay tells what it asks and what it hands over; what enters and leaves the outbox is seen by looking on.
-/
namespace EventJournal

open History

variable {W S : Type}

inductive Passage where
  /-- The relay asked whether it is cancelled. -/
  | asked (cancelled : Bool)
  /-- The relay was told of pending batches. -/
  | held (batches : List PendingBatch)
  /-- Events went to the publisher, which then answered. -/
  | handed (events : List Event)
  | answered (result : Except PublishError Unit)
  /-- A batch came into the outbox. -/
  | arrived (batch : PendingBatch)
  /-- A batch was taken from the outbox. -/
  | left (batch : PendingBatch)

namespace Passage

def arrival? : Passage → Option PendingBatch
  | arrived b => some b
  | _ => none

def departure? : Passage → Option PendingBatch
  | left b => some b
  | _ => none

def handover? : Passage → Option (List Event)
  | handed events => some events
  | _ => none

/-- The batches that are not among others. -/
def apart (others bs : List PendingBatch) : List PendingBatch :=
  bs.filter fun b => !others.any (·.id == b.id)

/-- What an act is seen to do to the outbox. -/
def seen (old new : List PendingBatch) : List Passage :=
  (apart new old).map left ++ (apart old new).map arrived

/-- What a relay has in its hands after a note. -/
def carry (hand : List PendingBatch) : Passage → List PendingBatch
  | held bs => bs
  | left _ => hand.tail
  | _ => hand

def inHand (notes : List Passage) : List PendingBatch :=
  notes.foldl carry []

/-- The batches that came into the outbox, in order. -/
def arrivals (h : List (Nat × Passage)) : List PendingBatch :=
  h.filterMap fun n => n.2.arrival?

/-- The batches that were taken from the outbox, in order. -/
def departures (h : List (Nat × Passage)) : List PendingBatch :=
  h.filterMap fun n => n.2.departure?

/-- What should be in the outbox after a history: of the first batches and those that arrived, what has not left. -/
def standing (first : List PendingBatch) (h : List (Nat × Passage)) : List PendingBatch :=
  (first ++ arrivals h).drop (departures h).length

/-- What is told of a batch that is delivered. -/
def delivery (b : PendingBatch) : List Passage :=
  [asked false, handed b.events, answered (.ok ()), left b]

/-- How a pass ends that has delivered so many batches and has these left in its hands: the notes at its end and what
it comes back with. -/
inductive Ending (delivered : Nat) : List PendingBatch → List Passage → Except RelayError Nat → Prop where
  | finished : Ending delivered [] [] (.ok delivered)
  | cancelled (b : PendingBatch) (rest : List PendingBatch) :
      Ending delivered (b :: rest) [asked true] (.ok delivered)
  | refused (b : PendingBatch) (rest : List PendingBatch) (source : PublishError) :
      Ending delivered (b :: rest) [asked false, handed b.events, answered (.error source)]
        (.error (.publish b.id source))

/-- What is told of a pass that comes back with this. -/
def Account (result : Except RelayError Nat) (notes : List Passage) : Prop :=
  ∃ gone rest last, notes = held (gone ++ rest) :: (gone.flatMap delivery ++ last) ∧
    Ending gone.length rest last result

section Seen

variable {bs others : List PendingBatch} {b : PendingBatch}

theorem apart_of_subset (h : bs ⊆ others) : apart others bs = [] := by
  rw [apart, List.filter_eq_nil_iff]
  intro b hb
  simp only [Bool.not_eq_true, Bool.not_eq_false', List.any_eq_true]
  exact ⟨b, h hb, beq_self_eq_true b.id⟩

theorem apart_singleton (h : ∀ c ∈ others, c.id ≠ b.id) : apart others [b] = [b] := by
  have hnone : others.any (·.id == b.id) = false := by
    rw [List.any_eq_false]
    exact fun c hc => by simpa using h c hc
  rw [apart, List.filter_cons_of_pos (by rw [hnone]; rfl)]
  rfl

theorem apart_append (bs cs : List PendingBatch) : apart others (bs ++ cs) = apart others bs ++ apart others cs :=
  List.filter_append ..

@[simp] theorem seen_self (bs : List PendingBatch) : seen bs bs = [] := by
  rw [seen, apart_of_subset (List.Subset.refl bs)]
  rfl

/-- A new batch comes behind the others. -/
theorem seen_concat (h : ∀ c ∈ bs, c.id ≠ b.id) : seen bs (bs ++ [b]) = [arrived b] := by
  rw [seen, apart_of_subset (List.subset_append_left bs [b]), apart_append, apart_of_subset (List.Subset.refl bs),
    apart_singleton h]
  rfl

/-- The first batch is taken. -/
theorem seen_tail (h : ∀ c ∈ bs, c.id ≠ b.id) : seen (b :: bs) bs = [left b] := by
  rw [seen, ← List.singleton_append, apart_append, apart_singleton h, apart_of_subset (List.Subset.refl bs),
    apart_of_subset (List.subset_append_right [b] bs)]
  rfl

end Seen

section History

variable {h : List (Nat × Passage)} {i : Nat} {notes : List Passage}

theorem arrivals_append (h k : List (Nat × Passage)) : arrivals (h ++ k) = arrivals h ++ arrivals k :=
  List.filterMap_append

theorem departures_append (h k : List (Nat × Passage)) : departures (h ++ k) = departures h ++ departures k :=
  List.filterMap_append

theorem inHand_append (notes more : List Passage) : inHand (notes ++ more) = more.foldl Passage.carry (inHand notes) :=
  List.foldl_append

end History

end Passage

/-- Passes over the outbox, one in each context, whatever becomes of them. -/
def Relay.rounds {m : Type → Type} [Monad m] [Ambient m] (r : Relay m) :
    List Context → m (List (Except RelayError Nat))
  | [] => return []
  | ctx :: rest => do
    let result ← (r.pass ctx).run
    let results ← r.rounds rest
    return result :: results

/-- A job that shares an outbox with others. -/
abbrev Haul (W S α : Type) :=
  Told (Store S × W) Passage α

namespace Haul

/-- The surroundings of the outbox. It is told when they are asked about cancellation. -/
instance [Ambient (Fiber W)] : Ambient (Told (Store S × W) Passage) where
  stamp := Told.beside (Ambient.stamp : Fiber W Stamp)
  now := Told.beside (Ambient.now : Fiber W Timestamp)
  isCancelled ctx := do
    let cancelled ← Told.beside (Ambient.isCancelled ctx : Fiber W Bool)
    Told.tell (.asked cancelled)
    return cancelled
  record r := Told.beside (Ambient.record r : Fiber W Unit)

def publisher (inner : Publisher (Fiber W)) : Publisher (Haul W S) := fun ctx events => do
  Told.tell (.handed events)
  let result ← Told.beside (inner ctx events)
  Told.tell (.answered result)
  return result

def backlog : Backlog (Haul W S) :=
  let inner : Backlog (Haul W S) := Store.backlog Told.kept
  { inner with
    pending := fun ctx limit => do
      match ← inner.pending ctx limit with
      | .ok batches =>
        Told.tell (.held batches)
        return .ok batches
      | .error e => return .error e }

def relay (inner : Publisher (Fiber W)) (config : RelayConfig) : Relay (Haul W S) :=
  ⟨backlog, publisher inner, config⟩

variable [Ambient (Fiber W)] [State S]

/-- What a relay comes back with from all its passes. Others come back with nothing that matters here. -/
abbrev Return :=
  Option (List (Except RelayError Nat))

def passing (inner : Publisher (Fiber W)) (config : RelayConfig) (ctxs : List Context) : Haul W S Return := do
  return some (← (relay inner config).rounds ctxs)

/-- Somebody puts the changes of a stream into the outbox. -/
def recording (name : String) (policy : VersionPolicy) (ctx : Context) (stream : Stream S) : Haul W S Return := do
  let _ ← (Store.inCell name policy Told.kept : Storage (Haul W S) S).setAside ctx stream
  return none

/-- A relay at work on an outbox into which others record. -/
def crowd (name : String) (policy : VersionPolicy) (inner : Publisher (Fiber W)) (config : RelayConfig)
    (store : Store S) (w : W) (recordings : List (Context × Stream S)) (ctxs : List Context) :
    Crowd (Store S × W) Passage Return :=
  .gather (store, w) (passing inner config ctxs ::
    recordings.map fun (ctx, stream) => recording name policy ctx stream)

/-- Nobody joins, and from outside everything but the store may change. -/
def rules {κ : Type} : Rules (Store S × W) Passage κ (W → W) where
  call _ := none
  again _ := none
  watch s t := Passage.seen s.1.outbox.batches t.1.outbox.batches
  outside f s := (s.1, f s.2)

end Haul

end EventJournal
