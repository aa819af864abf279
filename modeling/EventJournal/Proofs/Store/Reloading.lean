import EventJournal.Command
import EventJournal.Proofs.Json.Exactness
import EventJournal.Proofs.Store.Journal
import EventJournal.Settings
import EventJournal.Shop.Cart
import EventJournal.Shop.Order
import EventJournal.Tally

/-!
Round trips. What the library writes of its messages, settings and snapshots is read back as it was, by a codec of any
layout, and a stream that has been stored is loaded as it was stored.
-/
namespace EventJournal

open Json

/-- Every lossless value of the type can be written in any layout, and is read back by a reader of any. -/
def Coded.RoundTrips (α : Type) [Coded α] : Prop :=
  ∀ a : α, Coded.Lossless a → ∀ layout layout' : Layout, ∃ t, (Codec.json layout).encodeValue a = .ok t ∧
    (Codec.json layout').decodeValue α (Text.symbols t) = .ok a

/-- A stream with a lossless snapshot that has been stored is loaded as it was, with nothing left to store. -/
def Store.Reloads (S : Type) [State S] : Prop :=
  ∀ (layout : Layout) (store store' : Store S) (stream : Stream S), store.codec = .json layout →
    Coded.Lossless stream.snapshot → store.persist stream = .ok store' →
    store'.load stream.id none =
      .ok { stream with previousVersion := stream.version, changes := [], policy := store.policy }

theorem Coded.roundTrips {α : Type} [Coded α] (hl : (Coded.shape α).telling) : RoundTrips α :=
  fun _ h _ _ => ⟨_, rfl, Codec.decodeValue_of_lossless hl h rfl⟩

theorem telling_snapshot {S : Type} [Coded S] (h : (Coded.shape S).telling) :
    (Coded.shape (Snapshot S)).telling := by
  have hversion : Nat.pow 2 64 - 1 ≤ Scan.greatestWord := Nat.le_refl _
  simp [Coded.shape, Fields.required, Fields.optional, Shape.telling, Fields.telling, Fields.names, Shape.nullable,
    Shape.u64, h, hversion]

theorem Store.reloads {S : Type} [State S] (hl : (Coded.shape S).telling) : Reloads S := by
  intro layout store store' stream hcodec hlossless hpersist
  obtain ⟨-, -, text, htext, rfl⟩ := persist_eq_ok hpersist
  have hcodec' : (store.extended stream text).codec = .json layout := hcodec
  rw [hcodec] at htext
  rw [load, entry?_extended]
  dsimp only
  rw [if_neg (by simp), hcodec', Codec.decodeValue_of_lossless (telling_snapshot hl) hlossless htext]
  rfl

/-- Messages, settings, snapshots and plain JSON survive their texts, and streams survive storage. -/
theorem lossless_values_survive :
    (Coded.RoundTrips Event ∧ Coded.RoundTrips Command ∧ Coded.RoundTrips Reply ∧ Coded.RoundTrips PendingBatch ∧
      Coded.RoundTrips Settings ∧ Coded.RoundTrips (Snapshot Shop.Cart) ∧ Coded.RoundTrips (Snapshot Shop.Order) ∧
      Coded.RoundTrips (Snapshot Tally) ∧ Coded.RoundTrips Json) ∧
    (Store.Reloads Shop.Cart ∧ Store.Reloads Shop.Order ∧ Store.Reloads Tally) := by
  have hcart : (Coded.shape Shop.Cart).telling := by decide
  have horder : (Coded.shape Shop.Order).telling := by decide
  have htally : (Coded.shape Tally).telling := by decide
  refine ⟨⟨?_, ?_, ?_, ?_, ?_, ?_, ?_, ?_, ?_⟩, Store.reloads hcart, Store.reloads horder, Store.reloads htally⟩
  · exact Coded.roundTrips (by decide)
  · exact Coded.roundTrips (by decide)
  · exact Coded.roundTrips (by decide)
  · exact Coded.roundTrips (by decide)
  · exact Coded.roundTrips (by decide)
  · exact Coded.roundTrips (telling_snapshot hcart)
  · exact Coded.roundTrips (telling_snapshot horder)
  · exact Coded.roundTrips (telling_snapshot htally)
  · exact Coded.roundTrips (by decide)

namespace Keepsake

/-- Empty and nested brackets, signs that are escaped, and the ends of the whole numbers. -/
def payload : Json :=
  .object [("", .list []), ("\u0001", .int 18446744073709551615), ("a\"\n", .object []),
    ("b", .list [.null, .bool true, .list [.int (-9223372036854775808)]])]

/-- A leap second of the first year that has four digits. -/
def time : Timestamp :=
  ⟨0, 2, 29, 23, 59, 60, 120⟩

def event : Event :=
  ⟨⟨.ofNat 1⟩, "noted", ⟨.ofNat 2⟩, "tally", none, 1, time, payload⟩

def stream : Stream Tally :=
  ⟨⟨.ofNat 2⟩, "tally", some ⟨.ofNat 3⟩, 0, time, ⟨-5, ["\t", ""]⟩, [event], .sequential⟩

def store : Store Tally :=
  .fresh "tally" (.json .pretty) .sequential

theorem exact_payload : payload.Exact := by
  refine .object (by decide) ?_
  intro f hf
  simp only [List.mem_cons, List.not_mem_nil, or_false] at hf
  rcases hf with rfl | rfl | rfl | rfl
  · exact .list nofun
  · exact .int ⟨by decide, by decide⟩
  · exact .object .nil nofun
  · refine .list ?_
    intro j hj
    simp only [List.mem_cons, List.not_mem_nil, or_false] at hj
    rcases hj with rfl | rfl | rfl
    · exact .null
    · exact .bool true
    · exact .list fun i hi => List.mem_singleton.mp hi ▸ .int ⟨by decide, by decide⟩

theorem common_time : time.Common := by
  refine ⟨⟨?_, ?_, ?_, ?_, ?_, ?_, ?_, ?_⟩, ?_, ?_⟩ <;> decide

theorem lossless_event : Coded.Lossless event where
  exact := ⟨trivial, trivial, trivial, trivial, trivial, Nat.le_of_ble_eq_true rfl, common_time, exact_payload, trivial⟩
  brackets_le := by decide

theorem lossless_snapshot : Coded.Lossless stream.snapshot where
  exact := ⟨trivial, trivial, trivial, Nat.le_of_ble_eq_true rfl, common_time, ⟨Eq.refl true, fun _ _ => trivial, trivial⟩, trivial⟩
  brackets_le := by decide

theorem keepsake_survives :
    (∃ t, (Codec.json .compact).encodeValue event = .ok t ∧
      (Codec.json .pretty).decodeValue Event (Text.symbols t) = .ok event) ∧
    ∃ store', store.persist stream = .ok store' ∧
      store'.load stream.id none = .ok { stream with previousVersion := 1, changes := [] } := by
  obtain ⟨store', hpersist⟩ := (Store.persist_isOk_iff store stream).mpr ⟨rfl, ⟨_, rfl⟩, rfl⟩
  exact ⟨lossless_values_survive.1.1 event lossless_event .compact .pretty, store', hpersist,
    lossless_values_survive.2.2.2 .pretty store store' stream rfl lossless_snapshot hpersist⟩

end Keepsake

end EventJournal
