import EventJournal.Proofs.Json.Bounds
import EventJournal.Proofs.Store.Journal

/-!
What a store reads from the snapshots that it has written. A stream is loaded with the state that it was stored
with, and it can be loaded if that state keeps to its limits and the time of its last change can be read.
-/
namespace EventJournal

variable {S : Type}

/-- States that are told apart by what is written of them. -/
structure Coded.Plain (S : Type) [Coded S] : Prop where
  legible : (Coded.shape S).legible
  timeless : (Coded.shape S).timeless
  height : (Coded.shape S).height ≤ 126

def greatestVersion : Nat :=
  Nat.pow 2 64 - 1

theorem legible_snapshot [Coded S] (h : (Coded.shape S).legible) : (Coded.shape (Snapshot S)).legible := by
  have hversion : Nat.pow 2 64 - 1 ≤ Json.Scan.greatestWord := Nat.le_refl _
  simp [Coded.shape, Fields.required, Fields.optional, Shape.legible, Fields.legible, Fields.names, Shape.nullable,
    Shape.u64, h, hversion]

/-- What is read where a snapshot was written. -/
def Snapshot.reread [Coded S] (s : Snapshot S) : Option (Snapshot S) :=
  (upTo greatestVersion (Int.ofNat s.version)).bind fun version =>
    s.updatedAt.reread.bind fun updatedAt =>
      ((Coded.shape S).reread 126 (Coded.toVal s.state)).map fun state =>
        { s with version, updatedAt, state := Coded.ofVal state }

theorem reread_snapshot [Coded S] (s : Snapshot S) :
    ((Coded.shape (Snapshot S)).reread Json.Scan.nesting (Coded.toVal s)).map Coded.ofVal = s.reread := by
  have howner : (Shape.option .uuid).reread 126 (s.owner.map OwnerId.uuid) = some (s.owner.map OwnerId.uuid) := by
    cases s.owner <;> rfl
  have hfields : (Coded.shape (Snapshot S)).reread Json.Scan.nesting (Coded.toVal s) =
      ((((((((Coded.shape S).reread 126 (Coded.toVal s.state)).bind fun state =>
        (some ()).map fun u => (state, u)) |> fun read =>
      s.updatedAt.reread.bind fun updatedAt => read.map fun r => (updatedAt, r)) |> fun read =>
      (upTo greatestVersion (Int.ofNat s.version)).bind fun version => read.map fun r => (version, r)) |> fun read =>
      ((Shape.option .uuid).reread 126 (s.owner.map OwnerId.uuid)).bind fun owner =>
        read.map fun r => (owner, r)) |> fun read =>
      (some s.name).bind fun name => read.map fun r => (name, r)) |> fun read =>
      (some s.id.uuid).bind fun id => read.map fun r => (id, r)) := rfl
  have hback : Option.map OwnerId.mk (s.owner.map OwnerId.uuid) = s.owner := by
    cases s.owner <;> rfl
  rw [hfields, howner, Snapshot.reread]
  cases upTo greatestVersion (Int.ofNat s.version) with
  | none => rfl
  | some version =>
    cases s.updatedAt.reread with
    | none => rfl
    | some updatedAt =>
      cases (Coded.shape S).reread 126 (Coded.toVal s.state) with
      | none => rfl
      | some state =>
        exact congrArg (fun owner => some (Snapshot.mk s.id s.name owner version updatedAt (Coded.ofVal state))) hback

/-- What comes of a snapshot is told by what was written. -/
theorem Snapshot.toOption_decodeValue [Coded S] (h : (Coded.shape S).legible) {s : Snapshot S}
    {layout : Json.Layout} {t : String} (ht : (Codec.json layout).encodeValue s = .ok t) (layout' : Json.Layout) :
    ((Codec.json layout').decodeValue (Snapshot S) (Text.symbols t)).toOption = s.reread := by
  rw [Codec.toOption_decodeValue (legible_snapshot h) ht, reread_snapshot]

section Plain

variable [Coded S] (hp : Coded.Plain S) {s s' : Snapshot S}
include hp

/-- All but the time is read as it was. -/
theorem Snapshot.eq_of_reread (h : s.reread = some s') : ∃ updatedAt, s' = { s with updatedAt } := by
  obtain ⟨version, hversion, h⟩ := Option.bind_eq_some_iff.mp h
  obtain ⟨updatedAt, -, h⟩ := Option.bind_eq_some_iff.mp h
  obtain ⟨state, hstate, rfl⟩ := Option.map_eq_some_iff.mp h
  refine ⟨updatedAt, ?_⟩
  rw [eq_of_upTo hversion, Shape.eq_of_reread _ hp.timeless hstate, Coded.ofVal_toVal]

/-- It is read if its numbers keep to their limits and the time can be read. -/
theorem Snapshot.reread_of_bounded (hversion : s.version ≤ greatestVersion)
    (hstate : (Coded.shape S).Bounded (Coded.toVal s.state)) :
    s.reread = s.updatedAt.reread.map fun updatedAt => { s with updatedAt } := by
  have hupTo : upTo greatestVersion (Int.ofNat s.version) = some s.version :=
    if_pos ⟨Int.natCast_nonneg s.version, hversion⟩
  rw [Snapshot.reread, hupTo, Shape.reread_of_bounded _ hp.timeless hp.height hstate]
  cases s.updatedAt.reread with
  | none => rfl
  | some updatedAt => exact congrArg (fun state => some { s with updatedAt, state }) (Coded.ofVal_toVal s.state)

end Plain

/-- An entry with the snapshot of a state. -/
structure Entry.Shows [Coded S] (layout : Json.Layout) (name : String) (id : StreamId) (entry : Entry)
    (updatedAt : Timestamp) (state : S) : Prop where
  encode : (Codec.json layout).encodeValue (⟨id, name, entry.owner, entry.version, updatedAt, state⟩ : Snapshot S) =
    .ok entry.snapshot

namespace Store

variable [State S] (hp : Coded.Plain S) {store : Store S} {layout : Json.Layout} {id : StreamId} {entry : Entry}
  {updatedAt : Timestamp} {state : S} {owner : Option OwnerId} {stream : Stream S}
include hp

/-- A stream is loaded as it was stored. -/
theorem load_eq_of_shows (hcodec : store.codec = .json layout) (hentry : store.entry? id = some entry)
    (hshows : entry.Shows layout store.name id updatedAt state) (h : store.load id owner = .ok stream) :
    ∃ updatedAt, stream = ⟨id, store.name, entry.owner, entry.version, updatedAt, state, [], store.policy⟩ := by
  obtain ⟨_, snapshot, he, hsnapshot, rfl⟩ := exists_of_load h
  cases hentry.symm.trans he
  have hread := Snapshot.toOption_decodeValue hp.legible hshows.encode layout
  rw [← hcodec, hsnapshot] at hread
  obtain ⟨t, ht⟩ := Snapshot.eq_of_reread hp hread.symm
  exact ⟨t, by rw [ht]; rfl⟩

/-- It can be loaded whenever the time of its last change can be read. -/
theorem toOption_load_of_shows (hcodec : store.codec = .json layout) (hentry : store.entry? id = some entry)
    (hshows : entry.Shows layout store.name id updatedAt state) (hversion : entry.version ≤ greatestVersion)
    (hstate : (Coded.shape S).Bounded (Coded.toVal state)) :
    (store.load id none).toOption = updatedAt.reread.map fun updatedAt =>
      ⟨id, store.name, entry.owner, entry.version, updatedAt, state, [], store.policy⟩ := by
  have hread := Snapshot.toOption_decodeValue hp.legible hshows.encode layout
  rw [Snapshot.reread_of_bounded hp hversion hstate, ← hcodec] at hread
  rw [load, hentry]
  dsimp only
  rw [if_neg (by simp)]
  cases hdecode : store.codec.decodeValue (Snapshot S) (Text.symbols entry.snapshot) with
  | error e =>
    rw [hdecode] at hread
    cases ht : updatedAt.reread with
    | none => rfl
    | some t =>
      rw [ht] at hread
      cases hread
  | ok snapshot =>
    rw [hdecode] at hread
    cases ht : updatedAt.reread with
    | none =>
      rw [ht] at hread
      cases hread
    | some t =>
      rw [ht] at hread
      cases hread
      rfl

end Store

end EventJournal
