import EventJournal.Proofs.Bus.Delivery
import EventJournal.Proofs.Text.Hyphenated

/-!
Routing keys. A key is the id of a stream with its name behind it, and as ids have one length it tells both apart. So all
events of a stream go into one lane of its topic, at any time in the life of a bus, and that is a lane which the topic
has.
-/
namespace EventJournal

theorem StreamId.toList_text (id : StreamId) : id.text.toList = id.uuid.chars :=
  String.toList_ofList

/-- A text is the written form of an identifier exactly if it is what the identifier is written as. -/
theorem StreamId.hyphenated_iff (u : Uuid) (s : String) : u.Hyphenated s.toList ↔ s = StreamId.text ⟨u⟩ := by
  rw [Uuid.hyphenated_iff, ← String.toList_inj, StreamId.toList_text]

/-- The first 36 characters of a key are the id, whatever the name looks like. -/
theorem Event.routingKey_eq_iff (e f : Event) :
    e.routingKey = f.routingKey ↔ e.streamId = f.streamId ∧ e.streamName = f.streamName := by
  constructor
  · intro h
    have hchars : e.streamId.uuid.chars ++ e.streamName.toList = f.streamId.uuid.chars ++ f.streamName.toList := by
      have hlist := congrArg String.toList h
      rwa [routingKey, routingKey, String.toList_append, String.toList_append, StreamId.toList_text,
        StreamId.toList_text] at hlist
    have hlength : e.streamId.uuid.chars.length = f.streamId.uuid.chars.length := by
      rw [Uuid.length_chars, Uuid.length_chars]
    obtain ⟨hid, hname⟩ := List.append_inj hchars hlength
    exact ⟨congrArg StreamId.mk (Uuid.chars_injective hid), String.toList_inj.mp hname⟩
  · rintro ⟨hid, hname⟩
    rw [routingKey, routingKey, hid, hname]

namespace Bus

variable {H X : Type} {config : BusConfig} {seed : UInt32} {bus : Bus H} {event : Event}

namespace Shaped

variable (h : bus.Shaped config seed) {t : Topic H} (ht : bus.topic? event.streamName = some t)
include h ht

theorem size_lanes : t.lanes.size = config.partitions := by
  obtain ⟨before, behind, htopics, -⟩ := List.lookup_eq_some_iff.mp ht
  apply h.sizes (event.streamName, t)
  rw [htopics]
  exact List.mem_append_right before List.mem_cons_self

theorem laneOf_eq_home : bus.laneOf event = .ok (home config seed event) := by
  rw [laneOf, ht]
  simp only [home, h.size_lanes ht, h.seed_eq]

/-- The lane that an event goes into is one of its topic. -/
theorem isSome_lane?_home (hpos : 0 < config.partitions) : (bus.lane? (home config seed event)).isSome := by
  have hlt : (home config seed event).index < t.lanes.size :=
    Nat.lt_of_lt_of_eq (Routing.lane_lt seed _ hpos) (h.size_lanes ht).symm
  rw [lane?, home, ht]
  exact Option.isSome_iff_exists.mpr ⟨_, Array.getElem?_eq_getElem hlt⟩

end Shaped

/-- Routing keys identify streams. The keys of two events are the same exactly if their streams have one id and one
name. Ids are written in 36 characters, lower hexadecimal digits with hyphens between them. On a bus made from a valid
configuration the lane of an event depends on its stream only and has an index below the number of lanes; and whatever
has been done on the bus, an event whose topic there is goes into that lane, which is there. -/
theorem keys_identify_streams (hb : create? config seed = .ok bus) :
    (∀ e f : Event, e.routingKey = f.routingKey ↔ e.streamId = f.streamId ∧ e.streamName = f.streamName) ∧
    (∀ (u : Uuid) (s : String), u.Hyphenated s.toList ↔ s = StreamId.text ⟨u⟩) ∧
    (∀ u : Uuid, OwnerId.text ⟨u⟩ = StreamId.text ⟨u⟩ ∧ EventId.text ⟨u⟩ = StreamId.text ⟨u⟩ ∧
      CommandId.text ⟨u⟩ = StreamId.text ⟨u⟩) ∧
    (∀ e f : Event, e.streamId = f.streamId → e.streamName = f.streamName →
      home config seed e = home config seed f) ∧
    (∀ event : Event, (home config seed event).topic = event.streamName ∧
      (home config seed event).index < config.partitions) ∧
    ∀ (wiring : Wiring H X), wiring.Courteous config seed → ∀ (millis : Nat) (rest : X) (tasks : List (Task H))
      (moves : List (Move (World H X → World H X))) (event : Event),
      let now := ((crowd wiring bus millis rest tasks).run (rules wiring) moves).state.bus
      (now.topic? event.streamName).isSome →
        now.laneOf event = .ok (home config seed event) ∧ (now.lane? (home config seed event)).isSome := by
  obtain ⟨hvalid, rfl⟩ := create?_eq_ok_iff.mp hb
  have hpos : 0 < config.partitions := (BusConfig.validate_eq_ok_iff.mp hvalid).partitions.1
  refine ⟨Event.routingKey_eq_iff, StreamId.hyphenated_iff, fun _ => ⟨rfl, rfl, rfl⟩, fun _ _ => home_eq_of_stream,
    fun _ => ⟨rfl, Routing.lane_lt seed _ hpos⟩, ?_⟩
  intro wiring hw millis rest tasks moves event now htopic
  have hc : (pact wiring (Ledger config seed)).Holds _ :=
    holds_crowd (upheld_ledger config seed (H := H)) hw (.fresh config seed) millis rest tasks moves
  have hshaped : now.Shaped config seed := hc.inv.shaped
  obtain ⟨t, ht⟩ := Option.isSome_iff_exists.mp htopic
  exact ⟨hshaped.laneOf_eq_home ht, hshaped.isSome_lane?_home ht hpos⟩

/-- A stream whose name looks like an id has a key of its own, and an event finds its lane while the bus is in use. -/
theorem keys_identify_streams_echo :
    let now := ((crowd Echo.wiring (fresh ⟨2, 4⟩ 7) 0 () Echo.tasks).run (rules Echo.wiring) Echo.lap).state.bus
    create? ⟨2, 4⟩ 7 = .ok (fresh ⟨2, 4⟩ 7 : Bus Unit) ∧ Echo.wiring.Courteous ⟨2, 4⟩ 7 ∧
      (now.topic? (Echo.event 1 "placed").streamName).isSome ∧
      now.laneOf (Echo.event 1 "placed") = .ok (home ⟨2, 4⟩ 7 (Echo.event 1 "placed")) ∧
      Event.routingKey { Echo.event 1 "placed" with streamName := StreamId.text ⟨.ofNat 2⟩ } ≠
        (Echo.event 1 "placed").routingKey := by
  intro now
  have hb : create? ⟨2, 4⟩ 7 = .ok (fresh ⟨2, 4⟩ 7 : Bus Unit) := rfl
  have hw := Echo.courteous ⟨2, 4⟩ 7
  have htopic : (now.topic? (Echo.event 1 "placed").streamName).isSome := by decide +kernel
  obtain ⟨hkeys, -, -, -, -, hlanes⟩ := keys_identify_streams (X := Unit) hb
  refine ⟨hb, hw, htopic, (hlanes Echo.wiring hw 0 () Echo.tasks Echo.lap _ htopic).1, ?_⟩
  intro hsame
  exact absurd ((hkeys _ _).mp hsame).2 (by decide +kernel)

end Bus

end EventJournal
