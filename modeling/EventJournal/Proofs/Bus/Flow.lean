import EventJournal.Proofs.Bus.Staffing

/-!
The way of the events through a lane. What it has accepted was taken out or is still there; what was taken
out was dispatched, each event after the one before, but for what its keeper has in hand.
-/
namespace EventJournal.Bus

open History

variable {H : Type} {config : BusConfig} {seed : UInt32} {bus bus' : Bus H}
  {hired hired' : List Worker} {mine notices : List Notice} {h : List (Nat × Notice)} {i : Nat}
  {id : LaneId} {n : Notice}

/-- The events that were taken out of a lane, in that order. -/
def taken (id : LaneId) (notices : List Notice) : List Event :=
  notices.flatMap fun
    | .took j events _ => if j = id then events else []
    | _ => []

/-- The beginnings and ends of the dispatches from a lane. -/
def dispatches (id : LaneId) (notices : List Notice) : List Notice :=
  notices.filter fun
    | .begun j _ | .ended j _ => j == id
    | _ => false

/-- The dispatch of an event from its beginning to its end. -/
def round (id : LaneId) (event : Event) : List Notice :=
  [.begun id event, .ended id event]

def Coherent (id : LaneId) (notices : List Notice) : Prop :=
  ∃ past, taken id notices = past ++ (hands id notices).busy.toList ++ (hands id notices).held ∧
    dispatches id notices = past.flatMap (round id) ++ (hands id notices).busy.toList.map (.begun id)

section Lists

@[simp] theorem taken_nil : taken id [] = [] := rfl

@[simp] theorem taken_append (ns ms : List Notice) : taken id (ns ++ ms) = taken id ns ++ taken id ms :=
  List.flatMap_append

@[simp] theorem dispatches_append (ns ms : List Notice) :
    dispatches id (ns ++ ms) = dispatches id ns ++ dispatches id ms :=
  List.filter_append ..

theorem taken_of_not (hn : n.concerns id = false) : taken id [n] = [] := by
  cases n with
  | took j events last => simp [taken, ne_of_beq_false hn]
  | _ => rfl

theorem dispatches_of_not (hn : n.concerns id = false) : dispatches id [n] = [] := by
  cases n with
  | begun j event | ended j event => simp [dispatches, ne_of_beq_false hn]
  | _ => rfl

end Lists

namespace Coherent

theorem start (id : LaneId) : Coherent id [] :=
  ⟨[], rfl, rfl⟩

theorem concat_of_not (h : Coherent id notices) (hn : n.concerns id = false) :
    Coherent id (notices ++ [n]) := by
  rw [Coherent, hands_concat_of_not hn, taken_append, taken_of_not hn, dispatches_append,
    dispatches_of_not hn, List.append_nil, List.append_nil]
  exact h

/-- Events are taken out with free hands and dispatched as they came into them. -/
theorem concat (h : Coherent id notices) (hf : n.concerns id = true → (hands id notices).Fits n) :
    Coherent id (notices ++ [n]) := by
  cases hn : n.concerns id with
  | false => exact h.concat_of_not hn
  | true =>
    obtain ⟨past, ht, hd⟩ := h
    rw [Coherent, hands_concat_of_concerns hn, taken_append, dispatches_append]
    cases n with
    | took j events last =>
      have hh : hands id notices = .free := hf hn
      have hj : j = id := eq_of_beq hn
      rw [ht, hd, hh]
      exact ⟨past, by simp [taken, hj, Hands.free, Hands.after],
        by simp [dispatches, Hands.free, Hands.after]⟩
    | begun j event =>
      obtain ⟨rest, hh⟩ := hf hn
      have hj : j = id := eq_of_beq hn
      rw [ht, hd, hh]
      exact ⟨past, by simp [taken, Hands.after], by simp [dispatches, hj, Hands.after]⟩
    | ended j event =>
      obtain ⟨rest, hh⟩ := hf hn
      have hj : j = id := eq_of_beq hn
      rw [ht, hd, hh]
      -- the dispatch of the event is over
      exact ⟨past ++ [event], by simp [taken, Hands.after],
        by simp [dispatches, hj, Hands.after, round]⟩
    | _ => cases hn

end Coherent

/-- What goes into a lane and what is taken out of it shows in its queue. -/
theorem Does.queue_eq (d : Does config seed bus hired mine notices bus' hired') (id : LaneId) :
    bus.queue id ++ accepted id notices = taken id notices ++ bus'.queue id := by
  cases d with
  | quiet quiet => simp [quiet.queue_eq]
  | @brought event _ brings =>
    by_cases hid : id = home config seed event
    · subst hid
      simp [brings.queue_home, accepted, taken]
    · simp [brings.queue_other hid, accepted, taken, Ne.symm hid]
  | opened opens | claimed opens => simp [opens.queue_eq, accepted, taken]
  | @took j events last _ _ _ takes =>
    by_cases hid : id = j
    · subst hid
      simp [← takes.queue_eq, accepted, taken]
    · simp [takes.queue_other hid, accepted, taken, Ne.symm hid]
  | served | begun | ended | drained => simp [accepted, taken]
  | finished => simp [accepted, taken, queue_finishLane]
  | stopped => exact List.append_nil _

structure Flows (config : BusConfig) (seed : UInt32) (bus : Bus H) (notices : List Notice) : Prop where
  placed : ∀ id event, .accepted id event ∈ notices →
    id = home config seed event ∧ (bus.lane? id).isSome
  flow : ∀ id, accepted id notices = taken id notices ++ bus.queue id
  coherent : ∀ id, Coherent id notices

theorem Flows.fresh (config : BusConfig) (seed : UInt32) :
    Flows config seed (Bus.fresh config seed : Bus H) [] where
  placed _ _ hn := by cases hn
  flow _ := rfl
  coherent := .start

/-- Events are accepted by the lane where they belong. -/
theorem Does.placed (d : Does config seed bus hired mine notices bus' hired') {event : Event}
    (hn : .accepted id event ∈ notices) : id = home config seed event ∧ (bus'.lane? id).isSome := by
  cases d with
  | brought brings =>
    cases List.mem_singleton.mp hn
    obtain ⟨mid, lane, -, -, hl, -, rfl⟩ := brings
    refine ⟨rfl, ?_⟩
    rw [isSome_modifyLane, hl]
    rfl
  | quiet | stopped => cases hn
  | _ => cases List.mem_singleton.mp hn

/-- Only the keeper of a lane does anything with its events, and each thing at its time. -/
theorem Staffed.fits (s : Staffed bus hired h)
    (d : Does config seed bus hired (own i h) notices bus' hired') (hn : n ∈ notices)
    (hc : n.concerns id = true) : (hands id (h.map Prod.snd)).Fits n := by
  obtain ⟨charged, fits⟩ := d.fits hn hc
  rw [← s.hands_eq charged]
  exact fits

theorem Staffed.coherent (s : Staffed bus hired h)
    (d : Does config seed bus hired (own i h) notices bus' hired') (hc : Coherent id (h.map Prod.snd)) :
    Coherent id (h.map Prod.snd ++ notices) := by
  obtain rfl | ⟨n, rfl⟩ := d.notices_cases
  · rw [List.append_nil]
    exact hc
  · exact hc.concat (s.fits d (List.mem_singleton.mpr rfl))

theorem Flows.step (f : Flows config seed bus (h.map Prod.snd)) (s : Staffed bus hired h)
    (d : Does config seed bus hired (own i h) notices bus' hired') :
    Flows config seed bus' ((h ++ told i notices).map Prod.snd) := by
  rw [List.map_append, map_snd_told]
  exact {
    placed := by
      intro id event hn
      rcases List.mem_append.mp hn with hn | hn
      · obtain ⟨hid, hlane⟩ := f.placed id event hn
        exact ⟨hid, d.stays hlane⟩
      · exact d.placed hn
    flow := by
      intro id
      calc accepted id (h.map Prod.snd ++ notices)
          = taken id (h.map Prod.snd) ++ (bus.queue id ++ accepted id notices) := by
            rw [accepted_append, f.flow, List.append_assoc]
        _ = taken id (h.map Prod.snd ++ notices) ++ bus'.queue id := by
            rw [d.queue_eq, taken_append, List.append_assoc]
    coherent := fun id => s.coherent d (f.coherent id) }

end EventJournal.Bus
