import EventJournal.Proofs.Bus.Company
import EventJournal.Proofs.Bus.Finish

/-!
The ledger of a bus: whose the lanes are, how the events go through them and how they end. It is kept by all
who go by the conduct, and shows which events were dispatched.
-/
namespace EventJournal.Bus

open History

variable {H : Type} {config : BusConfig} {seed : UInt32} {bus bus' : Bus H}
  {hired hired' : List Worker} {mine notices : List Notice} {h : List (Nat × Notice)} {i : Nat}
  {id : LaneId} {lane : Lane}

structure Ledger (config : BusConfig) (seed : UInt32) (bus : Bus H) (hired : List Worker)
    (h : List (Nat × Notice)) : Prop where
  shaped : bus.Shaped config seed
  staffed : Staffed bus hired h
  flows : Flows config seed bus (h.map Prod.snd)
  ends : Ends bus (h.map Prod.snd)

theorem Ledger.fresh (config : BusConfig) (seed : UInt32) :
    Ledger config seed (Bus.fresh config seed : Bus H) [] [] where
  shaped := shaped_fresh config seed
  staffed := .fresh config seed
  flows := .fresh config seed
  ends := .fresh config seed

theorem Does.shaped (d : Does config seed bus hired mine notices bus' hired')
    (hs : bus.Shaped config seed) : bus'.Shaped config seed := by
  cases d with
  | quiet _ shaped => exact shaped
  | brought brings => exact brings.shaped
  | opened opens | claimed opens => exact opens.shaped
  | took _ _ takes => exact takes.shaped
  | finished => exact hs.modifyLane (f := fun l => { l with finished := true }) (fun _ => rfl) _
  | served | begun | ended | drained => exact hs
  | stopped => exact ⟨hs.1, hs.2, hs.3, hs.4, hs.5, hs.6⟩

theorem upheld_ledger (config : BusConfig) (seed : UInt32) :
    Upheld config seed (Ledger config seed : Bus H → List Worker → List (Nat × Notice) → Prop) where
  shaped l := l.shaped
  started l hc := l.staffed.started hc
  does _ _ _ _ _ _ _ l d := {
    shaped := d.shaped l.shaped
    staffed := l.staffed.step d l.shaped
    flows := l.flows.step l.staffed d
    ends := l.ends.step d l.staffed l.shaped }

/-- A first part of what a lane has accepted was dispatched, each event to its end before the next, and at most
the dispatch of one more is under way. -/
def InOrder (id : LaneId) (notices : List Notice) : Prop :=
  ∃ past busy rest, accepted id notices = past ++ busy ++ rest ∧ busy.length ≤ 1 ∧
    dispatches id notices = past.flatMap (round id) ++ busy.map (.begun id)

/-- All that a lane has accepted was dispatched, each event to its end before the next. -/
def Delivered (id : LaneId) (notices : List Notice) : Prop :=
  dispatches id notices = (accepted id notices).flatMap (round id)

/-- So the dispatch of each event came to its end. -/
theorem Delivered.ended {notices : List Notice} (hd : Delivered id notices) {event : Event}
    (hn : .accepted id event ∈ notices) : .ended id event ∈ notices := by
  have hround : .ended id event ∈ dispatches id notices := by
    rw [hd]
    exact List.mem_flatMap.mpr ⟨event, mem_accepted.mpr hn, List.mem_cons_of_mem _ List.mem_cons_self⟩
  exact (List.mem_filter.mp hround).1

namespace Ledger

variable (l : Ledger config seed bus hired h)
include l

theorem in_order (id : LaneId) : InOrder id (h.map Prod.snd) := by
  obtain ⟨past, ht, hd⟩ := l.flows.coherent id
  let hs := hands id (h.map Prod.snd)
  have ha : accepted id (h.map Prod.snd) = past ++ hs.busy.toList ++ (hs.held ++ bus.queue id) := by
    rw [l.flows.flow id, ht]
    simp only [hs, List.append_assoc]
  have hone : hs.busy.toList.length ≤ 1 := by
    cases hs.busy <;> simp
  exact ⟨past, hs.busy.toList, hs.held ++ bus.queue id, ha, hone, hd⟩

/-- A lane that does not exist has accepted nothing. -/
theorem accepted_eq_nil (hl : bus.lane? id = none) : accepted id (h.map Prod.snd) = [] := by
  rw [accepted, List.filterMap_eq_nil_iff]
  intro n hn
  cases n with
  | accepted j event =>
    by_cases hj : j = id
    · subst hj
      have hsome := (l.flows.placed j event hn).2
      rw [hl] at hsome
      cases hsome
    · simp [hj]
  | _ => rfl

/-- A lane that is finished, or does not exist, is drained. -/
theorem drained (hf : ∀ lane, bus.lane? id = some lane → lane.finished = true) :
    bus.queue id = [] ∧ hands id (h.map Prod.snd) = .free := by
  cases hl : bus.lane? id with
  | none =>
    obtain ⟨past, ht, -⟩ := l.flows.coherent id
    have hflow := l.flows.flow id
    rw [l.accepted_eq_nil hl] at hflow
    rw [(List.append_eq_nil_iff.mp hflow.symm).1] at ht
    obtain ⟨hbusy, hheld⟩ := List.append_eq_nil_iff.mp ht.symm
    have hnone : (hands id (h.map Prod.snd)).busy = none :=
      Option.toList_eq_nil_iff.mp (List.append_eq_nil_iff.mp hbusy).2
    refine ⟨queue_of_none hl, ?_⟩
    generalize hands id (h.map Prod.snd) = hs at hnone hheld
    obtain ⟨busy, held⟩ := hs
    cases hnone
    cases hheld
    rfl
  | some lane =>
    obtain ⟨-, hq, hh⟩ := l.ends.finished hl (hf lane hl)
    exact ⟨(queue_of_lane? hl).trans hq, hh⟩

theorem delivered_of_drained (hq : bus.queue id = []) (hh : hands id (h.map Prod.snd) = .free) :
    Delivered id (h.map Prod.snd) := by
  obtain ⟨past, ht, hd⟩ := l.flows.coherent id
  rw [hh] at ht hd
  rw [Delivered, hd, l.flows.flow id, ht, hq]
  simp [Hands.free]

theorem delivered (hf : ∀ lane, bus.lane? id = some lane → lane.finished = true) :
    Delivered id (h.map Prod.snd) :=
  l.delivered_of_drained (l.drained hf).1 (l.drained hf).2

end Ledger

end EventJournal.Bus
