import EventJournal.Proofs.Bus.Ledger

/-!
The handing out of lanes. A lane is handed out when listening gives it a worker, or when a closing claims it; there
is one for each lane at most, and one for each as soon as the lanes are served.
-/
namespace EventJournal.Bus

open History

variable {H : Type} {config : BusConfig} {seed : UInt32} {bus bus' : Bus H} {hired hired' : List Worker}
  {h : List (Nat × Notice)} {notices : List Notice} {id : LaneId}

/-- The lanes that somebody takes into his charge with this notice. -/
def Notice.lanes : Notice → List LaneId
  | .serves id => [id]
  | .claimed ids => ids
  | _ => []

/-- The lanes that were handed out, to workers that are still to start or to those who are in charge. -/
def handedOut (hired : List Worker) (notices : List Notice) : List LaneId :=
  hired.map Worker.lane ++ notices.flatMap Notice.lanes

theorem charged_iff_mem_lanes : Charged id notices ↔ id ∈ notices.flatMap Notice.lanes := by
  rw [List.mem_flatMap]
  constructor
  · rintro (hs | ⟨ids, hc, hid⟩)
    · exact ⟨_, hs, List.mem_singleton.mpr rfl⟩
    · exact ⟨_, hc, hid⟩
  · rintro ⟨n, hn, hid⟩
    cases n with
    | serves j =>
      cases List.mem_singleton.mp hid
      exact .inl hn
    | claimed ids => exact .inr ⟨ids, hn, hid⟩
    | _ => cases hid

/-- Where nobody is in charge no lane was taken. -/
theorem lanes_eq_nil (hno : ∀ id, ¬ Charged id notices) : notices.flatMap Notice.lanes = [] :=
  List.eq_nil_iff_forall_not_mem.mpr fun id hid => hno id (charged_iff_mem_lanes.mpr hid)

structure Allotted (config : BusConfig) (seed : UInt32) (bus : Bus H) (hired : List Worker)
    (h : List (Nat × Notice)) : Prop extends Ledger config seed bus hired h where
  once : (handedOut hired (h.map Prod.snd)).Nodup

namespace Allotted

theorem fresh (config : BusConfig) (seed : UInt32) :
    Allotted config seed (Bus.fresh config seed : Bus H) [] [] where
  toLedger := .fresh config seed
  once := List.nodup_nil

variable (a : Allotted config seed bus hired h)
include a

/-- Before the lanes are served none was handed out. -/
theorem handedOut_eq_nil (hst : bus.started = false) : handedOut hired (h.map Prod.snd) = [] := by
  obtain ⟨-, rfl, hnone⟩ := a.staffed.unserved hst
  exact lanes_eq_nil fun id => not_charged_of_unattended hnone

/-- Then each of them was. -/
theorem mem_handedOut (hst : bus.started = true) (hid : (bus.lane? id).isSome) :
    id ∈ handedOut hired (h.map Prod.snd) := by
  obtain ⟨worker, hw, rfl⟩ | ⟨i, hc⟩ := a.staffed.kept hst id hid
  · exact List.mem_append_left _ (List.mem_map_of_mem hw)
  · exact List.mem_append_right _ (charged_iff_mem_lanes.mp (hc.mono fun _ => mem_map_snd_of_own))

theorem step {i : Nat} (d : Does config seed bus hired (own i h) notices bus' hired') :
    Allotted config seed bus' hired' (h ++ told i notices) where
  toLedger := (upheld_ledger config seed).does i a.toLedger d
  once := by
    have honce := a.once
    rw [handedOut] at honce ⊢
    rw [List.map_append, map_snd_told, List.flatMap_append]
    obtain ⟨ho, rfl, hlanes⟩ | ⟨worker, rfl, -, rfl⟩ | ⟨ho, rfl, rfl⟩ | ⟨rfl, -, hno⟩ := d.staff_cases
    · -- listening hands out all lanes
      obtain ⟨hhired, htaken⟩ := List.append_eq_nil_iff.mp (a.handedOut_eq_nil ho.unstarted)
      rw [hlanes, hhired, htaken]
      simpa [Notice.lanes] using nodup_laneIds a.shaped.distinct
    · -- a worker starts with the lane that it was given
      rw [← List.append_assoc]
      exact (List.perm_append_singleton worker.lane _).nodup_iff.mpr honce
    · -- a closing takes all lanes
      obtain ⟨hhired, htaken⟩ := List.append_eq_nil_iff.mp (a.handedOut_eq_nil ho.unstarted)
      rw [hhired, htaken]
      simpa [Notice.lanes] using nodup_laneIds a.shaped.distinct
    · rw [lanes_eq_nil hno, List.append_nil]
      exact honce

end Allotted

theorem upheld_allotted (config : BusConfig) (seed : UInt32) :
    Upheld config seed (Allotted config seed : Bus H → List Worker → List (Nat × Notice) → Prop) where
  shaped a := a.shaped
  started a hc := a.staffed.started hc
  does _ _ _ _ _ _ _ a d := a.step d

end EventJournal.Bus
