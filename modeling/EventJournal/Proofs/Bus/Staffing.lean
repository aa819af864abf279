import EventJournal.Proofs.Bus.Aging

/-!
Who is in charge of the lanes. Nobody is before they are handed out; from then on each lane has one keeper or
a worker that is still to start, so whatever is done with the events of a lane is done by one.
-/
namespace EventJournal.Bus

open History

variable {H : Type} {config : BusConfig} {seed : UInt32} {bus bus' : Bus H}
  {hired hired' : List Worker} {mine notices : List Notice} {h : List (Nat × Notice)} {i j : Nat}
  {id : LaneId}

/-- Once the lanes are served there is one for each. -/
structure Tended (bus : Bus H) (hired : List Worker) (h : List (Nat × Notice)) : Prop where
  apart : (hired.map Worker.lane).Nodup
  /-- A worker that is still to start will be the only one in charge. -/
  free : ∀ worker ∈ hired, ∀ i, ¬ Charged worker.lane (own i h)
  alone : ∀ id i j, Charged id (own i h) → Charged id (own j h) → i = j
  kept : bus.started = true → ∀ id, (bus.lane? id).isSome →
    (∃ worker ∈ hired, worker.lane = id) ∨ ∃ i, Charged id (own i h)

structure Staffed (bus : Bus H) (hired : List Worker) (h : List (Nat × Notice)) : Prop extends
    Tended bus hired h where
  unserved : bus.started = false → bus.stopped = false ∧ hired = [] ∧ Unattended (h.map Prod.snd)
  sole : ∀ id i n, (i, n) ∈ h → n.concerns id = true → Charged id (own i h)

theorem charged_own_append : Charged id (own j (h ++ told i notices)) ↔
    Charged id (own j h) ∨ j = i ∧ Charged id notices := by
  rw [own_append, charged_append]
  by_cases hj : j = i
  · subst hj
    simp [own_told]
  · have hn : ¬ Charged id [] := not_charged_of_unattended fun _ hn => by cases hn
    simp [own_told_other hj, hj, hn]

/-- All that was done with the events of a lane was done by one. -/
theorem story_own (hmine : ∀ p ∈ h, p.2.concerns id = true → p.1 = i) :
    story id (h.map Prod.snd) = story id (own i h) := by
  have hsame : ∀ p ∈ h, (p.2.concerns id) = (p.2.concerns id && p.1 == i) := by
    intro p hp
    cases hcon : p.2.concerns id with
    | false => rfl
    | true => simp [hmine p hp hcon]
  rw [story, story, own, List.filter_map, List.filter_map, List.filter_filter]
  exact congrArg (List.map Prod.snd) (List.filter_congr hsame)

section Does

variable (d : Does config seed bus hired mine notices bus' hired')
include d

/-- Lanes are handed out or taken into charge, or else everybody's charges stay. -/
theorem Does.staff_cases :
    (Opens config seed bus bus' ∧ notices = [.opened] ∧
      hired'.map Worker.lane = hired.map Worker.lane ++ bus.laneIds) ∨
    (∃ worker, hired = worker :: hired' ∧ bus' = bus ∧ notices = [.serves worker.lane]) ∨
    (Opens config seed bus bus' ∧ notices = [.claimed bus.laneIds] ∧ hired' = hired) ∨
    hired' = hired ∧ bus'.started = bus.started ∧ ∀ id, ¬ Charged id notices := by
  cases d with
  | opened opens ctx =>
    refine .inl ⟨opens, rfl, ?_⟩
    rw [List.map_append, List.map_map]
    exact congrArg _ (List.map_id _)
  | served eq => exact .inr (.inl ⟨_, eq, rfl, rfl⟩)
  | claimed opens => exact .inr (.inr (.inl ⟨opens, rfl, rfl⟩))
  | quiet quiet => exact .inr (.inr (.inr ⟨rfl, quiet.started_eq, by simp [Charged]⟩))
  | brought brings => exact .inr (.inr (.inr ⟨rfl, brings.started_eq, by simp [Charged]⟩))
  | took _ _ takes => exact .inr (.inr (.inr ⟨rfl, takes.started_eq, by simp [Charged]⟩))
  | begun | ended | finished | drained | stopped =>
    exact .inr (.inr (.inr ⟨rfl, rfl, by simp [Charged]⟩))

/-- One notice is given at a time. -/
theorem Does.notices_cases : notices = [] ∨ ∃ n, notices = [n] := by
  cases d with
  | quiet | stopped => exact .inl rfl
  | _ => exact .inr ⟨_, rfl⟩

/-- Whatever is done with the events of a lane is done by who is in charge of it, as his hands allow. -/
theorem Does.fits {n : Notice} (hn : n ∈ notices)
    (hc : n.concerns id = true) : Charged id mine ∧ (hands id mine).Fits n := by
  cases d with
  | took charged free | begun charged free | ended charged free =>
    cases List.mem_singleton.mp hn
    rw [← eq_of_beq hc]
    first
      | exact ⟨charged, free⟩
      | exact ⟨charged, _, free⟩
  | quiet | stopped => cases hn
  | _ =>
    cases List.mem_singleton.mp hn
    cases hc

/-- While nobody serves the lanes, nothing happens but that events arrive. -/
theorem Does.unattended (hm : Unattended mine) (hstopped : bus.stopped = false) (hhired : hired = [])
    (hst : bus'.started = false) : bus'.stopped = false ∧ Unattended notices := by
  have hnone : Unattended [] := fun _ hn => by cases hn
  cases d with
  | quiet quiet => exact ⟨quiet.stopped_eq.trans hstopped, hnone⟩
  | brought brings =>
    refine ⟨brings.stopped_eq.trans hstopped, ?_⟩
    intro n hn
    exact ⟨_, _, List.mem_singleton.mp hn⟩
  | opened opens => exact absurd hst (by simp [opens.started])
  | served eq =>
    rw [hhired] at eq
    cases eq
  | claimed opens => exact absurd hst (by simp [opens.started])
  | took charged | begun charged | ended charged | finished charged =>
    exact absurd charged (not_charged_of_unattended hm)
  | drained stopped =>
    obtain hs | ⟨ho, -⟩ | ⟨ids, hc, -⟩ := stopped
    · rw [hstopped] at hs
      cases hs
    · obtain ⟨_, _, he⟩ := hm _ ho
      cases he
    · obtain ⟨_, _, he⟩ := hm _ hc
      cases he
  | stopped drained =>
    obtain ⟨_, _, he⟩ := hm _ drained
    cases he

theorem Does.started (hst : bus.started = true) : bus'.started = true := by
  obtain ⟨ho, -⟩ | ⟨worker, -, rfl, -⟩ | ⟨ho, -⟩ | ⟨-, he, -⟩ := d.staff_cases
  · exact ho.started
  · exact hst
  · exact ho.started
  · exact he.trans hst

end Does

namespace Staffed

theorem fresh (config : BusConfig) (seed : UInt32) : Staffed (Bus.fresh config seed : Bus H) [] [] where
  unserved _ := ⟨rfl, rfl, fun _ hn => by cases hn⟩
  apart := List.nodup_nil
  free _ hw := by cases hw
  alone _ _ _ hc := absurd hc (not_charged_of_unattended fun _ hn => by cases hn)
  kept hst := by cases hst
  sole _ _ _ hn := by cases hn

variable (s : Staffed bus hired h)
include s

/-- Before the lanes are handed out nobody is in charge of any. -/
theorem not_charged (hst : bus.started = false) : ¬ Charged id (own i h) :=
  not_charged_of_unattended fun n hn => (s.unserved hst).2.2 n (mem_map_snd_of_own hn)

theorem started (hc : Charged id (own i h)) : bus.started = true := by
  cases hst : bus.started with
  | true => rfl
  | false => exact absurd hc (s.not_charged hst)

/-- Whatever was noted besides arrivals was noted after the lanes were handed out. -/
theorem started_of_mem {n : Notice} (hn : n ∈ h.map Prod.snd) (hne : ∀ id event, n ≠ .accepted id event) :
    bus.started = true := by
  cases hst : bus.started with
  | true => rfl
  | false =>
    obtain ⟨k, event, he⟩ := (s.unserved hst).2.2 n hn
    exact absurd he (hne k event)

/-- What was done with the events of a lane was done by its keeper. -/
theorem story_eq (hc : Charged id (own i h)) : story id (h.map Prod.snd) = story id (own i h) :=
  story_own fun p hp hcon => s.alone id p.1 i (s.sole id p.1 p.2 hp hcon) hc

theorem hands_eq (hc : Charged id (own i h)) : hands id (own i h) = hands id (h.map Prod.snd) := by
  rw [hands, hands, s.story_eq hc]

/-- The lanes are handed out to workers that are still to start. -/
theorem opened (hs : bus.Shaped config seed) (ho : Opens config seed bus bus')
    (hlanes : hired'.map Worker.lane = hired.map Worker.lane ++ bus.laneIds) :
    Tended bus' hired' (h ++ told i [.opened]) := by
  have hnobody : ∀ id j, ¬ Charged id (own j (h ++ told i [.opened])) := by
    intro id j hc
    obtain hc | ⟨-, hc⟩ := charged_own_append.mp hc
    · exact s.not_charged ho.unstarted hc
    · simp [Charged] at hc
  rw [(s.unserved ho.unstarted).2.1, List.map_nil, List.nil_append] at hlanes
  exact {
    apart := by
      rw [hlanes]
      exact nodup_laneIds hs.distinct
    free := fun worker _ j => hnobody worker.lane j
    alone := fun id j _ hc => absurd hc (hnobody id j)
    kept := by
      intro _ id hid
      rw [ho.lane?_eq, Option.isSome_map, lane?_isSome_iff hs.distinct, ← hlanes] at hid
      obtain ⟨worker, hw, he⟩ := List.mem_map.mp hid
      exact .inl ⟨worker, hw, he⟩ }

/-- A worker starts. -/
theorem served {worker : Worker} (hw : hired = worker :: hired') :
    Tended bus hired' (h ++ told i [.serves worker.lane]) := by
  have hcharged : ∀ id j, Charged id (own j (h ++ told i [.serves worker.lane])) →
      Charged id (own j h) ∨ j = i ∧ id = worker.lane := by
    intro id j hc
    refine (charged_own_append.mp hc).imp_right ?_
    rintro ⟨hj, hc | ⟨ids, hc, -⟩⟩
    · cases List.mem_singleton.mp hc
      exact ⟨hj, rfl⟩
    · cases List.mem_singleton.mp hc
  have hself : Charged worker.lane (own i (h ++ told i [.serves worker.lane])) :=
    charged_own_append.mpr (.inr ⟨rfl, .inl (List.mem_singleton.mpr rfl)⟩)
  subst hw
  have hapart := s.apart
  rw [List.map_cons, List.nodup_cons] at hapart
  exact {
    apart := hapart.2
    free := by
      intro other hw j hc
      obtain hc | ⟨-, he⟩ := hcharged _ _ hc
      · exact s.free other (List.mem_cons_of_mem _ hw) j hc
      · exact hapart.1 (List.mem_map.mpr ⟨other, hw, he⟩)
    alone := by
      intro id j k hj hk
      obtain hj | ⟨rfl, he⟩ := hcharged _ _ hj
      · obtain hk | ⟨-, rfl⟩ := hcharged _ _ hk
        · exact s.alone id j k hj hk
        · exact absurd hj (s.free worker List.mem_cons_self j)
      · obtain hk | ⟨rfl, -⟩ := hcharged _ _ hk
        · exact absurd (he ▸ hk) (s.free worker List.mem_cons_self k)
        · rfl
    kept := by
      intro hst id hid
      obtain ⟨other, hw, rfl⟩ | ⟨j, hc⟩ := s.kept hst id hid
      · rcases List.mem_cons.mp hw with rfl | hw
        · exact .inr ⟨i, hself⟩
        · exact .inl ⟨other, hw, rfl⟩
      · exact .inr ⟨j, charged_own_append.mpr (.inl hc)⟩ }

/-- A closing takes all lanes. -/
theorem claimed (hs : bus.Shaped config seed) (ho : Opens config seed bus bus') :
    Tended bus' hired (h ++ told i [.claimed bus.laneIds]) := by
  have hcharged : ∀ id j, Charged id (own j (h ++ told i [.claimed bus.laneIds])) → j = i := by
    intro id j hc
    obtain hc | ⟨hj, -⟩ := charged_own_append.mp hc
    · exact absurd hc (s.not_charged ho.unstarted)
    · exact hj
  exact {
    apart := s.apart
    free := by
      intro worker hw
      rw [(s.unserved ho.unstarted).2.1] at hw
      cases hw
    alone := by
      intro id j k hj hk
      rw [hcharged id j hj, hcharged id k hk]
    kept := by
      intro _ id hid
      rw [ho.lane?_eq, Option.isSome_map, lane?_isSome_iff hs.distinct] at hid
      have hnew : Charged id [.claimed bus.laneIds] := .inr ⟨_, List.mem_singleton.mpr rfl, hid⟩
      exact .inr ⟨i, charged_own_append.mpr (.inr ⟨rfl, hnew⟩)⟩ }

variable (d : Does config seed bus hired (own i h) notices bus' hired')
include d

/-- All charges stay as they are. -/
theorem unchanged (hhired : hired' = hired) (hst : bus'.started = bus.started)
    (hno : ∀ id, ¬ Charged id notices) : Tended bus' hired' (h ++ told i notices) := by
  have hcharged : ∀ id j, Charged id (own j (h ++ told i notices)) ↔ Charged id (own j h) := by
    intro id j
    rw [charged_own_append]
    exact or_iff_left fun hc => hno id hc.2
  exact {
    apart := by
      rw [hhired]
      exact s.apart
    free := by
      intro worker hw j
      rw [hcharged]
      exact s.free worker (hhired ▸ hw) j
    alone := by
      intro id j k
      rw [hcharged, hcharged]
      exact s.alone id j k
    kept := by
      intro hst' id hid
      rw [hst] at hst'
      obtain ⟨lane', hl⟩ := Option.isSome_iff_exists.mp hid
      obtain ⟨lane, hlane, -⟩ | ⟨hf, -⟩ := d.lane_cases hl
      · obtain hw | ⟨j, hc⟩ := s.kept hst' id (by simp [hlane])
        · rw [hhired]
          exact .inl hw
        · exact .inr ⟨j, (hcharged id j).mpr hc⟩
      · rw [hst'] at hf
        cases hf }

theorem unserved_step (hst' : bus'.started = false) :
    bus'.stopped = false ∧ hired' = [] ∧ Unattended ((h ++ told i notices).map Prod.snd) := by
  have hst : bus.started = false := by
    cases hst : bus.started with
    | false => rfl
    | true => exact absurd (d.started hst) (by simp [hst'])
  obtain ⟨hstopped, hhired, hall⟩ := s.unserved hst
  have hmine : Unattended (own i h) := fun n hn => hall n (mem_map_snd_of_own hn)
  obtain ⟨hstopped', hnew⟩ := d.unattended hmine hstopped hhired hst'
  have hhired' : hired' = [] := by
    obtain ⟨ho, -⟩ | ⟨worker, hw, -⟩ | ⟨ho, -⟩ | ⟨he, -⟩ := d.staff_cases
    · exact absurd hst' (by simp [ho.started])
    · rw [hhired] at hw
      cases hw
    · exact absurd hst' (by simp [ho.started])
    · exact he.trans hhired
  have hall' : Unattended ((h ++ told i notices).map Prod.snd) := by
    intro n hn
    rw [List.map_append, map_snd_told, List.mem_append] at hn
    exact hn.elim (hall n) (hnew n)
  exact ⟨hstopped', hhired', hall'⟩

theorem sole_step {n : Notice} (hn : (j, n) ∈ h ++ told i notices) (hc : n.concerns id = true) :
    Charged id (own j (h ++ told i notices)) := by
  rw [charged_own_append]
  rcases List.mem_append.mp hn with hn | hn
  · exact .inl (s.sole id j n hn hc)
  · obtain ⟨m, hm, he⟩ := List.mem_map.mp hn
    cases he
    exact .inl (d.fits hm hc).1

theorem step (hs : bus.Shaped config seed) : Staffed bus' hired' (h ++ told i notices) where
  toTended := by
    obtain ⟨ho, rfl, hlanes⟩ | ⟨worker, hw, rfl, rfl⟩ | ⟨ho, rfl, rfl⟩ | ⟨hhired, hst, hno⟩ := d.staff_cases
    · exact s.opened hs ho hlanes
    · exact s.served hw
    · exact s.claimed hs ho
    · exact s.unchanged d hhired hst hno
  unserved := s.unserved_step d
  sole _ _ _ := s.sole_step d

end Staffed

end EventJournal.Bus
