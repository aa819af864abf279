import EventJournal.Proofs.Bus.Delivery
import Mathlib.Data.List.Induction

/-!
What everybody on a bus can know beforehand of the dispatches: each event goes through the lane where it
belongs, the notices on a lane are those of one, and there are no two events with one id. With that it can be
read off his own notices which event somebody is busy with, and that nobody else is busy with it.
-/
namespace EventJournal.Bus

open History

variable {H : Type} {config : BusConfig} {seed : UInt32} {h k : List (Nat × Notice)} {i j : Nat}
  {id id' : LaneId} {event event' : Event} {notices ms : List Notice}

structure Orderly (config : BusConfig) (seed : UInt32) (h : List (Nat × Notice)) : Prop where
  home : ∀ {id event}, .begun id event ∈ h.map Prod.snd → id = home config seed event
  sole : ∀ {id i j n m}, (i, n) ∈ h → (j, m) ∈ h → n.concerns id = true → m.concerns id = true → i = j
  same : ∀ {id id' event event'}, .begun id event ∈ h.map Prod.snd → .begun id' event' ∈ h.map Prod.snd →
    event.id = event'.id → event = event'

/-- Whether a dispatch begins or ends. -/
def Notice.turns : Notice → Bool
  | .begun _ _ | .ended _ _ => true
  | _ => false

/-- No dispatch begins or ends. -/
def Plain (notices : List Notice) : Prop :=
  ∀ n ∈ notices, n.turns = false

/-- Whoever gave these notices is not in the middle of a dispatch. -/
def Idle (notices : List Notice) : Prop :=
  ∀ id, (hands id notices).busy = none

/-- Whoever gave these notices is in the middle of this dispatch, and of no other. -/
def BusyWith (id : LaneId) (event : Event) (notices : List Notice) : Prop :=
  (hands id notices).busy = some event ∧ ∀ id', id' ≠ id → (hands id' notices).busy = none

section Busy

theorem Unattended.plain (hn : Unattended notices) : Plain notices := by
  intro n hm
  obtain ⟨j, e, rfl⟩ := hn n hm
  rfl

theorem busy_begun : (hands id (notices ++ [.begun id event])).busy = some event := by
  have hc : (Notice.begun id event).concerns id = true := beq_self_eq_true id
  rw [hands_concat_of_concerns hc]
  rfl

theorem busy_ended : (hands id (notices ++ [.ended id event])).busy = none := by
  have hc : (Notice.ended id event).concerns id = true := beq_self_eq_true id
  rw [hands_concat_of_concerns hc]
  rfl

theorem busy_begun_other (hid : id' ≠ id) :
    (hands id' (notices ++ [.begun id event])).busy = (hands id' notices).busy := by
  have hc : (Notice.begun id event).concerns id' = false := beq_false_of_ne hid.symm
  rw [hands_concat_of_not hc]

theorem busy_ended_other (hid : id' ≠ id) :
    (hands id' (notices ++ [.ended id event])).busy = (hands id' notices).busy := by
  have hc : (Notice.ended id event).concerns id' = false := beq_false_of_ne hid.symm
  rw [hands_concat_of_not hc]

theorem busy_append (hm : Plain ms) : (hands id (notices ++ ms)).busy = (hands id notices).busy := by
  induction ms generalizing notices with
  | nil => rw [List.append_nil]
  | cons n rest ih =>
    rw [show notices ++ n :: rest = notices ++ [n] ++ rest by simp,
      ih fun m hr => hm m (List.mem_cons_of_mem n hr)]
    cases hc : n.concerns id with
    | false => rw [hands_concat_of_not hc]
    | true =>
      rw [hands_concat_of_concerns hc]
      cases n with
      | begun j e | ended j e => cases hm _ List.mem_cons_self
      | _ => rfl

/-- Who is busy with an event has begun with it. -/
theorem begun_of_busy (hb : (hands id notices).busy = some event) : .begun id event ∈ notices := by
  induction notices using List.reverseRecOn with
  | nil => cases hb
  | append_singleton past n ih =>
    have hplain : n.turns = false → .begun id event ∈ past ++ [n] := by
      intro hn
      rw [busy_append fun m hm => List.mem_singleton.mp hm ▸ hn] at hb
      exact List.mem_append_left _ (ih hb)
    cases n with
    | begun j e =>
      by_cases hj : id = j
      · subst hj
        rw [busy_begun] at hb
        cases hb
        exact List.mem_append_right _ (List.mem_singleton.mpr rfl)
      · rw [busy_begun_other hj] at hb
        exact List.mem_append_left _ (ih hb)
    | ended j e =>
      by_cases hj : id = j
      · subst hj
        rw [busy_ended] at hb
        cases hb
      · rw [busy_ended_other hj] at hb
        exact List.mem_append_left _ (ih hb)
    | _ => exact hplain rfl

theorem idle_nil : Idle [] :=
  fun _ => rfl

theorem Idle.append (hi : Idle notices) (hm : Plain ms) : Idle (notices ++ ms) :=
  fun id => (busy_append hm).trans (hi id)

theorem Idle.begun (hi : Idle notices) : BusyWith id event (notices ++ [.begun id event]) :=
  ⟨busy_begun, fun id' hid => (busy_begun_other hid).trans (hi id')⟩

theorem BusyWith.append (hb : BusyWith id event notices) (hm : Plain ms) :
    BusyWith id event (notices ++ ms) :=
  ⟨(busy_append hm).trans hb.1, fun id' hid => (busy_append hm).trans (hb.2 id' hid)⟩

theorem BusyWith.ended (hb : BusyWith id event notices) : Idle (notices ++ [.ended id event]) := by
  intro id'
  by_cases hid : id' = id
  · rw [hid]
    exact busy_ended
  · exact (busy_ended_other hid).trans (hb.2 id' hid)

end Busy

/-- The ledger of a bus shows that all is orderly, if the events that were accepted have different ids. -/
theorem Ledger.orderly {bus : Bus H} {hired : List Worker} (l : Ledger config seed bus hired h)
    (hid : ∀ e ∈ arrivals (h.map Prod.snd), ∀ e' ∈ arrivals (h.map Prod.snd), e.id = e'.id → e = e') :
    Orderly config seed h where
  home := l.home_of_begun
  sole hn hm hcn hcm := l.staffed.alone _ _ _ (l.staffed.sole _ _ _ hn hcn) (l.staffed.sole _ _ _ hm hcm)
  same hn hm := by
    have harrived : ∀ {id event}, .begun id event ∈ h.map Prod.snd → event ∈ arrivals (h.map Prod.snd) :=
      fun hb => mem_arrivals.mpr ⟨_, l.accepted_of_begun hb⟩
    exact hid _ (harrived hn) _ (harrived hm)

namespace Orderly

/-- What is orderly was so before. -/
theorem before (o : Orderly config seed (h ++ k)) : Orderly config seed h := by
  have hsub : ∀ {n}, n ∈ h.map Prod.snd → n ∈ (h ++ k).map Prod.snd := by
    intro n hn
    rw [List.map_append]
    exact List.mem_append_left _ hn
  exact {
    home := fun hn => o.home (hsub hn)
    sole := fun hn hm => o.sole (List.mem_append_left k hn) (List.mem_append_left k hm)
    same := fun hn hm => o.same (hsub hn) (hsub hm) }

/-- Who begins a dispatch has all that was done with the events of its lane before in his notices. -/
theorem hands_before (o : Orderly config seed (h ++ [(i, .begun id event)])) :
    hands id (own i h) = hands id (h.map Prod.snd) := by
  rw [hands, hands, story_own]
  intro p hp hc
  have hnew : (i, Notice.begun id event) ∈ h ++ [(i, .begun id event)] :=
    List.mem_append_right _ (List.mem_singleton.mpr rfl)
  exact o.sole (List.mem_append_left _ hp) hnew hc (beq_self_eq_true id)

variable (o : Orderly config seed h)
include o

/-- Who has begun a dispatch from a lane has all that was done with its events in his notices. -/
theorem hands_own (hb : .begun id event ∈ own i h) : hands id (own i h) = hands id (h.map Prod.snd) := by
  rw [hands, hands, story_own]
  exact fun p hp hc => o.sole hp (mem_own.mp hb) hc (beq_self_eq_true id)

/-- What somebody is busy with goes on in his lane. -/
theorem busy_of_own (hb : (hands id (own i h)).busy = some event) :
    (hands id (h.map Prod.snd)).busy = some event := by
  rw [← o.hands_own (begun_of_busy hb)]
  exact hb

/-- No two are busy with one event. -/
theorem eq_of_busy (hi : (hands id (own i h)).busy = some event) (hj : (hands id' (own j h)).busy = some event')
    (he : event.id = event'.id) : i = j := by
  have hbi := begun_of_busy hi
  have hbj := begun_of_busy hj
  have hsame := o.same (mem_map_snd_of_own hbi) (mem_map_snd_of_own hbj) he
  subst hsame
  have hlane : id = id' := (o.home (mem_map_snd_of_own hbi)).trans (o.home (mem_map_snd_of_own hbj)).symm
  subst hlane
  exact o.sole (mem_own.mp hbi) (mem_own.mp hbj) (beq_self_eq_true id) (beq_self_eq_true id)

end Orderly

end EventJournal.Bus
