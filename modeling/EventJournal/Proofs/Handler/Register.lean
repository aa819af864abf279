import EventJournal.Proofs.Crowd.Keeper
import EventJournal.Proofs.Handler.Dispatch

/-!
Registers of lanes on which some handlers run once per event and others run always. A register has what each
handler remembers. For each dispatch it has a page with the calls on the inner handlers and the failures that
were observed. A handler that remembers an event is called on in a dispatch of it exactly if a handler behind
it fails there.
-/
namespace EventJournal

variable {H W α : Type}

namespace Seen

variable {v : Seen} {event : Event} {id : EventId}

theorem contains_add_of_ne (hid : id ≠ event.id) : (v.add event).contains id = v.contains id := by
  rw [add]
  split
  · rfl
  · simp [hid]

theorem contains_forget_of_ne (hid : id ≠ event.id) : (v.forget event).contains id = v.contains id := by
  simp [forget, hid]

end Seen

inductive Remark (H : Type) where
  /-- An inner handler is called on to handle the event, or to undo it. -/
  | called (k : H) (undo : Bool)
  | failed (e : DispatchError)
  /-- The dispatch is over. -/
  | closed

structure Register (H : Type) where
  seen : H → Seen
  /-- The remarks on a dispatch, by its number. -/
  page : Nat → List (Remark H)

namespace Register

def blank : Register H :=
  ⟨fun _ => [], fun _ => []⟩

def knows (reg : Register H) (k : H) (id : EventId) : Bool :=
  (reg.seen k).contains id

def write (n : Nat) (r : Remark H) (reg : Register H) : Register H :=
  { reg with page := Function.update reg.page n (reg.page n ++ [r]) }

/-- Some inner handler is called on in a dispatch. -/
def Called (reg : Register H) (n : Nat) (k : H) : Prop :=
  ∃ undo, .called k undo ∈ reg.page n

/-- A dispatch is over, and no handler failed to handle the event. -/
def Passed (reg : Register H) (n : Nat) : Prop :=
  .closed ∈ reg.page n ∧ ∀ e, .failed e ∈ reg.page n → e.isRollback = true

variable {reg reg' : Register H} {n m : Nat} {k j : H} {r : Remark H} {id : EventId} {event : Event}

theorem page_write_self : (reg.write n r).page n = reg.page n ++ [r] :=
  Function.update_self n _ _

theorem page_write_of_ne (hm : m ≠ n) : (reg.write n r).page m = reg.page m :=
  Function.update_of_ne hm _ _

theorem mem_page_write {r' : Remark H} : r' ∈ (reg.write n r).page n ↔ r' ∈ reg.page n ∨ r' = r := by
  rw [page_write_self, List.mem_append, List.mem_singleton]

theorem called_write_called {undo : Bool} : (reg.write n (.called j undo)).Called n k ↔ reg.Called n k ∨ k = j := by
  constructor
  · rintro ⟨u, hu⟩
    rcases mem_page_write.mp hu with hu | hu
    · exact .inl ⟨u, hu⟩
    · cases hu
      exact .inr rfl
  · rintro (⟨u, hu⟩ | rfl)
    · exact ⟨u, mem_page_write.mpr (.inl hu)⟩
    · exact ⟨undo, mem_page_write.mpr (.inr rfl)⟩

theorem called_write_of_not_called (hr : ∀ k undo, r ≠ .called k undo) :
    (reg.write n r).Called n k ↔ reg.Called n k := by
  refine exists_congr fun u => ?_
  rw [mem_page_write]
  exact or_iff_left fun h => hr k u h.symm

variable [DecidableEq H] {f : Seen → Seen}

/-- What one handler remembers is changed. -/
def revise (k : H) (f : Seen → Seen) (reg : Register H) : Register H :=
  { reg with seen := Function.update reg.seen k (f (reg.seen k)) }

theorem knows_revise_self : (reg.revise k f).knows k id = (f (reg.seen k)).contains id :=
  congrArg (List.contains · id) (Function.update_self k _ reg.seen)

theorem knows_revise_of_ne (hj : j ≠ k) : (reg.revise k f).knows j id = reg.knows j id :=
  congrArg (List.contains · id) (Function.update_of_ne hj _ reg.seen)

/-- A change that leaves an id alone changes nothing as to that id. -/
theorem knows_revise_of_same (hf : (f (reg.seen k)).contains id = (reg.seen k).contains id) :
    (reg.revise k f).knows j id = reg.knows j id := by
  by_cases hj : j = k
  · subst hj
    rw [knows_revise_self]
    exact hf
  · exact knows_revise_of_ne hj

end Register

/-- The handlers of a lane by their names. -/
structure Lineup (H W : Type) where
  inner : H → Handler (Fiber W)
  /-- Which of them run once per event. -/
  once : H → Bool
  observe : Observer (Fiber W)
  lane : List H

namespace Lineup

/-- Calls on an inner handler, and remarks that. -/
def calling (lineup : Lineup H W) (n : Nat) (k : H) : Handler (Told (Register H × W) Empty) where
  accepts := (lineup.inner k).accepts
  handle ctx event := do
    Told.kept.modify (.write n (.called k false))
    Told.beside ((lineup.inner k).handle ctx event)
  rollback ctx event := do
    Told.kept.modify (.write n (.called k true))
    Told.beside ((lineup.inner k).rollback ctx event)

def observing (lineup : Lineup H W) (n : Nat) : Observer (Told (Register H × W) Empty) := fun e => do
  Told.kept.modify (.write n (.failed e))
  Told.beside (lineup.observe e)

/-- A handler that takes the event is registered before a place. -/
def Ahead (lineup : Lineup H W) (event : Event) (k : H) (place : Nat) : Prop :=
  (lineup.inner k).accepts event = true ∧ ∃ i < place, lineup.lane[i]? = some k

/-- A dispatch failed at a handler behind another that takes the event. -/
def FailedBehind (lineup : Lineup H W) (reg : Register H) (n : Nat) (event : Event) (k : H) : Prop :=
  ∃ e, .failed e ∈ reg.page n ∧ e.isRollback = false ∧ lineup.Ahead event k e.index

variable [DecidableEq H]

def memory (k : H) : Cell (Told (Register H × W) Empty) Seen where
  act f := Told.kept.act fun reg =>
    let (a, v) := f (reg.seen k)
    (a, { reg with seen := Function.update reg.seen k v })

def handler (lineup : Lineup H W) (n : Nat) (k : H) : Handler (Told (Register H × W) Empty) :=
  if lineup.once k then (lineup.calling n k).once (.inCell (memory k)) else lineup.calling n k

/-- One dispatch, by number. -/
def round (lineup : Lineup H W) (n : Nat) (delivery : Context × Event) :
    Keeping (Register H) W Nat := do
  dispatch (lineup.lane.map (lineup.handler n)) (lineup.observing n) delivery.1 delivery.2
  Told.kept.modify (.write n .closed)
  return n + 1

/-- The dispatches of a lane follow each other. -/
def again (lineup : Lineup H W) (deliveries : List (Context × Event)) (n : Nat) :
    Option (Keeping (Register H) W Nat) :=
  deliveries[n]?.map (lineup.round n)

section Takers

variable {lineup : Lineup H W} {event : Event}

/-- The handlers of the lane that take an event, with their places. -/
def takers (lineup : Lineup H W) (event : Event) : List (Nat × H) :=
  Dispatch.takers (fun k => (lineup.inner k).accepts event) lineup.lane

theorem accepts_handler (lineup : Lineup H W) (n : Nat) (k : H) :
    (lineup.handler n k).accepts = (lineup.inner k).accepts := by
  rw [handler]
  split
  · rfl
  · rfl

def placed (lineup : Lineup H W) (n : Nat) (ps : List (Nat × H)) :
    List (Nat × Handler (Told (Register H × W) Empty)) :=
  ps.map fun p => (p.1, lineup.handler n p.2)

theorem matching_eq (lineup : Lineup H W) (n : Nat) (event : Event) :
    Dispatch.matching (lineup.lane.map (lineup.handler n)) event = lineup.placed n (lineup.takers event) := by
  rw [Dispatch.matching_map]
  simp only [accepts_handler]
  rfl

omit [DecidableEq H] in
theorem mem_takers {p : Nat × H} :
    p ∈ lineup.takers event ↔ lineup.lane[p.1]? = some p.2 ∧ (lineup.inner p.2).accepts event = true :=
  Dispatch.mem_takers_iff

omit [DecidableEq H] in
/-- They come in the order of their places. -/
theorem pairwise_takers (lineup : Lineup H W) (event : Event) :
    (lineup.takers event).Pairwise fun p q => p.1 < q.1 :=
  Dispatch.pairwise_takers _ _

omit [DecidableEq H] in
/-- Those that come before one in that order are those that are ahead of its place. -/
theorem exists_mem_before_iff {before after : List (Nat × H)} {p : Nat × H} {k : H}
    (h : lineup.takers event = before ++ p :: after) :
    (∃ q ∈ before, q.2 = k) ↔ lineup.Ahead event k p.1 := by
  have hsorted := lineup.pairwise_takers event
  rw [h, List.pairwise_append, List.pairwise_cons] at hsorted
  obtain ⟨-, ⟨hafter, -⟩, hbefore⟩ := hsorted
  constructor
  · rintro ⟨q, hq, rfl⟩
    have hin : q ∈ lineup.takers event := h ▸ List.mem_append_left _ hq
    obtain ⟨hplace, haccepts⟩ := mem_takers.mp hin
    exact ⟨haccepts, q.1, hbefore q hq p List.mem_cons_self, hplace⟩
  · rintro ⟨haccepts, i, hi, hplace⟩
    have hin : (i, k) ∈ lineup.takers event := mem_takers.mpr ⟨hplace, haccepts⟩
    rw [h] at hin
    rcases List.mem_append.mp hin with hq | hq
    · exact ⟨_, hq, rfl⟩
    · rcases List.mem_cons.mp hq with rfl | hq
      · exact absurd hi (Nat.lt_irrefl _)
      · exact absurd hi (Nat.lt_asymm (hafter _ hq))

end Takers

end Lineup

end EventJournal
