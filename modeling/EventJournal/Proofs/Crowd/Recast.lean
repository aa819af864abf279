import EventJournal.Proofs.Crowd.Turns
import Mathlib.Data.List.Induction

/-!
Jobs that come back with other results. What a program answers matters to nobody else while its crowd takes no notice
of how jobs end, so a crowd whose results are recast goes through the same states and tells the same history.
-/
namespace EventJournal

open History

variable {σ ν κ τ : Type}

namespace Told

theorem map_eq {α β : Type} (f : α → β) (t : Told σ ν α) : f <$> t = t.bind fun a => done (f a) := rfl

theorem heard_map {α β : Type} (f : α → β) (t : Told σ ν α) : (f <$> t).heard = t.heard := by
  rw [map_eq]
  induction t with
  | done a => rfl
  | act ready effect next => rfl
  | note n rest ih => rw [bind, heard, heard, ih]

theorem rest_map {α β : Type} (f : α → β) (t : Told σ ν α) : (f <$> t).rest = f <$> t.rest := by
  rw [map_eq, map_eq]
  induction t with
  | done a => rfl
  | act ready effect next => rfl
  | note n rest ih => exact ih

/-- A program that has ended with a recast result has ended. -/
theorem map_eq_done {α β : Type} {f : α → β} {t : Told σ ν α} {b : β} :
    f <$> t = done b ↔ ∃ a, t = done a ∧ b = f a := by
  rw [map_eq]
  constructor
  · intro h
    cases t with
    | done a =>
      cases h
      exact ⟨a, rfl, rfl⟩
    | act ready effect next => cases h
    | note n rest => cases h
  · rintro ⟨a, rfl, rfl⟩
    rfl

end Told

namespace Crowd

theorem gather_concat (state : σ) (jobs : List (Told σ ν κ)) (t : Told σ ν κ) :
    gather state (jobs ++ [t]) = (gather state jobs).join t :=
  List.foldl_append

/-- The crowd with other results, which may depend on the job. -/
def recast (f : Nat → κ → κ) (c : Crowd σ ν κ) : Crowd σ ν κ :=
  { c with jobs := c.jobs.mapIdx fun i t => f i <$> t }

variable {rules : Rules σ ν κ τ} (f : Nat → κ → κ)

theorem getElem?_recast (c : Crowd σ ν κ) (i : Nat) : (c.recast f).jobs[i]? = c.jobs[i]?.map (f i <$> ·) :=
  List.getElem?_mapIdx

/-- A job of the recast crowd has ended as soon as it has. -/
theorem recast_done_iff {c : Crowd σ ν κ} {i : Nat} {b : κ} :
    (c.recast f).jobs[i]? = some (.done b) ↔ ∃ a, c.jobs[i]? = some (.done a) ∧ b = f i a := by
  simp only [getElem?_recast, Option.map_eq_some_iff, Told.map_eq_done]
  constructor
  · rintro ⟨_, ht, a, rfl, hb⟩
    exact ⟨a, ht, hb⟩
  · rintro ⟨a, ht, hb⟩
    exact ⟨_, ht, a, rfl, hb⟩

theorem recast_join (c : Crowd σ ν κ) (t : Told σ ν κ) :
    (c.recast f).join (f c.jobs.length <$> t) = (c.join t).recast f := by
  simp [recast, join, Told.heard_map, Told.rest_map, List.mapIdx_append]

theorem recast_gather (state : σ) (jobs : List (Told σ ν κ)) :
    gather state (jobs.mapIdx fun i t => f i <$> t) = (gather state jobs).recast f := by
  induction jobs using List.reverseRecOn with
  | nil => rfl
  | append_singleton jobs t ih =>
    have hlength := length_gather state jobs
    rw [List.mapIdx_concat, gather_concat, gather_concat, ih, ← hlength]
    exact recast_join f _ t

theorem recast_proceed (c : Crowd σ ν κ) (i : Nat) (t : Told σ ν κ) :
    (c.recast f).proceed i (f i <$> t) = (c.proceed i t).recast f := by
  simp [recast, proceed, Told.heard_map, Told.rest_map, List.mapIdx_set]

section Rules

variable (hcall : ∀ s, rules.call s = none) (hagain : ∀ a, rules.again a = none)
include hcall hagain

theorem recast_step (c : Crowd σ ν κ) (m : Move τ) : (c.recast f).step rules m = (c.step rules m).recast f := by
  cases m with
  | call => simp only [step, hcall]
  | outside t => rfl
  | job i =>
    simp only [step, getElem?_recast]
    cases c.jobs[i]? with
    | none => rfl
    | some t =>
      rw [Option.map_some]
      cases t with
      | done a => simp only [Told.map_eq, Told.bind, turn, hagain]
      | note n rest => exact recast_proceed f c i (.note n rest)
      | act ready effect next =>
        simp only [Told.map_eq, Told.bind, turn]
        by_cases hr : ready c.state = true
        · have hr' : ready (c.recast f).state = true := hr
          rw [if_pos hr, if_pos hr']
          let acted := { c with
            state := effect c.state
            history := c.history ++ told i (rules.watch c.state (effect c.state)) }
          exact recast_proceed f acted i (next c.state)
        · have hr' : ¬ ready (c.recast f).state = true := hr
          rw [if_neg hr, if_neg hr']

/-- Recast results change nothing of a run but the results. -/
theorem recast_run (c : Crowd σ ν κ) (moves : List (Move τ)) :
    (c.recast f).run rules moves = (c.run rules moves).recast f := by
  induction moves generalizing c with
  | nil => rfl
  | cons m moves ih => rw [run_cons, run_cons, recast_step f hcall hagain, ih]

end Rules

end Crowd

end EventJournal
