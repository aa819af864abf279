/-!
Fibers that share a state. A fiber is a row of acts, each of which happens at once; it may have to wait
until the state allows its next act. Advancing a fiber runs it up to such a wait.
-/
namespace EventJournal

inductive Fiber (σ α : Type) where
  | done (a : α)
  /-- Once `ready`, changes the state by `effect`; what follows is told the state before. -/
  | act (ready : σ → Bool) (effect : σ → σ) (next : σ → Fiber σ α)

namespace Fiber

variable {σ α β : Type}

def bind (f : α → Fiber σ β) : Fiber σ α → Fiber σ β
  | done a => f a
  | act ready effect next => act ready effect fun s => (next s).bind f

instance : Monad (Fiber σ) where
  pure := done
  bind t f := t.bind f

@[simp] theorem pure_eq (a : α) : (pure a : Fiber σ α) = done a := rfl

@[simp] theorem bind_done (a : α) (f : α → Fiber σ β) : (done a).bind f = f a := rfl

@[simp] theorem bind_act (ready : σ → Bool) (effect : σ → σ) (next : σ → Fiber σ α)
    (f : α → Fiber σ β) :
    (act ready effect next).bind f = act ready effect fun s => (next s).bind f := rfl

theorem bind_pure (t : Fiber σ α) : t.bind done = t := by
  induction t with
  | done a => rfl
  | act ready effect next ih => simp [ih]

theorem bind_assoc {γ : Type} (t : Fiber σ α) (f : α → Fiber σ β) (g : β → Fiber σ γ) :
    (t.bind f).bind g = t.bind fun a => (f a).bind g := by
  induction t with
  | done a => rfl
  | act ready effect next ih => simp [ih]

instance : LawfulMonad (Fiber σ) := LawfulMonad.mk' _
  bind_pure
  (fun _ _ => rfl)
  bind_assoc

/-- One act, as soon as the state is ready for it. -/
def await (ready : σ → Bool) (f : σ → α × σ) : Fiber σ α :=
  act ready (fun s => (f s).2) fun s => done (f s).1

/-- One act that need not wait. -/
def perform (f : σ → α × σ) : Fiber σ α :=
  await (fun _ => true) f

/-- Whether the next act can happen now. -/
def isReady : Fiber σ α → σ → Bool
  | done _, _ => false
  | act ready _ _, s => ready s

/-- Does the next act, if it can happen. -/
def step : Fiber σ α → σ → Fiber σ α × σ
  | done a, s => (done a, s)
  | act ready effect next, s => if ready s then (next s, effect s) else (act ready effect next, s)

/-- Does acts until the fiber is done or has to wait. -/
def advance : Fiber σ α → σ → Fiber σ α × σ
  | done a, s => (done a, s)
  | act ready effect next, s =>
    if ready s then (next s).advance (effect s) else (act ready effect next, s)

/-- The result of a fiber that is done. -/
def result? : Fiber σ α → Option α
  | done a => some a
  | act _ _ _ => none

@[simp] theorem advance_done (a : α) (s : σ) : (done a).advance s = (done a, s) := rfl

/-- Advancing one part after the other is advancing the whole. -/
theorem advance_bind (t : Fiber σ α) (f : α → Fiber σ β) (s : σ) :
    (t.bind f).advance s =
      match t.advance s with
      | (done a, s) => (f a).advance s
      | (waiting, s) => (waiting.bind f, s) := by
  induction t generalizing s with
  | done a => rfl
  | act ready effect next ih =>
    by_cases h : ready s
    · simp [advance, h, ih]
    · simp [advance, h]

end Fiber

end EventJournal
