import EventJournal.Ambient
import EventJournal.Fiber

/-!
Fibers that tell what they do. A told fiber is a fiber with notes between its acts; without them it is
the fiber again. Notes are not acts: they are told along with the act before them.
-/
namespace EventJournal

inductive Told (σ ν α : Type) where
  | done (a : α)
  | act (ready : σ → Bool) (effect : σ → σ) (next : σ → Told σ ν α)
  | note (n : ν) (rest : Told σ ν α)

namespace Told

variable {σ ν α β : Type}

def bind (f : α → Told σ ν β) : Told σ ν α → Told σ ν β
  | done a => f a
  | act ready effect next => act ready effect fun s => (next s).bind f
  | note n rest => note n (rest.bind f)

instance : Monad (Told σ ν) where
  pure := done
  bind t f := t.bind f

@[simp] theorem pure_eq (a : α) : (pure a : Told σ ν α) = done a := rfl

@[simp] theorem bind_eq (t : Told σ ν α) (f : α → Told σ ν β) : t >>= f = t.bind f := rfl

theorem bind_pure (t : Told σ ν α) : t.bind done = t := by
  induction t with
  | done a => rfl
  | act ready effect next ih => simp only [bind, ih]
  | note n rest ih => rw [bind, ih]

theorem bind_assoc {γ : Type} (t : Told σ ν α) (f : α → Told σ ν β) (g : β → Told σ ν γ) :
    (t.bind f).bind g = t.bind fun a => (f a).bind g := by
  induction t with
  | done a => rfl
  | act ready effect next ih => simp only [bind, ih]
  | note n rest ih => simp only [bind, ih]

instance : LawfulMonad (Told σ ν) := LawfulMonad.mk' _
  bind_pure
  (fun _ _ => rfl)
  bind_assoc

def tell (n : ν) : Told σ ν Unit :=
  note n (done ())

/-- The notes that come before the next act. -/
def heard : Told σ ν α → List ν
  | done _ => []
  | act _ _ _ => []
  | note n rest => n :: rest.heard

/-- What follows on those notes. -/
def rest : Told σ ν α → Told σ ν α
  | done a => done a
  | act ready effect next => act ready effect next
  | note _ t => t.rest

/-- Whether there is something that can happen next, and can happen now. -/
def isReady : Told σ ν α → σ → Bool
  | done _, _ => false
  | act ready _ _, s => ready s
  | note _ _, _ => true

/-- The result of a fiber that is done. -/
def result? : Told σ ν α → Option α
  | done a => some a
  | act _ _ _ => none
  | note _ _ => none

theorem eq_done_of_result? {t : Told σ ν α} {a : α} (h : t.result? = some a) : t = done a := by
  cases t with
  | done b =>
    cases h
    rfl
  | act ready effect next => cases h
  | note n rest => cases h

/-- A fiber that tells nothing. -/
def ofFiber : Fiber σ α → Told σ ν α
  | .done a => done a
  | .act ready effect next => act ready effect fun s => ofFiber (next s)

theorem ofFiber_bind (t : Fiber σ α) (f : α → Fiber σ β) :
    (ofFiber (t.bind f) : Told σ ν β) = (ofFiber t).bind fun a => ofFiber (f a) := by
  induction t with
  | done a => rfl
  | act ready effect next ih => simp only [Fiber.bind_act, ofFiber, bind, ih]

/-- The fiber without its notes. -/
def erase : Told σ ν α → Fiber σ α
  | done a => .done a
  | act ready effect next => .act ready effect fun s => (next s).erase
  | note _ rest => rest.erase

@[simp] theorem erase_ofFiber (t : Fiber σ α) : (ofFiber t : Told σ ν α).erase = t := by
  induction t with
  | done a => rfl
  | act ready effect next ih => simp only [ofFiber, erase, ih]

@[simp] theorem erase_bind (t : Told σ ν α) (f : α → Told σ ν β) :
    (t.bind f).erase = t.erase.bind fun a => (f a).erase := by
  induction t with
  | done a => rfl
  | act ready effect next ih => simp only [bind, erase, ih, Fiber.bind_act]
  | note n rest ih => exact ih

/-- A fiber beside whose state a further one is kept, which it leaves alone. -/
def beside {s : Type} : Fiber σ α → Told (s × σ) ν α
  | .done a => done a
  | .act ready effect next =>
    act (fun p => ready p.2) (fun p => (p.1, effect p.2)) fun p => beside (next p.2)

theorem beside_bind {s : Type} (t : Fiber σ α) (f : α → Fiber σ β) :
    (beside (t.bind f) : Told (s × σ) ν β) = (beside t).bind fun a => beside (f a) := by
  induction t with
  | done a => rfl
  | act ready effect next ih => simp only [Fiber.bind_act, beside, bind, ih]

/-- The state that is kept beside. -/
def kept {s : Type} : Cell (Told (s × σ) ν) s where
  act f := act (fun _ => true) (fun p => ((f p.1).2, p.2)) fun p => done (f p.1).1

instance {s : Type} [Ambient (Fiber σ)] : Ambient (Told (s × σ) ν) where
  stamp := beside (Ambient.stamp : Fiber σ Stamp)
  now := beside (Ambient.now : Fiber σ Timestamp)
  isCancelled ctx := beside (Ambient.isCancelled ctx : Fiber σ Bool)
  record r := beside (Ambient.record r : Fiber σ Unit)

end Told

end EventJournal
