import EventJournal.Engine.Controller
import EventJournal.Fiber
import EventJournal.Proofs.Stream.Numbering

/-!
Programs of controllers and what they keep of the stream they work on. Those that only append to it keep
its changes numbered on from the stored version.
-/
namespace EventJournal

variable {W S α β : Type}

namespace Fiber

/-- The results that a fiber can come to, in whatever states its acts find the world. -/
def Yields (R : α → Prop) : Fiber W α → Prop
  | .done a => R a
  | .act _ _ next => ∀ w, (next w).Yields R

theorem yields_true (t : Fiber W α) : t.Yields fun _ => True := by
  induction t with
  | done a => trivial
  | act ready effect next ih => exact ih

theorem Yields.mono {R R' : α → Prop} {t : Fiber W α} (ht : t.Yields R)
    (hR : ∀ a, R a → R' a) : t.Yields R' := by
  induction t with
  | done a => exact hR a ht
  | act ready effect next ih => exact fun w => ih w (ht w)

theorem Yields.bind {R : β → Prop} {t : Fiber W α} {f : α → Fiber W β}
    (ht : t.Yields fun a => (f a).Yields R) : (t.bind f).Yields R := by
  induction t with
  | done a => exact ht
  | act ready effect next ih => exact fun w => ih w (ht w)

end Fiber

namespace Revision

/-- A program that works on a stream keeps a property of it, unless it refuses. -/
def Keeps (P : Stream S → Prop) (work : Revision (Fiber W) S α) : Prop :=
  ∀ s, P s → (work.run.run s).Yields fun r => ∀ a, r.1 = .ok a → P r.2

variable {P : Stream S → Prop}

theorem keeps_pure (a : α) : Keeps P (pure a : Revision (Fiber W) S α) :=
  fun _ hs _ _ => hs

theorem Keeps.bind {work : Revision (Fiber W) S α} {f : α → Revision (Fiber W) S β}
    (hw : Keeps P work) (hf : ∀ a, Keeps P (f a)) : Keeps P (work >>= f) := by
  intro s hs
  refine Fiber.Yields.bind ((hw s hs).mono ?_)
  rintro ⟨r, s'⟩ hr
  cases r with
  | ok a => exact hf a s' (hr a rfl)
  | error e =>
    intro b hb
    cases hb

/-- What a program does beside the stream does not touch it. -/
theorem keeps_lift (x : Fiber W α) : Keeps P (lift x : Revision (Fiber W) S α) := by
  intro s hs
  have hx : (x.bind fun a => Fiber.done (a, s)).Yields fun r => P r.2 :=
    Fiber.Yields.bind (x.yields_true.mono fun _ _ => hs)
  exact Fiber.Yields.bind (hx.mono fun r hr _ _ => hr)

/-- An emitted event is appended to the stream, whatever is drawn for it. -/
theorem Keeps.emit [Ambient (Fiber W)] [State S] {name : String} {payload : Payload}
    (hp : ∀ {s t : Stream S} {posting event}, P s → s.append posting name payload = .ok event t → P t) :
    Keeps P (emit name payload : Revision (Fiber W) S Event) := by
  refine (keeps_lift _).bind fun stamp => (keeps_lift _).bind ?_
  intro takenAt s hs
  change Fiber.Yields _ (StateT.run (ExceptT.run (ExceptT.mk _)) s)
  rw [ExceptT.run_mk]
  cases ha : Stream.append ⟨stamp, takenAt⟩ name payload s with
  | ok event t =>
    simp only [StateT.run, ha]
    exact fun _ _ => hp hs ha
  | error e t =>
    simp only [StateT.run, ha]
    exact nofun

/-- Appending keeps the numbering. -/
theorem keeps_emit [Ambient (Fiber W)] [State S] {policy : VersionPolicy} (name : String)
    (payload : Payload) :
    Keeps (Stream.Sound policy) (emit name payload : Revision (Fiber W) S Event) := by
  refine Keeps.emit ?_
  intro s t posting event hs ha
  have happended := hs.appended posting name payload
  rwa [Stream.appended, ha] at happended

/-- What is kept under a condition on the controllers. -/
theorem Keeps.of_imp {tidy : Prop} {work : Revision (Fiber W) S α}
    (hw : tidy → Keeps P work) : Keeps (fun s => tidy → P s) work := by
  intro s hs
  by_cases ht : tidy
  · exact (hw ht s (hs ht)).mono fun r hr a ha _ => hr a ha
  · exact (Fiber.yields_true _).mono fun r _ a _ h => absurd h ht

end Revision

end EventJournal
