import EventJournal.Proofs.Crowd.Told

/-!
Programs that run alone. From one state a program that nobody disturbs comes to one result, one state and one row of
notes, unless it has to wait for others, which is then for ever.
-/
namespace EventJournal

variable {σ ν α β ε B W : Type}

/-- How a program ends. -/
structure Upshot (σ ν α : Type) where
  notes : List ν
  result : α
  state : σ

/-- A fiber that waits for nobody, and what it comes to. -/
def Fiber.Prompt (R : α → Prop) (t : Fiber W α) : Prop :=
  ∀ w, ∃ a w', t.advance w = (.done a, w') ∧ R a

theorem Fiber.Prompt.bind {R : β → Prop} {t : Fiber W α} {f : α → Fiber W β}
    (ht : t.Prompt fun a => (f a).Prompt R) : (t >>= f).Prompt R := by
  intro w
  obtain ⟨a, w', ha, hf⟩ := ht w
  obtain ⟨b, w'', hb, hR⟩ := hf w'
  refine ⟨b, w'', ?_, hR⟩
  change (t.bind f).advance w = _
  rw [advance_bind, ha]
  exact hb

namespace Told

/-- What comes of a program that nobody disturbs; nothing, if it has to wait. -/
def alone? : Told σ ν α → σ → Option (Upshot σ ν α)
  | .done a, s => some ⟨[], a, s⟩
  | .act ready effect next, s => if ready s then (next s).alone? (effect s) else none
  | .note n rest, s => (rest.alone? s).map fun u => { u with notes := n :: u.notes }

section Alone

variable {t : Told σ ν α} {f : α → Told σ ν β} {s : σ}

/-- One part runs after the other. -/
theorem alone?_bind (t : Told σ ν α) (f : α → Told σ ν β) (s : σ) :
    (t >>= f).alone? s = (t.alone? s).bind fun u =>
      ((f u.result).alone? u.state).map fun v => { v with notes := u.notes ++ v.notes } := by
  change (t.bind f).alone? s = _
  induction t generalizing s with
  | done a => simp [alone?, bind]
  | act ready effect next ih =>
    simp only [bind, alone?]
    split
    · exact ih s (effect s)
    · rfl
  | note n rest ih =>
    rw [bind, alone?, ih, alone?]
    cases rest.alone? s with
    | none => rfl
    | some u =>
      simp only [Option.bind_some, Option.map_some]
      cases (f u.result).alone? u.state <;> rfl

theorem alone?_bind_eq_some {v : Upshot σ ν β} : (t >>= f).alone? s = some v ↔
    ∃ u v', t.alone? s = some u ∧ (f u.result).alone? u.state = some v' ∧
      v = { v' with notes := u.notes ++ v'.notes } := by
  rw [alone?_bind, Option.bind_eq_some_iff]
  constructor
  · rintro ⟨u, hu, h⟩
    obtain ⟨v', hv', rfl⟩ := Option.map_eq_some_iff.mp h
    exact ⟨u, v', hu, hv', rfl⟩
  · rintro ⟨u, v', hu, hv', rfl⟩
    exact ⟨u, hu, by rw [hv', Option.map_some]⟩

/-- Whatever is kept beside a fiber is left alone by it. -/
theorem alone?_beside (t : Fiber W α) (b : B) (w : W) : (beside t : Told (B × W) ν α).alone? (b, w) =
    (t.advance w).1.result?.map fun a => ⟨[], a, (b, (t.advance w).2)⟩ := by
  induction t generalizing w with
  | done a => rfl
  | act ready effect next ih =>
    simp only [beside, alone?, Fiber.advance]
    split
    · exact ih w (effect w)
    · rfl

end Alone

/-- Programs of which the same comes, from whatever state. -/
def Same (t u : Told σ ν α) : Prop :=
  ∀ s, t.alone? s = u.alone? s

namespace Same

variable {t u v : Told σ ν α}

theorem refl (t : Told σ ν α) : t.Same t := fun _ => rfl

theorem symm (h : t.Same u) : u.Same t := fun s => (h s).symm

theorem trans (h : t.Same u) (h' : u.Same v) : t.Same v := fun s => (h s).trans (h' s)

theorem bind {f g : α → Told σ ν β} (h : t.Same u) (hf : ∀ a, (f a).Same (g a)) :
    (t >>= f).Same (u >>= g) := by
  intro s
  rw [alone?_bind, alone?_bind, h s]
  exact congrArg _ (funext fun w => by rw [hf w.result w.state])

theorem bindExcept {x y : ExceptT ε (Told σ ν) α} {f g : α → ExceptT ε (Told σ ν) β} (h : x.run.Same y.run)
    (hf : ∀ a, (f a).run.Same (g a).run) : (x >>= f).run.Same (y >>= g).run := by
  rw [ExceptT.run_bind, ExceptT.run_bind]
  refine h.bind ?_
  rintro (e | a)
  · exact refl _
  · exact hf a

end Same

/-- It comes to an end from that state, and to such a one. -/
def Comes (t : Told σ ν α) (s : σ) (Q : α → σ → Prop) : Prop :=
  ∃ u, t.alone? s = some u ∧ Q u.result u.state

namespace Comes

variable {t : Told σ ν α} {s : σ} {Q : α → σ → Prop}

theorem mono {Q' : α → σ → Prop} (h : t.Comes s Q) (hQ : ∀ a s', Q a s' → Q' a s') : t.Comes s Q' := by
  obtain ⟨u, hu, hq⟩ := h
  exact ⟨u, hu, hQ _ _ hq⟩

theorem same {u : Told σ ν α} (h : u.Comes s Q) (ht : t.Same u) : t.Comes s Q := by
  obtain ⟨v, hv, hq⟩ := h
  exact ⟨v, (ht s).trans hv, hq⟩

theorem pure {a : α} (h : Q a s) : (Pure.pure a : Told σ ν α).Comes s Q :=
  ⟨_, rfl, h⟩

theorem bind {f : α → Told σ ν β} {Q : β → σ → Prop} (h : t.Comes s fun a s' => (f a).Comes s' Q) :
    (t >>= f).Comes s Q := by
  obtain ⟨u, hu, v, hv, hq⟩ := h
  exact ⟨_, alone?_bind_eq_some.mpr ⟨u, v, hu, hv, rfl⟩, hq⟩

theorem tell {n : ν} {Q : Unit → σ → Prop} (h : Q () s) : (Told.tell n : Told σ ν Unit).Comes s Q :=
  ⟨_, rfl, h⟩

theorem bindExcept {x : ExceptT ε (Told σ ν) α} {f : α → ExceptT ε (Told σ ν) β} {Q : Except ε β → σ → Prop}
    (h : x.run.Comes s fun r s' =>
      match r with
      | .ok a => (f a).run.Comes s' Q
      | .error e => Q (.error e) s') : (x >>= f).run.Comes s Q := by
  rw [ExceptT.run_bind]
  apply bind
  refine h.mono ?_
  rintro (e | a) s' hr
  · exact pure hr
  · exact hr

theorem beside {t : Fiber W α} {R : α → Prop} {b : B} {w : W} {Q : α → B × W → Prop} (ht : t.Prompt R)
    (h : ∀ a w', R a → Q a (b, w')) : (Told.beside t : Told (B × W) ν α).Comes (b, w) Q := by
  obtain ⟨a, w', ha, hR⟩ := ht w
  refine ⟨⟨[], a, (b, w')⟩, ?_, h a w' hR⟩
  rw [alone?_beside, ha]
  rfl

theorem act {f : B → α × B} {b : B} {w : W} {Q : α → B × W → Prop} (h : Q (f b).1 ((f b).2, w)) :
    (Told.kept.act f : Told (B × W) ν α).Comes (b, w) Q :=
  ⟨_, rfl, h⟩

theorem read {f : B → α} {b : B} {w : W} {Q : α → B × W → Prop} (h : Q (f b) (b, w)) :
    (Told.kept.read f : Told (B × W) ν α).Comes (b, w) Q :=
  act h

theorem attempt {f : B → Except ε B} {b : B} {w : W} {Q : Except ε Unit → B × W → Prop}
    (hok : ∀ b', f b = .ok b' → Q (.ok ()) (b', w)) (herror : ∀ e, f b = .error e → Q (.error e) (b, w)) :
    (Told.kept.attempt f : Told (B × W) ν (Except ε Unit)).Comes (b, w) Q := by
  apply act
  cases hf : f b with
  | ok b' => exact hok b' hf
  | error e => exact herror e hf

end Comes

end Told

end EventJournal
