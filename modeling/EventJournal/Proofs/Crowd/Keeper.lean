import EventJournal.Proofs.Crowd.Accord

/-!
Jobs with a state of their own. A keeper goes from round to round and works on a state that nobody else touches, while
everything beside it may change between any two acts. `Keeper.Makes` is the postcondition of a program of a keeper, and
what holds between two rounds holds after any number of them.
-/
namespace EventJournal

variable {B W κ α β : Type}

/-- What works on what a keeper keeps, and on whatever there is beside it. -/
abbrev Keeping (B W α : Type) :=
  Told (B × W) Empty α

structure Keeper (B W κ : Type) where
  /-- The next round, if there is one. -/
  again : κ → Option (Keeping B W κ)
  /-- What is to hold before every act. -/
  inv : B → Prop
  /-- What is to hold between two rounds. -/
  rest : κ → B → Prop

namespace Keeper

/-- One job goes from round to round; from outside everything may change but what it keeps. -/
def rules (again : κ → Option (Keeping B W κ)) : Rules (B × W) Empty κ (W → W) where
  call _ := none
  again := again
  watch _ _ := []
  outside f s := (s.1, f s.2)

/-- A keeper before its first round. -/
def start (b : B) (w : W) (a : κ) : Crowd (B × W) Empty κ :=
  .gather (b, w) [.done a]

def accord (keeper : Keeper B W κ) : Accord (B × W) Empty κ (W → W) where
  toRules := rules keeper.again
  known _ _ := True
  inv s _ := keeper.inv s.1
  rely i s _ s' _ := i = 0 → s'.1 = s.1
  ended i a s _ := i = 0 ∧ keeper.inv s.1 ∧ keeper.rest a s.1

/-- What a program makes of what is kept, whatever happens beside it. -/
def Makes (keeper : Keeper B W κ) (post : α → B → Prop) (t : Keeping B W α) (b : B) : Prop :=
  ∀ w h, keeper.accord.Safe 0 (fun a s _ => post a s.1) t (b, w) h

variable {keeper : Keeper B W κ} {post : α → B → Prop} {b : B}

theorem makes_pure {a : α} (hp : post a b) : keeper.Makes post (pure a) b :=
  fun _ _ => hp

theorem Makes.bind {post : β → B → Prop} {t : Keeping B W α} {f : α → Keeping B W β}
    (ht : keeper.Makes (fun a => keeper.Makes post (f a)) t b) : keeper.Makes post (t >>= f) b := by
  intro w h
  refine Accord.Safe.bind ((ht w h).mono ?_)
  exact fun a s h ha => ha s.2 h

theorem Makes.mono {post' : α → B → Prop} {t : Keeping B W α} (ht : keeper.Makes post t b)
    (hp : ∀ a b, post a b → post' a b) : keeper.Makes post' t b :=
  fun w h => (ht w h).mono fun a s _ => hp a s.1

/-- Of what happens beside it nothing is known. -/
theorem makes_beside {t : Fiber W α} (hi : keeper.inv b) (hp : ∀ a, post a b) :
    keeper.Makes post (Told.beside t) b := by
  intro w h
  induction t generalizing w h with
  | done a => exact hp a
  | act ready effect next ih =>
    refine fun _ => ⟨hi, ?_⟩
    rintro ⟨b', w'⟩ h' _ _ hr _
    cases hr rfl
    exact ⟨fun _ _ _ => rfl, ih w' (effect w') _⟩

theorem makes_act {f : B → α × B} (hi : keeper.inv b) (hp : post (f b).1 (f b).2) :
    keeper.Makes post (Told.kept.act f) b := by
  intro w h
  refine fun _ => ⟨hi, ?_⟩
  rintro ⟨b', w'⟩ h' _ _ hr _
  cases hr rfl
  exact ⟨fun j hj h0 => absurd h0 hj, hp⟩

theorem makes_modify {f : B → B} {post : Unit → B → Prop} (hi : keeper.inv b) (hp : post () (f b)) :
    keeper.Makes post (Told.kept.modify f) b :=
  makes_act hi hp

/-- Every round that begins at rest comes to rest again. -/
def Steady (keeper : Keeper B W κ) : Prop :=
  ∀ a t, keeper.again a = some t → ∀ b, keeper.inv b → keeper.rest a b →
    keeper.Makes (fun a b => keeper.inv b ∧ keeper.rest a b) t b

theorem Steady.lawful (hk : keeper.Steady) : keeper.accord.Lawful where
  refl _ _ _ _ := rfl
  trans _ _ _ _ _ _ _ h h' h0 := (h' h0).trans (h h0)
  note _ _ _ _ _ _ _ := rfl
  stable _ _ _ _ _ _ he hr := ⟨he.1, hr he.1 ▸ he.2⟩
  outside _ _ _ hi := ⟨hi, fun _ _ => rfl⟩
  call _ _ _ _ _ _ hc := by cases hc
  again a t ha i s h _ hi he := by
    obtain ⟨rfl, -, hr⟩ := he
    exact (hk a t ha s.1 hi hr s.2 h).mono fun a s h hs => ⟨fun _ => hs.1, rfl, hs⟩

/-- However a keeper's acts fall between what happens beside it, the invariant holds at all times, and between two
rounds there is rest. -/
theorem Steady.run (hk : keeper.Steady) {a : κ} (hi : keeper.inv b) (hr : keeper.rest a b) (w : W)
    (moves : List (Move (W → W))) :
    let c := (start b w a).run (rules keeper.again) moves
    keeper.inv c.state.1 ∧ ∀ a', c.jobs[0]? = some (.done a') → keeper.rest a' c.state.1 := by
  intro c
  have hstart : keeper.accord.Holds (start b w a) := by
    refine Accord.Holds.gather hk.lawful hi (fun _ => trivial) ?_
    intro i t ht h _ _ _
    obtain ⟨rfl, rfl⟩ : i = 0 ∧ t = .done a := by
      cases i with
      | zero => exact ⟨rfl, (Option.some.inj ht).symm⟩
      | succ i => cases ht
    exact ⟨fun _ => hi, rfl, hi, hr⟩
  have hc : keeper.accord.Holds c := hstart.run hk.lawful moves fun _ => trivial
  constructor
  · exact hc.inv
  · intro a' ha'
    exact (hc.ended hk.lawful trivial ha').2.2

end Keeper

end EventJournal
