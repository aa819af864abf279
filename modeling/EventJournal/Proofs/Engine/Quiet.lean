import EventJournal.Engine
import EventJournal.Proofs.Crowd.Keeper
import EventJournal.Proofs.Engine.Revision
import EventJournal.Proofs.Stream.Folding

/-!
Quiet programs leave alone what a keeper keeps. Controllers are quiet: they work on a stream of their own, and draw
stamps or ask for the time.
-/
namespace EventJournal

variable {B W S κ α β ε : Type}

namespace Keeper

variable {keeper : Keeper B W κ} {b : B}

/-- A program that touches nothing that is kept, whatever it finds beside it. -/
def Quiet (keeper : Keeper B W κ) (R : α → Prop) (t : Keeping B W α) : Prop :=
  ∀ b (post : α → B → Prop), keeper.inv b → (∀ a, R a → post a b) → keeper.Makes post t b

theorem quiet_pure {R : α → Prop} {a : α} (ha : R a) : keeper.Quiet R (pure a) :=
  fun _ _ _ hp => makes_pure (hp a ha)

theorem Quiet.bind {R : α → Prop} {R' : β → Prop} {t : Keeping B W α} {f : α → Keeping B W β}
    (ht : keeper.Quiet R t) (hf : ∀ a, R a → keeper.Quiet R' (f a)) : keeper.Quiet R' (t >>= f) :=
  fun b post hi hp => Makes.bind (ht b _ hi fun a ha => hf a ha b post hi hp)

theorem quiet_beside {R : α → Prop} {t : Fiber W α} (ht : t.Yields R) : keeper.Quiet R (Told.beside t) := by
  intro b post hi hp w h
  induction t generalizing w h with
  | done a => exact hp a ht
  | act ready effect next ih =>
    refine fun _ => ⟨hi, ?_⟩
    rintro ⟨b', w'⟩ h' _ _ hr _
    cases hr rfl
    exact ⟨fun _ _ _ => rfl, ih w' (ht w') (effect w') _⟩

/-- Whatever comes of it is passed on. -/
theorem Quiet.any {R : α → Prop} {t : Keeping B W α} (ht : keeper.Quiet R t) {post : α → B → Prop}
    (hi : keeper.inv b) (hp : ∀ a, R a → post a b) : keeper.Makes post t b :=
  ht b post hi hp

theorem Makes.bindExcept {post : Except ε β → B → Prop} {x : ExceptT ε (Keeping B W) α}
    {f : α → ExceptT ε (Keeping B W) β}
    (hx : keeper.Makes (fun r b =>
      match r with
      | .ok a => keeper.Makes post (f a).run b
      | .error e => post (.error e) b) x.run b) : keeper.Makes post (x >>= f).run b := by
  rw [ExceptT.run_bind]
  apply Makes.bind
  refine hx.mono ?_
  rintro (e | a) b' hr
  · exact makes_pure hr
  · exact hr

theorem Quiet.bindExcept {R : Except ε α → Prop} {post : Except ε β → B → Prop} {x : ExceptT ε (Keeping B W) α}
    {f : α → ExceptT ε (Keeping B W) β} (hx : keeper.Quiet R x.run) (hi : keeper.inv b)
    (hok : ∀ a, R (.ok a) → keeper.Makes post (f a).run b) (herror : ∀ e, R (.error e) → post (.error e) b) :
    keeper.Makes post (x >>= f).run b := by
  apply Makes.bindExcept
  refine hx.any hi ?_
  rintro (e | a) hr
  · exact herror e hr
  · exact hok a hr

/-- What a controller may end with, and the stream it leaves then. -/
def Works (keeper : Keeper B W κ) (post : Except DomainError α → Stream S → Prop)
    (work : Revision (Keeping B W) S α) (s : Stream S) : Prop :=
  keeper.Quiet (fun r => post r.1 r.2) (work.run.run s)

section Works

variable {post : Except DomainError α → Stream S → Prop} {s : Stream S}

theorem Works.mono {post' : Except DomainError α → Stream S → Prop} {work : Revision (Keeping B W) S α}
    (hw : keeper.Works post work s) (hp : ∀ r t, post r t → post' r t) : keeper.Works post' work s :=
  fun b _ hi hpost => hw b _ hi fun r hr => hpost r (hp r.1 r.2 hr)

theorem works_pure {a : α} (hp : post (.ok a) s) : keeper.Works post (pure a) s :=
  quiet_pure hp

theorem works_throw {e : DomainError} (hp : post (.error e) s) : keeper.Works post (throw e) s :=
  quiet_pure hp

theorem Works.bind {post : Except DomainError β → Stream S → Prop} {work : Revision (Keeping B W) S α}
    {f : α → Revision (Keeping B W) S β}
    (hw : keeper.Works (fun r t =>
      match r with
      | .ok a => keeper.Works post (f a) t
      | .error e => post (.error e) t) work s) : keeper.Works post (work >>= f) s := by
  refine Quiet.bind hw ?_
  rintro ⟨e | a, t⟩ hr
  · exact quiet_pure hr
  · exact hr

theorem works_get {post : Except DomainError (Stream S) → Stream S → Prop} (hp : post (.ok s) s) :
    keeper.Works post get s :=
  quiet_pure hp

theorem works_ofPayload {x : Except PayloadError α} (hok : ∀ a, x = .ok a → post (.ok a) s)
    (herror : ∀ e, x = .error e → post (.error (.payload e)) s) : keeper.Works post (.ofPayload x) s := by
  cases x with
  | ok a => exact quiet_pure (hok a rfl)
  | error e => exact quiet_pure (herror e rfl)

/-- Of what is asked beside it nothing is known. -/
theorem works_beside {t : Fiber W α} (hp : ∀ a, post (.ok a) s) : keeper.Works post (.lift (Told.beside t)) s :=
  Quiet.bind (Quiet.bind (quiet_beside t.yields_true) fun a _ => quiet_pure (a := (a, s)) (R := fun r => r.2 = s) rfl)
    fun _ hr => quiet_pure (hr ▸ hp _)

/-- An event is appended, unless the state refuses it. -/
theorem works_emit [Ambient (Fiber W)] [State S] {name : String} {payload : Json}
    {post : Except DomainError Event → Stream S → Prop}
    (hok : ∀ stamp t, s.Takes (s.nextEvent stamp name payload) t → post (.ok (s.nextEvent stamp name payload)) t)
    (herror : ∀ stamp e t, State.take s.state (s.nextEvent stamp name payload) = .error e →
      post (.error (.payload e)) t) :
    keeper.Works post (.emit name (.ok payload)) s := by
  apply Works.bind
  apply works_beside
  intro stamp
  apply Works.bind
  apply works_beside
  intro takenAt
  change keeper.Quiet _ (StateT.run (ExceptT.run (ExceptT.mk _)) s)
  rw [ExceptT.run_mk]
  cases ha : Stream.append ⟨stamp, takenAt⟩ name (.ok payload) s with
  | ok event t =>
    obtain ⟨rfl, ht⟩ := Stream.takes_of_append ha
    simp only [StateT.run, ha]
    exact quiet_pure (hok stamp t ht)
  | error e t =>
    simp only [StateT.run, ha]
    exact quiet_pure (herror stamp e t (Stream.take_eq_error_of_append ha))

end Works

section Engine

variable {b : B} {post : Except EngineError (α × Stream S) → B → Prop}

theorem Works.control {R : Except DomainError α → Stream S → Prop} {work : Revision (Keeping B W) S α} {s : Stream S}
    (hw : keeper.Works R work s) (hi : keeper.inv b) (hok : ∀ a t, R (.ok a) t → post (.ok (a, t)) b)
    (herror : ∀ e t, R (.error e) t → post (.error (.rejected e)) b) :
    keeper.Makes post (Engine.control work s : ExceptT EngineError (Keeping B W) (α × Stream S)).run b := by
  apply Makes.bind
  refine hw.any hi ?_
  rintro ⟨e | a, t⟩ hr
  · exact makes_pure (herror e t hr)
  · exact makes_pure (hok a t hr)

end Engine

end Keeper

end EventJournal
