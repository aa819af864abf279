import EventJournal.Handler.Once

/-!
Diaries of handlers that run once per event. A diary has the events that its handler remembers, and what the
inner handler was asked to do so far.
-/
namespace EventJournal

/-- What an inner handler was asked to do, and how it went. -/
inductive Trial where
  /-- It sets about handling an event. -/
  | begun (event : Event)
  | handled (event : Event) (ok : Bool)
  | undone (event : Event) (ok : Bool)

namespace Trial

def event : Trial → Event
  | begun event | handled event _ | undone event _ => event

/-- Whether it is a run on the event with an id. -/
def Runs (id : EventId) : Trial → Prop
  | begun event | handled event _ => event.id = id
  | undone _ _ => False

/-- Whether the event with an id counts as handled after a trial, given whether it did before. -/
def after (id : EventId) (held : Bool) : Trial → Bool
  | handled event true => held || event.id == id
  | undone event _ => held && event.id != id
  | _ => held

/-- Whether the event with an id was handled and not undone since. -/
def held (id : EventId) (trials : List Trial) : Bool :=
  trials.foldl (after id) false

/-- No event is handled again unless it was undone. -/
def Spaced (trials : List Trial) : Prop :=
  ∀ past t later, trials = past ++ t :: later → ∀ id, t.Runs id → held id past = false

variable {id : EventId} {trials : List Trial} {t : Trial}

@[simp] theorem held_concat (id : EventId) (trials : List Trial) (t : Trial) :
    held id (trials ++ [t]) = after id (held id trials) t := by
  rw [held, List.foldl_append]
  rfl

/-- A trial of one event is nothing to the others. -/
theorem after_other {event : Event} (hid : event.id ≠ id) (b : Bool)
    (ht : t = .begun event ∨ (∃ ok, t = .handled event ok) ∨ ∃ ok, t = .undone event ok) :
    after id b t = b := by
  have hne : (event.id == id) = false := beq_false_of_ne hid
  obtain rfl | ⟨ok, rfl⟩ | ⟨ok, rfl⟩ := ht
  · rfl
  · cases ok <;> simp [after, hne]
  · simp [after, hid]

theorem Spaced.nil : Spaced [] := by
  intro past t later h
  simp at h

theorem Spaced.concat (hs : Spaced trials) (ht : ∀ id, t.Runs id → held id trials = false) :
    Spaced (trials ++ [t]) := by
  intro past t' later he
  rcases List.eq_nil_or_concat later with rfl | ⟨rest, last, rfl⟩
  · obtain ⟨rfl, hl⟩ := List.append_inj' he rfl
    cases hl
    exact ht
  · have he' : trials ++ [t] = (past ++ t' :: rest) ++ [last] := by
      rw [he]
      simp
    obtain ⟨rfl, -⟩ := List.append_inj' he' rfl
    exact hs past t' rest rfl

/-- What was handled counts as handled until it is undone. -/
theorem foldl_after_of_not_undone (hn : ∀ event ok, .undone event ok ∈ trials → event.id ≠ id) :
    trials.foldl (after id) true = true := by
  induction trials with
  | nil => rfl
  | cons t rest ih =>
    have ht : after id true t = true := by
      cases t with
      | begun event => rfl
      | handled event ok => cases ok <;> simp [after]
      | undone event ok =>
        have := hn event ok List.mem_cons_self
        simpa [after] using this
    rw [List.foldl_cons, ht]
    exact ih fun event ok hm => hn event ok (List.mem_cons_of_mem t hm)

/-- After a successful run on an event it is undone before the next run on it. -/
theorem Spaced.undone_between (hs : Spaced trials) {past between later : List Trial} {event : Event}
    (he : trials = past ++ .handled event true :: (between ++ t :: later)) (ht : t.Runs event.id) :
    ∃ event' ok, .undone event' ok ∈ between ∧ event'.id = event.id := by
  apply Classical.byContradiction
  intro hno
  have hnone : ∀ event' ok, .undone event' ok ∈ between → event'.id ≠ event.id :=
    fun event' ok hm hid => hno ⟨event', ok, hm, hid⟩
  have hfree : held event.id (past ++ .handled event true :: between) = false := by
    apply hs _ t later _ _ ht
    rw [he]
    simp
  have hheld : held event.id (past ++ [.handled event true]) = true := by
    simp [after]
  rw [show past ++ .handled event true :: between = (past ++ [.handled event true]) ++ between from by simp,
    held, List.foldl_append, ← held, hheld, foldl_after_of_not_undone hnone] at hfree
  cases hfree

end Trial

/-- What a handler that runs once per event remembers, and the runs of its inner handler. -/
structure Diary where
  seen : Seen
  trials : List Trial

namespace Diary

def blank : Diary :=
  ⟨[], []⟩

def note (t : Trial) (d : Diary) : Diary :=
  { d with trials := d.trials ++ [t] }

/-- Whether the event with an id is remembered. -/
def knows (id : EventId) (d : Diary) : Bool :=
  d.seen.contains id

/-- The event with an id is both remembered and held to be handled, or neither. -/
def Stands (id : EventId) (b : Bool) (d : Diary) : Prop :=
  d.knows id = b ∧ Trial.held id d.trials = b

/-- The same as to all events but one. -/
def Agrees (id : EventId) (d d' : Diary) : Prop :=
  ∀ j, j ≠ id → d'.knows j = d.knows j ∧ Trial.held j d'.trials = Trial.held j d.trials

variable {id : EventId} {d d' d'' : Diary} {event : Event}

theorem Agrees.refl (id : EventId) (d : Diary) : Agrees id d d :=
  fun _ _ => ⟨rfl, rfl⟩

theorem Agrees.trans (h : Agrees id d d') (h' : Agrees id d' d'') : Agrees id d d'' :=
  fun j hj => ⟨(h' j hj).1.trans (h j hj).1, (h' j hj).2.trans (h j hj).2⟩

theorem Agrees.stands (h : Agrees id d d') {j : EventId} (hj : j ≠ id) {b : Bool} (hd : d.Stands j b) :
    d'.Stands j b :=
  ⟨(h j hj).1.trans hd.1, (h j hj).2.trans hd.2⟩

@[simp] theorem held_note (id : EventId) (t : Trial) (d : Diary) :
    Trial.held id (d.note t).trials = Trial.after id (Trial.held id d.trials) t :=
  Trial.held_concat id d.trials t

/-- Notes on an event leave the others. -/
theorem agrees_note {t : Trial}
    (ht : t = .begun event ∨ (∃ ok, t = .handled event ok) ∨ ∃ ok, t = .undone event ok) (d : Diary) :
    Agrees event.id d (d.note t) := by
  intro j hj
  refine ⟨rfl, ?_⟩
  rw [held_note]
  exact Trial.after_other hj.symm _ ht

def add (event : Event) (d : Diary) : Diary :=
  { d with seen := d.seen.add event }

def forget (event : Event) (d : Diary) : Diary :=
  { d with seen := d.seen.forget event }

theorem knows_add (event : Event) (d : Diary) : (d.add event).knows event.id = true :=
  Seen.contains_add d.seen event

theorem knows_add_other (hid : id ≠ event.id) (d : Diary) : (d.add event).knows id = d.knows id := by
  simp only [knows, add, Seen.add]
  split
  · rfl
  · simp [hid]

theorem knows_forget (event : Event) (d : Diary) : (d.forget event).knows event.id = false :=
  Seen.not_contains_forget d.seen event

theorem knows_forget_other (hid : id ≠ event.id) (d : Diary) :
    (d.forget event).knows id = d.knows id := by
  simp [knows, forget, Seen.forget, hid]

theorem agrees_add (event : Event) (d : Diary) : Agrees event.id d (d.add event) :=
  fun _ hj => ⟨knows_add_other hj d, rfl⟩

theorem agrees_forget (event : Event) (d : Diary) : Agrees event.id d (d.forget event) :=
  fun _ hj => ⟨knows_forget_other hj d, rfl⟩

section Page

/-- What a diary has on the event with an id: whether it is remembered, and what was tried with it. -/
def page (id : EventId) (d : Diary) : Bool × List Trial :=
  (d.knows id, d.trials.filter (·.event.id == id))

/-- The page of an event that was never tried. -/
def unread : Bool × List Trial :=
  (false, [])

/-- The page of an event that was handled once. -/
def complete (event : Event) : Bool × List Trial :=
  (true, [.begun event, .handled event true])

/-- The event was handled once, or is not through with that. -/
def Tidy (event : Event) (p : Bool × List Trial) : Prop :=
  p.2 <+: (complete event).2 ∧ (p.1 = true → p = complete event)

def Settled (event : Event) (p : Bool × List Trial) : Prop :=
  p = unread ∨ p = complete event

/-- No page was touched but one. -/
def Apart (id : EventId) (d d' : Diary) : Prop :=
  ∀ j, j ≠ id → d'.page j = d.page j

theorem Settled.tidy {p : Bool × List Trial} (h : Settled event p) : Tidy event p := by
  obtain rfl | rfl := h
  · exact ⟨List.nil_prefix, fun hf => by cases hf⟩
  · exact ⟨List.prefix_refl _, fun _ => rfl⟩

theorem page_note (t : Trial) (d : Diary) :
    (d.note t).page t.event.id = ((d.page t.event.id).1, (d.page t.event.id).2 ++ [t]) := by
  simp [page, note, knows]

theorem apart_note (t : Trial) (d : Diary) : Apart t.event.id d (d.note t) := by
  intro j hj
  simp [page, note, knows, Ne.symm hj]

theorem page_add (event : Event) (d : Diary) :
    (d.add event).page event.id = (true, (d.page event.id).2) :=
  congrArg (·, _) (knows_add event d)

theorem apart_add (event : Event) (d : Diary) : Apart event.id d (d.add event) :=
  fun _ hj => congrArg (·, _) (knows_add_other hj d)

theorem apart_forget (event : Event) (d : Diary) : Apart event.id d (d.forget event) :=
  fun _ hj => congrArg (·, _) (knows_forget_other hj d)

end Page

end Diary

variable {m : Type → Type}

/-- What is remembered, as a part of the diary. -/
def Diary.memory (cell : Cell m Diary) : Cell m Seen where
  act f := cell.act fun d =>
    let (a, seen) := f d.seen
    (a, { d with seen })

namespace Handler

variable [Monad m]

/-- Notes what the handler is asked to do. -/
def noted (inner : Handler m) (cell : Cell m Diary) : Handler m where
  accepts := inner.accepts
  handle ctx event := do
    cell.modify (.note (.begun event))
    let result ← inner.handle ctx event
    cell.modify (.note (.handled event result.isOk))
    return result
  rollback ctx event := do
    let result ← inner.rollback ctx event
    cell.modify (.note (.undone event result.isOk))
    return result

/-- Runs once per event, with a diary of its own. -/
def onceNoted (inner : Handler m) (cell : Cell m Diary) : Handler m :=
  (inner.noted cell).once (.inCell (Diary.memory cell))

variable [LawfulMonad m]

/-- It looks up the event, and runs the inner handler only if it is not remembered. -/
theorem handle_onceNoted (inner : Handler m) (cell : Cell m Diary) (ctx : Context) (event : Event) :
    (inner.onceNoted cell).handle ctx event = (do
      let known : Except Failure Bool ← cell.act fun d => (.ok (d.knows event.id), d)
      match known with
      | .error e => return .error e
      | .ok true => return .ok ()
      | .ok false =>
        cell.modify (.note (.begun event))
        let result ← inner.handle ctx event
        cell.modify (.note (.handled event result.isOk))
        match result with
        | .error e => return .error e
        | .ok () => cell.act fun d => (.ok (), d.add event)) := by
  simp only [onceNoted, once, noted, Memory.inCell, ExceptT.run_bind, ExceptT.run_mk, Cell.read,
    Diary.memory]
  refine congrArg (cell.act _ >>= ·) (funext fun known => ?_)
  cases known with
  | error e => rfl
  | ok known =>
    cases known with
    | true => rfl
    | false =>
      simp only [Bool.false_eq_true, if_false, ExceptT.run_bind, ExceptT.run_mk, bind_assoc, pure_bind]
      refine congrArg (cell.modify _ >>= ·) (funext fun _ => ?_)
      refine congrArg (inner.handle ctx event >>= ·) (funext fun result => ?_)
      refine congrArg (cell.modify _ >>= ·) (funext fun _ => ?_)
      cases result with
      | error e => rfl
      | ok u => rfl

omit [LawfulMonad m] in
/-- It forgets the event before the inner handler undoes it. -/
theorem rollback_onceNoted (inner : Handler m) (cell : Cell m Diary) (ctx : Context) (event : Event) :
    (inner.onceNoted cell).rollback ctx event = do
      let forgotten : Except Failure Unit ← cell.act fun d => (.ok (), d.forget event)
      match forgotten with
      | .error e => return .error e
      | .ok () =>
        let result ← inner.rollback ctx event
        cell.modify (.note (.undone event result.isOk))
        return result := by
  simp only [onceNoted, once, noted, Memory.inCell, ExceptT.run_bind, ExceptT.run_mk, Diary.memory]
  refine congrArg (cell.act _ >>= ·) (funext fun forgotten => ?_)
  cases forgotten with
  | error e => rfl
  | ok u => rfl

end Handler

end EventJournal
