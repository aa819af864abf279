import EventJournal.Dispatch
import EventJournal.Fiber
import EventJournal.Proofs.Handler.Diary

/-!
Programs all of whose acts abide by a rule, as far as they begin in states with some property. Dispatching
abides by what the handlers and the observer abide by, and a handler that runs once per event by what its
inner handler does, if writing in the diary does.
-/
namespace EventJournal

variable {σ α β : Type} {P P' : σ → Prop} {R R' : σ → σ → Prop}

namespace Fiber

def Abides (P : σ → Prop) (R : σ → σ → Prop) : Fiber σ α → Prop
  | .done _ => True
  | .act ready effect next => ∀ s, P s → ready s = true → R s (effect s) ∧ (next s).Abides P R

theorem abides_pure (a : α) : (pure a : Fiber σ α).Abides P R :=
  trivial

theorem Abides.bind {t : Fiber σ α} {f : α → Fiber σ β} (ht : t.Abides P R)
    (hf : ∀ a, (f a).Abides P R) : (t >>= f).Abides P R := by
  change (t.bind f).Abides P R
  induction t with
  | done a => exact hf a
  | act ready effect next ih =>
    intro s hs hr
    obtain ⟨he, hn⟩ := ht s hs hr
    exact ⟨he, ih s hn⟩

theorem abides_await {ready : σ → Bool} {f : σ → α × σ}
    (hf : ∀ s, P s → ready s = true → R s (f s).2) : (await ready f).Abides P R :=
  fun s hs hr => ⟨hf s hs hr, trivial⟩

theorem abides_perform {f : σ → α × σ} (hf : ∀ s, P s → R s (f s).2) : (perform f).Abides P R :=
  abides_await fun s hs _ => hf s hs

theorem Abides.mono {t : Fiber σ α} (ht : t.Abides P R) (hP : ∀ s, P' s → P s)
    (hR : ∀ s s', P' s → R s s' → R' s s') : t.Abides P' R' := by
  induction t with
  | done a => trivial
  | act ready effect next ih =>
    intro s hs hr
    obtain ⟨he, hn⟩ := ht s (hP s hs) hr
    exact ⟨hR s _ hs he, ih s hn⟩

end Fiber

open EventJournal.Fiber

structure Handler.Abides (P : σ → Prop) (R : σ → σ → Prop) (h : Handler (Fiber σ)) : Prop where
  handle : ∀ ctx event, (h.handle ctx event).Abides P R
  rollback : ∀ ctx event, (h.rollback ctx event).Abides P R

section Dispatch

variable {observe : Observer (Fiber σ)} (ho : ∀ e, (observe e).Abides P R) {ctx : Context} {event : Event}
include ho

theorem abides_undo {ran : List (Nat × Handler (Fiber σ))}
    (hr : ∀ p ∈ ran, (p.2.rollback ctx event).Abides P R) :
    (Dispatch.undo observe ctx event ran).Abides P R := by
  induction ran with
  | nil => exact abides_pure ()
  | cons p rest ih =>
    have hrest := ih fun q hq => hr q (List.mem_cons_of_mem _ hq)
    refine (hr p List.mem_cons_self).bind ?_
    intro result
    cases result with
    | ok u => exact (abides_pure ()).bind fun _ => hrest
    | error source => exact (ho _).bind fun _ => hrest

theorem abides_run {ran handlers : List (Nat × Handler (Fiber σ))}
    (hr : ∀ p ∈ ran, (p.2.rollback ctx event).Abides P R)
    (hh : ∀ p ∈ handlers, (p.2.handle ctx event).Abides P R ∧ (p.2.rollback ctx event).Abides P R) :
    (Dispatch.run observe ctx event ran handlers).Abides P R := by
  induction handlers generalizing ran with
  | nil => exact abides_pure ()
  | cons p rest ih =>
    obtain ⟨hhandle, hrollback⟩ := hh p List.mem_cons_self
    have hran : ∀ q ∈ p :: ran, (q.2.rollback ctx event).Abides P R := by
      intro q hq
      rcases List.mem_cons.mp hq with rfl | hq
      · exact hrollback
      · exact hr q hq
    refine hhandle.bind ?_
    intro result
    cases result with
    | ok u => exact ih hran fun q hq => hh q (List.mem_cons_of_mem _ hq)
    | error source => exact (ho _).bind fun _ => abides_undo ho hran

theorem abides_dispatch {handlers : List (Handler (Fiber σ))}
    (hh : ∀ h ∈ handlers, (h.handle ctx event).Abides P R ∧ (h.rollback ctx event).Abides P R) :
    (dispatch handlers observe ctx event).Abides P R := by
  refine abides_run ho (by simp) ?_
  intro p hp
  obtain ⟨⟨h, i⟩, hq, rfl⟩ := List.mem_map.mp (List.mem_filter.mp hp).1
  exact hh h (List.fst_mem_of_mem_zipIdx hq)

end Dispatch

section Once

variable {inner : Handler (Fiber σ)} {cell : Cell (Fiber σ) Diary} {ctx : Context} {event : Event}
  (hc : ∀ {γ : Type} (f : Diary → γ × Diary), (∀ d, Diary.Apart event.id d (f d).2) →
    (cell.act f).Abides P R)
include hc

theorem abides_note {t : Trial} (ht : t.event = event) : (cell.modify (.note t)).Abides P R :=
  hc (fun d => ((), d.note t)) fun d => ht ▸ Diary.apart_note t d

theorem abides_handle_onceNoted (hi : (inner.handle ctx event).Abides P R) :
    ((inner.onceNoted cell).handle ctx event).Abides P R := by
  rw [Handler.handle_onceNoted]
  refine (hc _ fun _ _ _ => rfl).bind ?_
  intro known
  cases known with
  | error e => exact abides_pure _
  | ok known =>
    cases known with
    | true => exact abides_pure _
    | false =>
      refine (abides_note hc rfl).bind fun _ => hi.bind fun result => ?_
      refine (abides_note hc rfl).bind fun _ => ?_
      cases result with
      | error e => exact abides_pure _
      | ok u => exact hc _ (Diary.apart_add event)

theorem abides_rollback_onceNoted (hi : (inner.rollback ctx event).Abides P R) :
    ((inner.onceNoted cell).rollback ctx event).Abides P R := by
  rw [Handler.rollback_onceNoted]
  refine (hc _ (Diary.apart_forget event)).bind ?_
  intro forgotten
  cases forgotten with
  | error e => exact abides_pure _
  | ok u =>
    refine hi.bind fun result => ?_
    exact (abides_note hc rfl).bind fun _ => abides_pure _

end Once

end EventJournal
