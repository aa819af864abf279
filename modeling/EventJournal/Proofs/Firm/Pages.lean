import EventJournal.Proofs.Firm.Office
import EventJournal.Proofs.Handler.Abiding

/-!
What a dispatch leaves behind in the memory of handlers that run once per event. The diary of such a handler is its
memory together with the row of its trials, and the page of an event is the part of it that is about that event. While
nobody else writes on them, a dispatch to the handlers of the topic finds each page of its event unread or complete and
leaves it so; those of the handlers that take the event are complete then. No dispatch writes on the pages of other
events.
-/
namespace EventJournal

variable {H Y α β : Type}

/-- What each handler has on one event in its diary. -/
abbrev Pages (H : Type) :=
  H → Bool × List Trial

/-- Who writes on one page of a diary writes on no other, and in no other diary. -/
theorem Diaries.apart_update [DecidableEq H] {ds : Diaries H} {id : EventId} {k : H} {d : Diary}
    (hd : Diary.Apart id (ds k) d) (j : H) : Diary.Apart id (ds j) (Function.update ds k d j) := by
  by_cases hj : j = k
  · rw [hj, Function.update_self]
    exact hd
  · rw [Function.update_of_ne hj]
    exact fun _ _ => rfl

namespace Fiber

/-- What a program makes of the pages of an event. It writes on no others, and a page that is complete stays
so. -/
def Writes (ks : List H) (event : Event) (post : α → Pages H → Prop) :
    Fiber (Office H Y) α → Pages H → Prop
  | .done a, v => post a v
  | .act ready effect next, v => ∀ w : Office H Y, (∀ k ∈ ks, (w.diaries k).page event.id = v k) →
      ready w = true → (∀ k, Diary.Apart event.id (w.diaries k) ((effect w).diaries k)) ∧
      ∃ v', (∀ k ∈ ks, ((effect w).diaries k).page event.id = v' k) ∧
        (∀ k ∈ ks, v' k = v k ∨ v k ≠ Diary.complete event ∧ Diary.Tidy event (v' k)) ∧
        Writes ks event post (next w) v'

variable {ks : List H} {event : Event} {v : Pages H}

theorem Writes.bind {post : β → Pages H → Prop} {t : Fiber (Office H Y) α} {f : α → Fiber (Office H Y) β}
    (ht : t.Writes ks event (fun a => (f a).Writes ks event post) v) :
    (t >>= f).Writes ks event post v := by
  change (t.bind f).Writes ks event post v
  induction t generalizing v with
  | done a => exact ht
  | act ready effect next ih =>
    intro w hw hr
    obtain ⟨hapart, v', hv', hstep, hn⟩ := ht w hw hr
    exact ⟨hapart, v', hv', hstep, ih w hn⟩

theorem Writes.mono {post post' : α → Pages H → Prop} {t : Fiber (Office H Y) α}
    (ht : t.Writes ks event post v) (hp : ∀ a v, post a v → post' a v) : t.Writes ks event post' v := by
  induction t generalizing v with
  | done a => exact hp a v ht
  | act ready effect next ih =>
    intro w hw hr
    obtain ⟨hapart, v', hv', hstep, hn⟩ := ht w hw hr
    exact ⟨hapart, v', hv', hstep, ih w hn⟩

/-- Who leaves the diaries alone writes nothing. -/
theorem writes_discreet {post : α → Pages H → Prop} {R : α → Prop} {t : Fiber (Office H Y) α}
    (ht : t.Abides (fun _ => True) fun w w' => w'.diaries = w.diaries) (hy : t.Yields R)
    (hp : ∀ a, R a → post a v) : t.Writes ks event post v := by
  induction t with
  | done a => exact hp a hy
  | act ready effect next ih =>
    intro w hw hr
    obtain ⟨he, hn⟩ := ht w trivial hr
    rw [he]
    exact ⟨fun _ _ _ => rfl, v, hw, fun _ _ => .inl rfl, ih w hn (hy w)⟩

variable [DecidableEq H]

/-- Writing in the diary of one handler. -/
theorem writes_diary {post : α → Pages H → Prop} {k : H} (hk : k ∈ ks) {f : Diary → α × Diary}
    (hapart : ∀ d, Diary.Apart event.id d (f d).2)
    (hf : ∀ d : Diary, d.page event.id = v k → ∃ q, (f d).2.page event.id = q ∧
      (q = v k ∨ v k ≠ Diary.complete event ∧ Diary.Tidy event q) ∧
        post (f d).1 (Function.update v k q)) :
    ((Office.diary k : Cell (Fiber (Office H Y)) Diary).act f).Writes ks event post v := by
  intro w hw _
  obtain ⟨q, hq, hstep, hp⟩ := hf (w.diaries k) (hw k hk)
  refine ⟨Diaries.apart_update (hapart _), Function.update v k q, ?_, ?_, hp⟩
  · intro j hjs
    change (Function.update w.diaries k (f (w.diaries k)).2 j).page event.id = _
    by_cases hj : j = k
    · rw [hj, Function.update_self, Function.update_self]
      exact hq
    · rw [Function.update_of_ne hj, Function.update_of_ne hj]
      exact hw j hjs
  · intro j _
    by_cases hj : j = k
    · rw [hj, Function.update_self]
      exact hstep
    · rw [Function.update_of_ne hj]
      exact .inl rfl

/-- One more trial of the event, which is not handled yet. -/
theorem writes_note {post : Unit → Pages H → Prop} {k : H} (hk : k ∈ ks) {t : Trial} (ht : t.event = event)
    (hopen : v k ≠ Diary.complete event) (htidy : Diary.Tidy event ((v k).1, (v k).2 ++ [t]))
    (hp : post () (Function.update v k ((v k).1, (v k).2 ++ [t]))) :
    ((Office.diary k : Cell (Fiber (Office H Y)) Diary).modify (.note t)).Writes ks event post v := by
  subst ht
  apply writes_diary hk (fun d => Diary.apart_note t d)
  intro d hd
  refine ⟨_, ?_, .inr ⟨hopen, htidy⟩, hp⟩
  change (d.note t).page t.event.id = _
  rw [Diary.page_note, hd]

end Fiber

open EventJournal.Fiber

section Handle

variable [DecidableEq H] {ks : List H} {event : Event} {v : Pages H} {inner : Handler (Fiber (Office H Y))}
  {ctx : Context} {k : H}

/-- A handler whose page is unread or complete leaves it complete, if it does not fail. -/
theorem writes_handle (hk : k ∈ ks)
    (hquiet : (inner.handle ctx event).Abides (fun _ => True) fun w w' => w'.diaries = w.diaries)
    (hok : (inner.handle ctx event).Yields (· = .ok ())) (hv : Diary.Settled event (v k)) :
    ((inner.onceNoted (Office.diary k)).handle ctx event).Writes ks event
      (fun r v' => r = .ok () ∧ v' = Function.update v k (Diary.complete event)) v := by
  rw [Handler.handle_onceNoted]
  apply Writes.bind
  apply writes_diary hk (fun _ _ _ => rfl)
  intro d hd
  refine ⟨v k, hd, .inl rfl, ?_⟩
  rw [Function.update_eq_self]
  have hknows : d.knows event.id = (v k).1 := congrArg Prod.fst hd
  rw [hknows]
  rcases hv with hv | hv
  · have hopen : ∀ ts, ((false, ts) : Bool × List Trial) ≠ Diary.complete event := fun ts h => by cases h
    have hbegun : Diary.Tidy event (false, [.begun event]) :=
      ⟨⟨[.handled event true], rfl⟩, fun h => by cases h⟩
    have hhandled : Diary.Tidy event (false, [.begun event, .handled event true]) :=
      ⟨List.prefix_refl _, fun h => by cases h⟩
    rw [hv]
    apply Writes.bind
    apply writes_note (t := .begun event) hk rfl <;> rw [hv]
    · exact hopen _
    · exact hbegun
    apply Writes.bind
    apply writes_discreet hquiet hok
    rintro _ rfl
    apply Writes.bind
    apply writes_note (t := .handled event true) hk rfl <;> rw [Function.update_self]
    · exact hopen _
    · exact hhandled
    rw [Function.update_idem]
    apply writes_diary hk (Diary.apart_add event)
    intro d₁ hd₁
    rw [Function.update_self] at hd₁ ⊢
    refine ⟨Diary.complete event, ?_, .inr ⟨hopen _, Diary.Settled.tidy (.inr rfl)⟩, rfl, ?_⟩
    · rw [Diary.page_add, hd₁]
      rfl
    · exact Function.update_idem ..
  · rw [hv]
    refine ⟨rfl, ?_⟩
    rw [← hv, Function.update_eq_self]

end Handle

namespace Firm

variable [DecidableEq H] {firm : Firm H Y} {config : BusConfig} {seed : UInt32} (hf : firm.Sound config seed)
  {event : Event} {ctx : Context} {v : Pages H}

omit hf in
theorem accepts_handler (k : H) : (firm.wiring.handler k).accepts = (firm.inner k).accepts := by
  simp only [Firm.wiring]
  split <;> rfl

include hf

/-- The handlers of the topic run one after the other, and none of them fails. -/
theorem Sound.writes_run {ps : List (Nat × H)} {ran : List (Nat × Handler (Fiber (Office H Y)))}
    (hps : ∀ p ∈ ps, p.2 ∈ firm.handlers) (hv : ∀ k ∈ firm.handlers, Diary.Settled event (v k)) :
    (Dispatch.run firm.observe ctx event ran (ps.map fun p => (p.1, firm.wiring.handler p.2))).Writes
      firm.handlers event (fun _ v' =>
        (∀ k ∈ firm.handlers, Diary.Settled event (v' k) ∧
          (v k = Diary.complete event → v' k = Diary.complete event)) ∧
        ∀ p ∈ ps, v' p.2 = Diary.complete event) v := by
  induction ps generalizing v ran with
  | nil => exact ⟨fun k hk => ⟨hv k hk, fun h => h⟩, fun _ hp => by cases hp⟩
  | cons p rest ih =>
    obtain ⟨n, k⟩ := p
    have hk : k ∈ firm.handlers := hps (n, k) List.mem_cons_self
    have hhandler : firm.wiring.handler k = (firm.inner k).onceNoted (Office.diary k) := if_pos hk
    simp only [List.map_cons, Dispatch.run, hhandler]
    refine Writes.bind ((writes_handle hk ((hf.discreet k).handle ctx event) (hf.succeeds k hk ctx event)
      (hv k hk)).mono ?_)
    rintro _ _ ⟨rfl, rfl⟩
    have hsettled : ∀ j ∈ firm.handlers,
        Diary.Settled event (Function.update v k (Diary.complete event) j) := by
      intro j hj
      by_cases he : j = k
      · rw [he, Function.update_self]
        exact .inr rfl
      · rw [Function.update_of_ne he]
        exact hv j hj
    refine (ih (fun q hq => hps q (List.mem_cons_of_mem _ hq)) hsettled).mono ?_
    rintro _ v' ⟨hall, hrest⟩
    constructor
    · intro j hj
      refine ⟨(hall j hj).1, fun hc => (hall j hj).2 ?_⟩
      by_cases he : j = k
      · rw [he, Function.update_self]
      · rwa [Function.update_of_ne he]
    · intro q hq
      rcases List.mem_cons.mp hq with rfl | hq
      · exact (hall k hk).2 (Function.update_self ..)
      · exact hrest q hq

/-- After a dispatch to the handlers of the topic the event is handled by those that take it. -/
theorem Sound.writes_dispatch (hv : ∀ k ∈ firm.handlers, Diary.Settled event (v k)) :
    (dispatch (firm.handlers.map firm.wiring.handler) firm.observe ctx event).Writes firm.handlers event
      (fun _ v' => ∀ k ∈ firm.handlers, Diary.Settled event (v' k) ∧
        ((firm.inner k).accepts event = true → v' k = Diary.complete event)) v := by
  rw [dispatch, Dispatch.matching_map]
  refine (hf.writes_run ?_ hv).mono ?_
  · exact fun p hp => (Dispatch.mem_takers.mp (List.mem_map_of_mem hp)).1
  · rintro _ v' ⟨hall, hdone⟩ k hk
    refine ⟨(hall k hk).1, fun ha => ?_⟩
    rw [← accepts_handler] at ha
    have hmem : k ∈ (Dispatch.takers (fun j => (firm.wiring.handler j).accepts event) firm.handlers).map
        Prod.snd := Dispatch.mem_takers.mpr ⟨hk, ha⟩
    obtain ⟨p, hp, rfl⟩ := List.mem_map.mp hmem
    exact hdone p hp

/-- Whoever handles an event writes of no other. -/
theorem Sound.abides_dispatch (ks : List H) :
    (dispatch (ks.map firm.wiring.handler) firm.observe ctx event).Abides (fun _ => True)
      fun w w' : Office H Y => ∀ k, Diary.Apart event.id (w.diaries k) (w'.diaries k) := by
  have hquiet : ∀ {α : Type} {t : Fiber (Office H Y) α},
      t.Abides (fun _ => True) (fun w w' : Office H Y => w'.diaries = w.diaries) →
      t.Abides (fun _ => True) fun w w' : Office H Y => ∀ k, Diary.Apart event.id (w.diaries k) (w'.diaries k) := by
    intro α t ht
    refine ht.mono (fun _ h => h) ?_
    intro w w' _ he k
    rw [he]
    exact fun _ _ => rfl
  have hdiary : ∀ (k : H) {γ : Type} (f : Diary → γ × Diary), (∀ d, Diary.Apart event.id d (f d).2) →
      ((Office.diary k).act f).Abides (fun _ => True)
        fun w w' : Office H Y => ∀ k, Diary.Apart event.id (w.diaries k) (w'.diaries k) := by
    intro k γ f hapart
    exact abides_perform fun w _ => Diaries.apart_update (hapart (w.diaries k))
  refine EventJournal.abides_dispatch (fun e => hquiet (hf.observe_discreet e)) ?_
  intro h hh
  obtain ⟨k, -, rfl⟩ := List.mem_map.mp hh
  have hk := hf.discreet k
  simp only [Firm.wiring]
  split
  · exact ⟨abides_handle_onceNoted (hdiary k) (hquiet (hk.handle ctx event)),
      abides_rollback_onceNoted (hdiary k) (hquiet (hk.rollback ctx event))⟩
  · exact ⟨hquiet (hk.handle ctx event), hquiet (hk.rollback ctx event)⟩

end Firm

end EventJournal
