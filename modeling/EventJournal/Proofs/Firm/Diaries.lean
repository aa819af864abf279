import EventJournal.Proofs.Bus.Orderly
import EventJournal.Proofs.Firm.Hospitality
import EventJournal.Proofs.Firm.Pages

/-!
The invariant on the memory of a firm's handlers (`Firm.Kept`), and the accord of the jobs on the bus that keep it
(`Firm.accord`). An event is dispatched by one job at a time, and nobody else writes on its pages then; so the pages of
an event are unread until its dispatch begins, tidy while it goes on, and settled after that. A program is calm
(`Firm.Calm`) if it starts and ends with no dispatch under way and is safe in between.
-/
namespace EventJournal

open History Bus Told

variable {H Y α β : Type} {config : BusConfig} {seed : UInt32}

namespace Firm

/-- What the diaries have on the events, as far as the notices show it. -/
structure Kept (firm : Firm H Y) (ds : Diaries H) (notices : List Notice) : Prop where
  begun : ∀ k ∈ firm.handlers, ∀ id, (ds k).page id ≠ Diary.unread →
    ∃ lane event, .begun lane event ∈ notices ∧ event.id = id
  tidy : ∀ {lane event}, lane.topic = firm.topic → .begun lane event ∈ notices →
    ∀ k ∈ firm.handlers, Diary.Tidy event ((ds k).page event.id)
  settled : ∀ {lane event}, lane.topic = firm.topic → .begun lane event ∈ notices →
    (hands lane notices).busy ≠ some event → ∀ k ∈ firm.handlers, Diary.Settled event ((ds k).page event.id)
  done : ∀ {lane event}, .ended lane event ∈ notices → .begun lane event ∈ notices ∧
    (lane.topic = firm.topic → ∀ k ∈ firm.handlers, (firm.inner k).accepts event = true →
      (ds k).page event.id = Diary.complete event)

section Kept

variable {firm : Firm H Y} {ds ds' : Diaries H} {notices ms : List Notice} {h : List (Nat × Notice)} {i : Nat}
  {lane : LaneId} {event : Event}

theorem Kept.begun_append (hk : firm.Kept ds notices) (ms : List Notice) :
    ∀ k ∈ firm.handlers, ∀ id, (ds k).page id ≠ Diary.unread →
      ∃ lane event, .begun lane event ∈ notices ++ ms ∧ event.id = id := by
  intro k hks id hp
  obtain ⟨lane, event, hn, he⟩ := hk.begun k hks id hp
  exact ⟨lane, event, List.mem_append_left ms hn, he⟩

theorem kept_blank (firm : Firm H Y) : firm.Kept (fun _ => .blank) [] where
  begun _ _ _ hp := absurd rfl hp
  tidy _ hn := by cases hn
  settled _ hn := by cases hn
  done hn := by cases hn

/-- Other notices change nothing. -/
theorem Kept.append (hk : firm.Kept ds notices) (hm : Plain ms) : firm.Kept ds (notices ++ ms) := by
  have hbegun : ∀ {lane event}, .begun lane event ∈ notices ++ ms → .begun lane event ∈ notices :=
    fun hn => (List.mem_append.mp hn).resolve_right fun hr => by cases hm _ hr
  have hended : ∀ {lane event}, .ended lane event ∈ notices ++ ms → .ended lane event ∈ notices :=
    fun hn => (List.mem_append.mp hn).resolve_right fun hr => by cases hm _ hr
  exact {
    begun := hk.begun_append _
    tidy := fun ht hn => hk.tidy ht (hbegun hn)
    settled := by
      intro lane event ht hn hbusy
      rw [busy_append hm] at hbusy
      exact hk.settled ht (hbegun hn) hbusy
    done := by
      intro lane event hn
      obtain ⟨hb, hc⟩ := hk.done (hended hn)
      exact ⟨List.mem_append_left _ hb, hc⟩ }

/-- Nor do arrivals. -/
theorem Kept.arrived (hk : firm.Kept ds (h.map Prod.snd)) (i : Nat) (bus bus' : Bus H) :
    firm.Kept ds ((h ++ told i (arrived bus bus')).map Prod.snd) := by
  rw [List.map_append, map_snd_told]
  exact hk.append (unattended_arrived bus bus').plain

section Begin

variable (hk : firm.Kept ds (h.map Prod.snd)) (o : Orderly config seed (h ++ [(i, .begun lane event)]))
  (hidle : (hands lane (h.map Prod.snd)).busy = none)
include hk o

/-- If anything stands on the pages of an event already, it was dispatched before. -/
theorem Kept.again {k : H} (hks : k ∈ firm.handlers) (hp : (ds k).page event.id ≠ Diary.unread) :
    .begun lane event ∈ h.map Prod.snd := by
  have hall : (h ++ [(i, Notice.begun lane event)]).map Prod.snd = h.map Prod.snd ++ [.begun lane event] :=
    List.map_append
  obtain ⟨l, e, hn, he⟩ := hk.begun k hks _ hp
  have hold : .begun l e ∈ (h ++ [(i, Notice.begun lane event)]).map Prod.snd := by
    rw [hall]
    exact List.mem_append_left _ hn
  have hnew : .begun lane event ∈ (h ++ [(i, Notice.begun lane event)]).map Prod.snd := by
    rw [hall]
    exact List.mem_append_right _ (List.mem_singleton.mpr rfl)
  have hsame := o.same hold hnew he
  subst hsame
  have hlane := (o.home hold).trans (o.home hnew).symm
  exact hlane ▸ hn

include hidle

/-- So the pages are settled when a dispatch begins. -/
theorem Kept.settled_begun (ht : lane.topic = firm.topic) {k : H} (hks : k ∈ firm.handlers) :
    Diary.Settled event ((ds k).page event.id) := by
  by_cases hp : (ds k).page event.id = Diary.unread
  · exact .inl hp
  · exact hk.settled ht (hk.again o hks hp) (by simp [hidle]) k hks

/-- A dispatch begins from a lane of which no other is under way. -/
theorem Kept.begin : firm.Kept ds (h.map Prod.snd ++ [.begun lane event]) := by
  have hcases : ∀ {l e}, .begun l e ∈ h.map Prod.snd ++ [.begun lane event] →
      .begun l e ∈ h.map Prod.snd ∨ l = lane ∧ e = event := by
    intro l e hn
    refine (List.mem_append.mp hn).imp_right fun hr => ?_
    cases List.mem_singleton.mp hr
    exact ⟨rfl, rfl⟩
  exact {
    begun := hk.begun_append _
    tidy := by
      intro l e ht hn k hks
      obtain hn | ⟨rfl, rfl⟩ := hcases hn
      · exact hk.tidy ht hn k hks
      · exact (hk.settled_begun o hidle ht hks).tidy
    settled := by
      intro l e ht hn hbusy
      by_cases hl : l = lane
      · subst hl
        rw [busy_begun] at hbusy
        obtain hn | ⟨-, rfl⟩ := hcases hn
        · exact hk.settled ht hn (by simp [hidle])
        · exact absurd rfl hbusy
      · rw [busy_begun_other hl] at hbusy
        obtain hn | ⟨he, -⟩ := hcases hn
        · exact hk.settled ht hn hbusy
        · exact absurd he hl
    done := by
      intro l e hn
      rcases List.mem_append.mp hn with hn | hn
      · obtain ⟨hb, hc⟩ := hk.done hn
        exact ⟨List.mem_append_left _ hb, hc⟩
      · cases List.mem_singleton.mp hn }

end Begin

/-- A dispatch ends, with the pages of its event as they are to be. -/
theorem Kept.finish (hk : firm.Kept ds notices) (hbusy : (hands lane notices).busy = some event)
    (hdone : lane.topic = firm.topic → ∀ k ∈ firm.handlers, Diary.Settled event ((ds k).page event.id) ∧
      ((firm.inner k).accepts event = true → (ds k).page event.id = Diary.complete event)) :
    firm.Kept ds (notices ++ [.ended lane event]) := by
  have hbegun : ∀ {l e}, .begun l e ∈ notices ++ [.ended lane event] → .begun l e ∈ notices :=
    fun hn => (List.mem_append.mp hn).resolve_right fun hr => by cases List.mem_singleton.mp hr
  exact {
    begun := hk.begun_append _
    tidy := fun ht hn => hk.tidy ht (hbegun hn)
    settled := by
      intro l e ht hn hfree
      by_cases hl : l = lane
      · subst hl
        by_cases he : e = event
        · rw [he]
          exact fun k hks => (hdone ht k hks).1
        · apply hk.settled ht (hbegun hn)
          rw [hbusy]
          exact fun hs => he (Option.some.inj hs).symm
      · rw [busy_ended_other hl] at hfree
        exact hk.settled ht (hbegun hn) hfree
    done := by
      intro l e hn
      rcases List.mem_append.mp hn with hn | hn
      · obtain ⟨hb, hc⟩ := hk.done hn
        exact ⟨List.mem_append_left _ hb, hc⟩
      · cases List.mem_singleton.mp hn
        exact ⟨List.mem_append_left _ (begun_of_busy hbusy), fun ht k hks => (hdone ht k hks).2⟩ }

/-- While an event is dispatched its pages are written on, and no others. -/
theorem Kept.write (hk : firm.Kept ds (h.map Prod.snd)) (o : Orderly config seed h)
    (hbusy : (hands lane (h.map Prod.snd)).busy = some event)
    (hapart : ∀ k, Diary.Apart event.id (ds k) (ds' k))
    (hstep : lane.topic = firm.topic → ∀ k ∈ firm.handlers,
      (ds' k).page event.id = (ds k).page event.id ∨
        (ds k).page event.id ≠ Diary.complete event ∧ Diary.Tidy event ((ds' k).page event.id)) :
    firm.Kept ds' (h.map Prod.snd) := by
  have hb := begun_of_busy hbusy
  have hsame : ∀ {l e}, .begun l e ∈ h.map Prod.snd → e.id = event.id → l = lane ∧ e = event := by
    intro l e hn he
    have heq := o.same hn hb he
    subst heq
    exact ⟨(o.home hn).trans (o.home hb).symm, rfl⟩
  exact {
    begun := by
      intro k hks id hp
      by_cases hid : id = event.id
      · exact ⟨lane, event, hb, hid.symm⟩
      · rw [hapart k id hid] at hp
        exact hk.begun k hks id hp
    tidy := by
      intro l e ht hn k hks
      by_cases he : e.id = event.id
      · obtain ⟨rfl, rfl⟩ := hsame hn he
        obtain hp | ⟨-, hp⟩ := hstep ht k hks
        · rw [hp]
          exact hk.tidy ht hn k hks
        · exact hp
      · rw [hapart k _ he]
        exact hk.tidy ht hn k hks
    settled := by
      intro l e ht hn hfree k hks
      by_cases he : e.id = event.id
      · obtain ⟨rfl, rfl⟩ := hsame hn he
        exact absurd hbusy hfree
      · rw [hapart k _ he]
        exact hk.settled ht hn hfree k hks
    done := by
      intro l e hn
      obtain ⟨hb', hc⟩ := hk.done hn
      refine ⟨hb', fun ht k hks ha => ?_⟩
      by_cases he : e.id = event.id
      · obtain ⟨rfl, rfl⟩ := hsame hb' he
        obtain hp | ⟨hp, -⟩ := hstep ht k hks
        · rw [hp]
          exact hc ht k hks ha
        · exact absurd (hc ht k hks ha) hp
      · rw [hapart k _ he]
        exact hc ht k hks ha }

end Kept

variable [DecidableEq H]

/-- Who is busy with an event relies on its pages; beforehand it is known that all is orderly and that the
handlers of the topic stay the same. -/
def accord (firm : Firm H Y) (config : BusConfig) (seed : UInt32) :
    Accord (Office H Y) Notice Ending (Office H Y → Office H Y) where
  toRules := firm.rules
  known w h := w.bus.Shaped config seed ∧ w.bus.handlers firm.topic = firm.handlers ∧ Orderly config seed h
  inv w h := firm.Kept w.diaries (h.map Prod.snd)
  rely i w h w' h' := own i h' = own i h ∧ ∀ lane event, (hands lane (own i h)).busy = some event →
    ∀ k ∈ firm.handlers, (w'.diaries k).page event.id = (w.diaries k).page event.id
  ended i _ _ h := Idle (own i h)

section Accord

variable {firm : Firm H Y} {i : Nat} {w w' : Office H Y} {h : List (Nat × Notice)} {lane : LaneId} {event : Event}

/-- Who writes of the event that he is busy with does not touch what others rely on. -/
theorem rely_of_apart (o : Orderly config seed h) (hb : (hands lane (own i h)).busy = some event)
    (hapart : ∀ k, Diary.Apart event.id (w.diaries k) (w'.diaries k)) (j : Nat) (hj : j ≠ i) :
    (firm.accord config seed).rely j w h w' h := by
  refine ⟨rfl, fun l e hbusy k _ => hapart k _ ?_⟩
  exact fun he => hj (o.eq_of_busy hbusy hb he)

/-- Between two dispatches, or before the first. -/
def Resting (firm : Firm H Y) (config : BusConfig) (seed : UInt32) (i : Nat) (w : Office H Y)
    (h : List (Nat × Notice)) : Prop :=
  ((firm.accord config seed).known w h → (firm.accord config seed).inv w h) ∧ Idle (own i h)

/-- A program that goes from rest to rest. -/
def Calm (firm : Firm H Y) (config : BusConfig) (seed : UInt32) (t : Noted H (Diaries H × Y) α) : Prop :=
  ∀ i w h, firm.Resting config seed i w h →
    (firm.accord config seed).Safe i (fun _ => firm.Resting config seed i) t w h

theorem calm_pure (a : α) : firm.Calm config seed (pure a) :=
  fun _ _ _ hr => hr

theorem Calm.bind {t : Noted H (Diaries H × Y) α} {f : α → Noted H (Diaries H × Y) β}
    (ht : firm.Calm config seed t) (hf : ∀ a, firm.Calm config seed (f a)) :
    firm.Calm config seed (t >>= f) :=
  fun i w h hr => Accord.Safe.bind ((ht i w h hr).mono fun a => hf a i)

theorem calm_tell {n : Notice} (hn : n.turns = false) : firm.Calm config seed (tell n) := by
  have hplain : Plain [n] := fun m hm => List.mem_singleton.mp hm ▸ hn
  rintro i w h ⟨hi, hidle⟩
  constructor
  · rintro ⟨hs, ht, o⟩
    have hk := hi ⟨hs, ht, o.before⟩
    change firm.Kept w.diaries ((h ++ [(i, n)]).map Prod.snd)
    rw [List.map_append]
    exact hk.append hplain
  · rw [own_concat]
    exact hidle.append hplain

/-- A walk through a fiber whose acts keep what is invariant and what others rely on, by one who has given
notices of some kind. -/
theorem safe_ofFiber {kind : List Notice → Prop} {R : Office H Y → Office H Y → Prop}
    {t : Fiber (Office H Y) α} {post : α → Office H Y → List (Nat × Notice) → Prop}
    (ht : t.Abides (fun _ => True) R) (hkind : ∀ ns ms, kind ns → Unattended ms → kind (ns ++ ms))
    (hR : ∀ w h w', Orderly config seed h → firm.Kept w.diaries (h.map Prod.snd) → kind (own i h) → R w w' →
      firm.Kept w'.diaries (h.map Prod.snd) ∧ ∀ j, j ≠ i → (firm.accord config seed).rely j w h w' h)
    (hi : (firm.accord config seed).known w h → (firm.accord config seed).inv w h) (ho : kind (own i h))
    (hp : ∀ a w' h', ((firm.accord config seed).known w' h' → (firm.accord config seed).inv w' h') →
      kind (own i h') → post a w' h') :
    (firm.accord config seed).Safe i post (ofFiber t) w h := by
  induction t generalizing w h with
  | done a => exact hp a w h hi ho
  | act ready effect next ih =>
    refine fun hk => ⟨hi hk, ?_⟩
    intro w' h' hk' hi' hr hready
    obtain ⟨heffect, hn⟩ := ht w' trivial hready
    obtain ⟨hkept, hothers⟩ := hR w' h' (effect w') hk'.2.2 hi' (hr.1 ▸ ho) heffect
    refine ⟨hothers, ih w' hn ?_ ?_⟩
    · exact fun _ => hkept.arrived i _ _
    · rw [own_append, own_told, hr.1]
      exact hkind _ _ ho (unattended_arrived _ _)

/-- Who leaves the diaries alone is calm. -/
theorem calm_ofFiber {t : Fiber (Office H Y) α}
    (ht : t.Abides (fun _ => True) fun w w' => w'.diaries = w.diaries) :
    firm.Calm config seed (ofFiber t) := by
  rintro i w h ⟨hi, hidle⟩
  refine safe_ofFiber ht (fun _ _ hn hm => hn.append hm.plain) ?_ hi hidle fun _ _ _ => And.intro
  intro w h w' _ hk _ he
  refine ⟨he ▸ hk, fun j _ => ⟨rfl, fun _ _ _ k _ => ?_⟩⟩
  rw [he]

theorem calm_await {ready : Office H Y → Bool} {f : Office H Y → α × Office H Y}
    (hf : ∀ w, (f w).2.diaries = w.diaries) : firm.Calm config seed (ofFiber (Fiber.await ready f)) :=
  calm_ofFiber (Fiber.abides_await fun w _ _ => hf w)

end Accord

end Firm

end EventJournal
