import EventJournal.Dispatch
import EventJournal.Proofs.Crowd.Accord
import EventJournal.Proofs.Handler.Diary
import Mathlib.Logic.Function.Basic

/-!
All or none. The handlers of a lane each run once per event, and any of them may fail to handle or to undo it.
However often and in whatever order events are dispatched, between two dispatches an event is remembered by
all the handlers that take it or by none. So no handler has an event handled twice without undoing it.
-/
namespace EventJournal

open History

variable {H W α β : Type}

namespace Dispatch

/-- Those of a list that take an event, with their places. -/
def takers (accepts : H → Bool) (ks : List H) : List (Nat × H) :=
  (ks.zipIdx.map fun (k, n) => (n, k)).filter fun p => accepts p.2

theorem matching_map {m : Type → Type} (handler : H → Handler m) (ks : List H) (event : Event) :
    matching (ks.map handler) event =
      (takers (fun k => (handler k).accepts event) ks).map fun p => (p.1, handler p.2) := by
  simp only [matching, takers, List.zipIdx_map, List.map_map, List.filter_map]
  rfl

variable {accepts : H → Bool} {ks : List H} {k : H}

theorem map_snd_places (ks : List H) : (ks.zipIdx.map fun (k, n) => (n, k)).map Prod.snd = ks := by
  rw [List.map_map]
  exact List.zipIdx_map_fst 0 ks

theorem mem_takers : k ∈ (takers accepts ks).map Prod.snd ↔ k ∈ ks ∧ accepts k = true := by
  have hks := map_snd_places ks
  constructor
  · intro hk
    obtain ⟨p, hp, rfl⟩ := List.mem_map.mp hk
    obtain ⟨hp, ha⟩ := List.mem_filter.mp hp
    exact ⟨hks ▸ List.mem_map_of_mem hp, ha⟩
  · rintro ⟨hk, ha⟩
    rw [← hks] at hk
    obtain ⟨p, hp, rfl⟩ := List.mem_map.mp hk
    exact List.mem_map_of_mem (List.mem_filter.mpr ⟨hp, ha⟩)

theorem mem_takers_iff {p : Nat × H} : p ∈ takers accepts ks ↔ ks[p.1]? = some p.2 ∧ accepts p.2 = true := by
  rw [takers, List.mem_filter, List.mem_map]
  refine and_congr_left fun _ => ⟨?_, ?_⟩
  · rintro ⟨q, hq, rfl⟩
    exact List.mem_zipIdx_iff_getElem?.mp hq
  · exact fun hq => ⟨(p.2, p.1), List.mem_zipIdx_iff_getElem?.mpr hq, rfl⟩

/-- They come in the order of their places. -/
theorem pairwise_takers (accepts : H → Bool) (ks : List H) :
    (takers accepts ks).Pairwise fun p q => p.1 < q.1 := by
  apply List.Pairwise.filter
  rw [List.pairwise_map]
  have hplaces : (ks.zipIdx.map Prod.snd).Pairwise (· < ·) := by
    rw [List.zipIdx_map_snd]
    exact List.pairwise_lt_range'
  exact List.pairwise_map.mp hplaces

theorem nodup_takers (hd : ks.Nodup) : ((takers accepts ks).map Prod.snd).Nodup := by
  apply List.Nodup.sublist _ ((map_snd_places ks).symm ▸ hd)
  exact List.filter_sublist.map Prod.snd

end Dispatch

abbrev Diaries (H : Type) := H → Diary

/-- What works on the diaries of handlers, and on whatever there is beside them. -/
abbrev Round (H W α : Type) := Told (Diaries H × W) Empty α

/-- The handlers of a lane by their names. -/
structure Crew (H W : Type) where
  inner : H → Handler (Fiber W)
  observe : Observer (Fiber W)
  lane : List H

namespace Crew

variable [DecidableEq H]

def diary (k : H) : Cell (Told (Diaries H × W) Empty) Diary where
  act f := Told.kept.act fun ds =>
    let (a, d) := f (ds k)
    (a, Function.update ds k d)

/-- A handler at work beside the diaries. -/
def beside (inner : Handler (Fiber W)) : Handler (Told (Diaries H × W) Empty) where
  accepts := inner.accepts
  handle ctx event := Told.beside (inner.handle ctx event)
  rollback ctx event := Told.beside (inner.rollback ctx event)

def handler (crew : Crew H W) (k : H) : Handler (Told (Diaries H × W) Empty) :=
  (beside (crew.inner k)).onceNoted (diary k)

/-- One dispatch, by number. -/
def round (crew : Crew H W) (n : Nat) (delivery : Context × Event) : Round H W Nat := do
  dispatch (crew.lane.map crew.handler) (fun e => Told.beside (crew.observe e)) delivery.1 delivery.2
  return n + 1

/-- The dispatches of a lane follow each other; everything but the diaries may change at any time. -/
def rules (crew : Crew H W) (deliveries : List (Context × Event)) :
    Rules (Diaries H × W) Empty Nat (W → W) where
  call _ := none
  again n := deliveries[n]?.map (crew.round n)
  watch _ _ := []
  outside f s := (s.1, f s.2)

omit [DecidableEq H] in
/-- A lane before its first dispatch, with blank diaries. Its job is done whenever a dispatch is. -/
def start (w : W) : Crowd (Diaries H × W) Empty Nat :=
  .gather (fun _ => .blank, w) [.done 0]

section Rest

omit [DecidableEq H]

/-- Whether a handler takes the event that is delivered under an id. -/
def Takes (crew : Crew H W) (deliveries : List (Context × Event)) (k : H) (id : EventId) : Prop :=
  ∃ d ∈ deliveries, d.2.id = id ∧ (crew.inner k).accepts d.2 = true

/-- An event is remembered by all that take it, or by none. -/
def Even (crew : Crew H W) (deliveries : List (Context × Event)) (ds : Diaries H) (id : EventId) : Prop :=
  (∀ k ∈ crew.lane, (ds k).knows id = true ↔ crew.Takes deliveries k id) ∨
    ∀ k ∈ crew.lane, (ds k).knows id = false

/-- In every diary the runs are spaced. -/
def Spaced (ds : Diaries H) : Prop :=
  ∀ k, Trial.Spaced (ds k).trials

/-- What holds between two dispatches. -/
structure AtRest (crew : Crew H W) (deliveries : List (Context × Event)) (ds : Diaries H) : Prop where
  spaced : Spaced ds
  stands : ∀ k id, ∃ b, (ds k).Stands id b
  even : ∀ id, crew.Even deliveries ds id

theorem atRest_blank (crew : Crew H W) (deliveries : List (Context × Event)) :
    crew.AtRest deliveries fun _ => .blank where
  spaced _ := Trial.Spaced.nil
  stands _ _ := ⟨false, rfl, rfl⟩
  even _ := .inr fun _ _ => rfl

end Rest

/-- Nobody but the lane's own job touches the diaries. -/
def accord (crew : Crew H W) (deliveries : List (Context × Event)) :
    Accord (Diaries H × W) Empty Nat (W → W) where
  toRules := crew.rules deliveries
  known _ _ := True
  inv s _ := Spaced s.1
  rely i s _ s' _ := i = 0 → s'.1 = s.1
  ended i _ s _ := i = 0 ∧ crew.AtRest deliveries s.1

section Leads

variable {crew : Crew H W} {deliveries : List (Context × Event)}

/-- What a program makes of the diaries, whatever happens beside them. -/
def Leads (crew : Crew H W) (deliveries : List (Context × Event)) (post : α → Diaries H → Prop)
    (t : Round H W α) (ds : Diaries H) : Prop :=
  ∀ w h, (crew.accord deliveries).Safe 0 (fun a s _ => post a s.1) t (ds, w) h

variable {post : α → Diaries H → Prop} {ds : Diaries H}

theorem leads_pure {a : α} (hp : post a ds) : crew.Leads deliveries post (pure a) ds :=
  fun _ _ => hp

theorem Leads.bind {post : β → Diaries H → Prop} {t : Round H W α} {f : α → Round H W β}
    (ht : crew.Leads deliveries (fun a => crew.Leads deliveries post (f a)) t ds) :
    crew.Leads deliveries post (t >>= f) ds := by
  intro w h
  refine Accord.Safe.bind ((ht w h).mono ?_)
  exact fun a s h ha => ha s.2 h

theorem Leads.mono {post' : α → Diaries H → Prop} {t : Round H W α}
    (ht : crew.Leads deliveries post t ds) (hp : ∀ a ds, post a ds → post' a ds) :
    crew.Leads deliveries post' t ds :=
  fun w h => (ht w h).mono fun a s _ => hp a s.1

/-- Of what happens beside the diaries nothing is known. -/
theorem leads_beside {t : Fiber W α} (hs : Spaced ds) (hp : ∀ a, post a ds) :
    crew.Leads deliveries post (Told.beside t) ds := by
  intro w h
  induction t generalizing w h with
  | done a => exact hp a
  | act ready effect next ih =>
    refine fun _ => ⟨hs, ?_⟩
    rintro ⟨ds', w'⟩ h' _ _ hr _
    cases hr rfl
    exact ⟨fun _ _ _ => rfl, ih w' (effect w') _⟩

theorem leads_diary {k : H} {f : Diary → α × Diary} (hs : Spaced ds)
    (hp : post (f (ds k)).1 (Function.update ds k (f (ds k)).2)) :
    crew.Leads deliveries post ((diary k).act f) ds := by
  intro w h
  refine fun _ => ⟨hs, ?_⟩
  rintro ⟨ds', w'⟩ h' _ _ hr _
  cases hr rfl
  exact ⟨fun j hj h0 => absurd h0 hj, hp⟩

end Leads

section Diaries

omit [DecidableEq H]

/-- What was made of the diaries of some handlers as to one event. -/
structure Changes (id : EventId) (ks : List H) (ds ds' : Diaries H) : Prop where
  agrees : ∀ k, Diary.Agrees id (ds k) (ds' k)
  other : ∀ k, k ∉ ks → ds' k = ds k

theorem Changes.refl (id : EventId) (ks : List H) (ds : Diaries H) : Changes id ks ds ds :=
  ⟨fun _ => .refl _ _, fun _ _ => rfl⟩

theorem Changes.trans {id : EventId} {ks ks' : List H} {ds ds' ds'' : Diaries H}
    (h : Changes id ks ds ds') (h' : Changes id ks' ds' ds'') (hsub : ∀ k ∈ ks', k ∈ ks) :
    Changes id ks ds ds'' where
  agrees k := (h.agrees k).trans (h'.agrees k)
  other k hk := (h'.other k fun hk' => hk (hsub k hk')).trans (h.other k hk)

theorem Changes.mono {id : EventId} {ks ks' : List H} {ds ds' : Diaries H} (h : Changes id ks' ds ds')
    (hsub : ∀ k ∈ ks', k ∈ ks) : Changes id ks ds ds' :=
  (Changes.refl id ks ds).trans h hsub

variable [DecidableEq H]

theorem changes_update {id : EventId} {ks : List H} {ds : Diaries H} {k : H} {d : Diary} (hk : k ∈ ks)
    (hd : Diary.Agrees id (ds k) d) : Changes id ks ds (Function.update ds k d) where
  agrees j := by
    by_cases hj : j = k
    · subst hj
      rw [Function.update_self]
      exact hd
    · rw [Function.update_of_ne hj]
      exact .refl _ _
  other j hj := by
    have hne : j ≠ k := fun he => hj (he ▸ hk)
    exact Function.update_of_ne hne _ _

theorem Spaced.update {ds : Diaries H} {k : H} {d : Diary} (hs : Spaced ds)
    (hd : Trial.Spaced d.trials) : Spaced (Function.update ds k d) := by
  intro j
  by_cases hj : j = k
  · subst hj
    rw [Function.update_self]
    exact hd
  · rw [Function.update_of_ne hj]
    exact hs j

end Diaries

section Handlers

variable {crew : Crew H W} {deliveries : List (Context × Event)} {ds : Diaries H} {ctx : Context}
  {event : Event}

/-- A handler that remembers the event has nothing to do. Otherwise the event is remembered if its handling
succeeds. -/
theorem leads_handle (hs : Spaced ds) {k : H} {b : Bool} (hb : (ds k).Stands event.id b) :
    crew.Leads deliveries
      (fun r ds' => Spaced ds' ∧ Changes event.id [k] ds ds' ∧ (ds' k).Stands event.id r.isOk ∧
        (b = true → r = .ok ()))
      ((crew.handler k).handle ctx event) ds := by
  have hmem : k ∈ [k] := List.mem_singleton.mpr rfl
  rw [handler, Handler.handle_onceNoted]
  apply Leads.bind
  apply leads_diary hs
  rw [Function.update_eq_self, hb.1]
  cases b with
  | true => exact leads_pure ⟨hs, .refl _ _ _, hb, fun _ => rfl⟩
  | false =>
    apply Leads.bind
    apply leads_diary hs
    let d₁ := (ds k).note (.begun event)
    have hbegun : Diary.Agrees event.id (ds k) d₁ := Diary.agrees_note (.inl rfl) _
    have hspaced₁ : Trial.Spaced d₁.trials := by
      apply (hs k).concat
      rintro id rfl
      exact hb.2
    have hheld₁ : Trial.held event.id d₁.trials = false := by
      rw [Diary.held_note]
      exact hb.2
    apply Leads.bind
    apply leads_beside (hs.update hspaced₁)
    intro result
    apply Leads.bind
    apply leads_diary (hs.update hspaced₁)
    rw [Function.update_self, Function.update_idem]
    let d₂ := d₁.note (.handled event result.isOk)
    have hended : Diary.Agrees event.id (ds k) d₂ :=
      hbegun.trans (Diary.agrees_note (.inr (.inl ⟨_, rfl⟩)) _)
    have hspaced₂ : Trial.Spaced d₂.trials := by
      apply hspaced₁.concat
      rintro id rfl
      exact hheld₁
    have hheld₂ : Trial.held event.id d₂.trials = result.isOk := by
      rw [Diary.held_note, hheld₁]
      cases result.isOk <;> simp [Trial.after]
    cases result with
    | error e =>
      have hstands : Diary.Stands event.id false d₂ := ⟨hb.1, hheld₂⟩
      refine leads_pure ⟨hs.update hspaced₂, changes_update hmem hended, ?_, fun hf => by cases hf⟩
      rw [Function.update_self]
      exact hstands
    | ok u =>
      apply leads_diary (hs.update hspaced₂)
      rw [Function.update_self, Function.update_idem]
      have hstands : Diary.Stands event.id true (d₂.add event) := ⟨Diary.knows_add event d₂, hheld₂⟩
      refine ⟨hs.update hspaced₂, changes_update hmem (hended.trans (Diary.agrees_add event d₂)), ?_,
        fun _ => rfl⟩
      rw [Function.update_self]
      exact hstands

/-- A handler that undoes an event has forgotten it, whether or not it succeeds. -/
theorem leads_rollback (hs : Spaced ds) (k : H) :
    crew.Leads deliveries
      (fun _ ds' => Spaced ds' ∧ Changes event.id [k] ds ds' ∧ (ds' k).Stands event.id false)
      ((crew.handler k).rollback ctx event) ds := by
  have hmem : k ∈ [k] := List.mem_singleton.mpr rfl
  rw [handler, Handler.rollback_onceNoted]
  apply Leads.bind
  apply leads_diary hs
  let d₁ := (ds k).forget event
  apply Leads.bind
  apply leads_beside (hs.update (d := d₁) (hs k))
  intro result
  apply Leads.bind
  apply leads_diary (hs.update (d := d₁) (hs k))
  rw [Function.update_self, Function.update_idem]
  let d₂ := d₁.note (.undone event result.isOk)
  have hagrees : Diary.Agrees event.id (ds k) d₂ :=
    (Diary.agrees_forget event _).trans (Diary.agrees_note (.inr (.inr ⟨_, rfl⟩)) _)
  have hspaced : Trial.Spaced d₂.trials := by
    apply (hs k).concat
    intro id hr
    exact hr.elim
  have hstands : Diary.Stands event.id false d₂ := by
    refine ⟨Diary.knows_forget event (ds k), ?_⟩
    rw [Diary.held_note]
    simp [Trial.after]
  refine leads_pure ⟨hs.update hspaced, changes_update hmem hagrees, ?_⟩
  rw [Function.update_self]
  exact hstands

/-- Named handlers with their places in the list. -/
def placed (crew : Crew H W) (ps : List (Nat × H)) : List (Nat × Handler (Told (Diaries H × W) Empty)) :=
  ps.map fun p => (p.1, crew.handler p.2)

/-- Who is undone has forgotten the event. -/
theorem leads_undo (hs : Spaced ds) (ps : List (Nat × H)) :
    crew.Leads deliveries
      (fun _ ds' => Spaced ds' ∧ Changes event.id (ps.map Prod.snd) ds ds' ∧
        ∀ p ∈ ps, (ds' p.2).Stands event.id false)
      (Dispatch.undo (fun e => Told.beside (crew.observe e)) ctx event (crew.placed ps)) ds := by
  induction ps generalizing ds with
  | nil => exact leads_pure ⟨hs, .refl _ _ _, fun _ hp => by cases hp⟩
  | cons p rest ih =>
    obtain ⟨n, k⟩ := p
    apply Leads.bind
    refine (leads_rollback hs k).mono ?_
    rintro r ds₁ ⟨hs₁, hc₁, hk₁⟩
    have hrest : crew.Leads deliveries
        (fun _ ds' => Spaced ds' ∧ Changes event.id (((n, k) :: rest).map Prod.snd) ds ds' ∧
          ∀ p ∈ (n, k) :: rest, (ds' p.2).Stands event.id false)
        (Dispatch.undo (fun e => Told.beside (crew.observe e)) ctx event (crew.placed rest)) ds₁ := by
      refine (ih hs₁).mono ?_
      rintro _ ds₂ ⟨hs₂, hc₂, hall⟩
      have hc : Changes event.id (((n, k) :: rest).map Prod.snd) ds ds₂ :=
        (hc₁.mono (by simp)).trans hc₂ fun j hj => List.mem_cons_of_mem k hj
      refine ⟨hs₂, hc, ?_⟩
      intro p hp
      by_cases hr : p.2 ∈ rest.map Prod.snd
      · obtain ⟨q, hq, he⟩ := List.mem_map.mp hr
        rw [← he]
        exact hall q hq
      · rcases List.mem_cons.mp hp with rfl | hp
        · rw [hc₂.other _ hr]
          exact hk₁
        · exact absurd (List.mem_map_of_mem hp) hr
    cases r with
    | ok u => exact hrest
    | error e => exact Leads.bind (leads_beside hs₁ fun _ => hrest)

/-- If all handlers that are left stand alike with the event, and those that ran remember it, then in the
end all stand alike: they remember it, or they have undone it. -/
theorem leads_run (hs : Spaced ds) {ran rest : List (Nat × H)}
    (hnodup : ((ran ++ rest).map Prod.snd).Nodup) (hran : ∀ p ∈ ran, (ds p.2).Stands event.id true)
    {b : Bool} (hrest : ∀ p ∈ rest, (ds p.2).Stands event.id b) :
    crew.Leads deliveries
      (fun _ ds' => Spaced ds' ∧ Changes event.id ((ran ++ rest).map Prod.snd) ds ds' ∧
        ∃ b', ∀ p ∈ ran ++ rest, (ds' p.2).Stands event.id b')
      (Dispatch.run (fun e => Told.beside (crew.observe e)) ctx event (crew.placed ran)
        (crew.placed rest)) ds := by
  induction rest generalizing ds ran with
  | nil => exact leads_pure ⟨hs, .refl _ _ _, true, by simpa using hran⟩
  | cons p rest ih =>
    obtain ⟨n, k⟩ := p
    have hperm : (ran ++ (n, k) :: rest).Perm ((n, k) :: ran ++ rest) := List.perm_middle
    have hmem : ∀ q, q ∈ ran ++ (n, k) :: rest ↔ q ∈ (n, k) :: ran ++ rest := fun q => hperm.mem_iff
    have hmem' : ∀ j, j ∈ (ran ++ (n, k) :: rest).map Prod.snd ↔
        j ∈ ((n, k) :: ran ++ rest).map Prod.snd := fun j => (hperm.map Prod.snd).mem_iff
    have hnodup' : (((n, k) :: ran ++ rest).map Prod.snd).Nodup := (hperm.map Prod.snd).nodup hnodup
    -- those that are left are not among those that ran
    have happart : ∀ q ∈ rest, q.2 ∉ ((n, k) :: ran).map Prod.snd := by
      intro q hq hin
      rw [List.map_append] at hnodup'
      exact (List.nodup_append.mp hnodup').2.2 q.2 hin q.2 (List.mem_map_of_mem hq) rfl
    apply Leads.bind
    refine (leads_handle hs (hrest (n, k) List.mem_cons_self)).mono ?_
    rintro r ds₁ ⟨hs₁, hc₁, hk₁, hok⟩
    have hrest₁ : ∀ q ∈ rest, (ds₁ q.2).Stands event.id b := by
      intro q hq
      have hne : q.2 ∉ [k] := fun hin => happart q hq (by simp [List.mem_singleton.mp hin])
      rw [hc₁.other q.2 hne]
      exact hrest q (List.mem_cons_of_mem _ hq)
    have hc₁' : Changes event.id ((ran ++ (n, k) :: rest).map Prod.snd) ds ds₁ := hc₁.mono (by simp)
    cases r with
    | ok u =>
      have hran₁ : ∀ q ∈ (n, k) :: ran, (ds₁ q.2).Stands event.id true := by
        intro q hq
        by_cases hqk : q.2 = k
        · rw [hqk]
          exact hk₁
        · rcases List.mem_cons.mp hq with rfl | hq
          · exact absurd rfl hqk
          · rw [hc₁.other q.2 (by simpa using hqk)]
            exact hran q hq
      refine (ih hs₁ hnodup' hran₁ hrest₁).mono ?_
      rintro _ ds₂ ⟨hs₂, hc₂, b', hall⟩
      refine ⟨hs₂, hc₁'.trans hc₂ fun j hj => (hmem' j).mpr hj, b', ?_⟩
      exact fun q hq => hall q ((hmem q).mp hq)
    | error e =>
      have hb : b = false := by
        cases b with
        | false => rfl
        | true => cases hok rfl
      subst hb
      apply Leads.bind
      apply leads_beside hs₁
      intro _
      refine (leads_undo hs₁ ((n, k) :: ran)).mono ?_
      rintro _ ds₂ ⟨hs₂, hc₂, hall⟩
      refine ⟨hs₂, hc₁'.trans hc₂ ?_, false, ?_⟩
      · intro j hj
        rw [hmem', List.map_append]
        exact List.mem_append_left _ hj
      · intro q hq
        rcases List.mem_append.mp ((hmem q).mp hq) with hq | hq
        · exact hall q hq
        · rw [hc₂.other q.2 (happart q hq)]
          exact hrest₁ q hq

/-- The handlers of the lane that take an event, with their places. -/
def takers (crew : Crew H W) (event : Event) : List (Nat × H) :=
  Dispatch.takers (fun k => (crew.inner k).accepts event) crew.lane

theorem matching_eq (crew : Crew H W) (event : Event) :
    Dispatch.matching (crew.lane.map crew.handler) event = crew.placed (crew.takers event) :=
  Dispatch.matching_map crew.handler crew.lane event

omit [DecidableEq H] in
theorem mem_takers {k : H} : k ∈ (crew.takers event).map Prod.snd ↔
    k ∈ crew.lane ∧ (crew.inner k).accepts event = true :=
  Dispatch.mem_takers

omit [DecidableEq H] in
theorem nodup_takers (hd : crew.lane.Nodup) : ((crew.takers event).map Prod.snd).Nodup :=
  Dispatch.nodup_takers hd

/-- Deliveries with one event id are deliveries of one event. -/
def Distinct (deliveries : List (Context × Event)) : Prop :=
  ∀ d ∈ deliveries, ∀ d' ∈ deliveries, d.2.id = d'.2.id → d.2 = d'.2

/-- After a dispatch all is at rest again. -/
theorem AtRest.round (hr : crew.AtRest deliveries ds) (hlane : crew.lane.Nodup)
    (hd : Distinct deliveries) {d : Context × Event} (hmem : d ∈ deliveries) (n : Nat) :
    crew.Leads deliveries (fun _ ds' => crew.AtRest deliveries ds') (crew.round n d) ds := by
  obtain ⟨ctx, event⟩ := d
  have htakes : ∀ k, crew.Takes deliveries k event.id ↔ (crew.inner k).accepts event = true := by
    intro k
    constructor
    · rintro ⟨d', hd', hid, ha⟩
      have he : d'.2 = event := hd d' hd' _ hmem hid
      exact he ▸ ha
    · exact fun ha => ⟨_, hmem, rfl, ha⟩
  -- before, those that take the event stand alike with it
  have hbefore : ∃ b, ∀ p ∈ [] ++ crew.takers event, (ds p.2).Stands event.id b := by
    have hone : ∀ b, (∀ k ∈ (crew.takers event).map Prod.snd, (ds k).knows event.id = b) →
        ∀ p ∈ [] ++ crew.takers event, (ds p.2).Stands event.id b := by
      intro b hb p hp
      obtain ⟨b', hs⟩ := hr.stands p.2 event.id
      have hp' : p.2 ∈ (crew.takers event).map Prod.snd := List.mem_map_of_mem hp
      rw [← hb p.2 hp', hs.1]
      exact hs
    rcases hr.even event.id with hall | hnone
    · refine ⟨true, hone true ?_⟩
      intro k hk
      obtain ⟨hk, ha⟩ := mem_takers.mp hk
      exact (hall k hk).mpr ((htakes k).mpr ha)
    · exact ⟨false, hone false fun k hk => hnone k (mem_takers.mp hk).1⟩
  obtain ⟨b, hb⟩ := hbefore
  have hnodup : (([] ++ crew.takers event).map Prod.snd).Nodup := nodup_takers hlane
  have hran : ∀ p ∈ ([] : List (Nat × H)), (ds p.2).Stands event.id true := fun p hp => by cases hp
  apply Leads.bind
  rw [dispatch, matching_eq]
  refine (leads_run hr.spaced hnodup hran fun p hp => hb p (List.mem_append_right [] hp)).mono ?_
  rintro _ ds' ⟨hs, hc, b', hb'⟩
  refine leads_pure ⟨hs, ?_, ?_⟩
  · intro k id
    by_cases hk : k ∈ (crew.takers event).map Prod.snd
    · by_cases hid : id = event.id
      · obtain ⟨p, hp, rfl⟩ := List.mem_map.mp hk
        exact ⟨b', hid ▸ hb' p hp⟩
      · obtain ⟨b, hstands⟩ := hr.stands k id
        exact ⟨b, (hc.agrees k).stands hid hstands⟩
    · rw [hc.other k hk]
      exact hr.stands k id
  · intro id
    by_cases hid : id = event.id
    · subst hid
      -- who does not take the event has not got it
      have hothers : ∀ k ∈ crew.lane, (crew.inner k).accepts event ≠ true →
          (ds' k).knows event.id = false := by
        intro k hk ha
        have hout : k ∉ (crew.takers event).map Prod.snd := fun hin => ha (mem_takers.mp hin).2
        rw [hc.other k hout]
        rcases hr.even event.id with hall | hnone
        · have hknows := hall k hk
          rw [htakes] at hknows
          exact Bool.eq_false_iff.mpr fun h => ha (hknows.mp h)
        · exact hnone k hk
      have htaker : ∀ k ∈ crew.lane, (crew.inner k).accepts event = true →
          (ds' k).knows event.id = b' := by
        intro k hk ha
        obtain ⟨p, hp, rfl⟩ := List.mem_map.mp (mem_takers.mpr ⟨hk, ha⟩)
        exact (hb' p hp).1
      cases b' with
      | true =>
        refine .inl fun k hk => ?_
        rw [htakes]
        constructor
        · intro h
          apply Classical.byContradiction
          intro ha
          rw [hothers k hk ha] at h
          cases h
        · exact htaker k hk
      | false =>
        refine .inr fun k hk => ?_
        by_cases ha : (crew.inner k).accepts event = true
        · exact htaker k hk ha
        · exact hothers k hk ha
    · have hsame : ∀ k, (ds' k).knows id = (ds k).knows id := fun k => (hc.agrees k id hid).1
      rcases hr.even id with hall | hnone
      · exact .inl fun k hk => by rw [hsame, hall k hk]
      · exact .inr fun k hk => by rw [hsame, hnone k hk]

end Handlers

section Crowd

variable {crew : Crew H W} {deliveries : List (Context × Event)}

theorem lawful (hlane : crew.lane.Nodup) (hd : Distinct deliveries) :
    (crew.accord deliveries).Lawful where
  refl _ _ _ _ := rfl
  trans _ _ _ _ _ _ _ h h' h0 := (h' h0).trans (h h0)
  note _ _ _ _ _ _ _ := rfl
  stable _ _ _ _ _ _ he hr := ⟨he.1, hr he.1 ▸ he.2⟩
  outside _ _ _ hs := ⟨hs, fun _ _ => rfl⟩
  call _ _ _ _ _ _ hc := by cases hc
  again n t ha i s h _ _ he := by
    obtain ⟨rfl, hr⟩ := he
    obtain ⟨d, hn, rfl⟩ := Option.map_eq_some_iff.mp ha
    have hround := hr.round hlane hd (List.mem_of_getElem? hn) n s.2 h
    exact hround.mono fun _ s' _ hr' => ⟨fun _ => hr'.spaced, rfl, hr'⟩

/-- All is at rest before the first dispatch, and between any two. -/
theorem holds_start (hlane : crew.lane.Nodup) (hd : Distinct deliveries) (w : W)
    (moves : List (Move (W → W))) :
    (crew.accord deliveries).Holds ((start w).run (crew.rules deliveries) moves) := by
  have hp := lawful hlane hd
  have hrest := crew.atRest_blank deliveries
  have hstart : (crew.accord deliveries).Holds (start w) := by
    refine Accord.Holds.gather hp hrest.spaced (fun _ => trivial) ?_
    intro i t ht h _ _ _
    obtain ⟨rfl, rfl⟩ : i = 0 ∧ t = .done 0 := by
      cases i with
      | zero => exact ⟨rfl, (Option.some.inj ht).symm⟩
      | succ i => cases ht
    exact ⟨fun _ => hrest.spaced, rfl, hrest⟩
  exact hstart.run hp moves fun _ => trivial

/-- However events are dispatched from a lane, again and again and in any order, and whichever of its handlers
fail to handle or to undo them: between any two dispatches the event with an id is remembered either by exactly
those handlers that take it, or by none. And at no time was an event handled again by a handler that had handled
it, unless it was undone in between. -/
theorem all_or_none (crew : Crew H W) (hlane : crew.lane.Nodup) (deliveries : List (Context × Event))
    (hd : Distinct deliveries) (w : W) (moves : List (Move (W → W))) :
    let c := (start w).run (crew.rules deliveries) moves
    (∀ n, c.jobs[0]? = some (.done n) → ∀ id,
      (∀ k ∈ crew.lane, (c.state.1 k).knows id = true ↔ crew.Takes deliveries k id) ∨
        ∀ k ∈ crew.lane, (c.state.1 k).knows id = false) ∧
    (∀ k past between later event t,
      (c.state.1 k).trials = past ++ .handled event true :: (between ++ t :: later) →
      t.Runs event.id → ∃ event' ok, .undone event' ok ∈ between ∧ event'.id = event.id) := by
  intro c
  have hc : (crew.accord deliveries).Holds c := holds_start hlane hd w moves
  constructor
  · intro n hn id
    have hended := hc.ended (lawful hlane hd) trivial hn
    exact hended.2.even id
  · intro k past between later event t he ht
    exact (hc.inv k).undone_between he ht

end Crowd

namespace Relapse

/-- Both handlers take every event, and go by a list of what is to succeed. -/
def crew : Crew Bool (List Bool) where
  inner _ :=
    { accepts := fun _ => true
      handle := fun _ _ => outcome
      rollback := fun _ _ => outcome }
  observe _ := return ()
  lane := [false, true]
where
  outcome : Fiber (List Bool) (Except Failure Unit) :=
    Fiber.perform fun plan => (if plan.headD true then .ok () else .error (.text "refused"), plan.tail)

def event : Event :=
  ⟨⟨.ofNat 1⟩, "noted", ⟨.ofNat 2⟩, "tally", none, 1, ⟨2024, 1, 1, 0, 0, 0, 0⟩, .null⟩

/-- One event is delivered three times. -/
def deliveries : List (Context × Event) :=
  .replicate 3 (.background, event)

theorem distinct_deliveries : Distinct deliveries := by
  intro d hd d' hd' _
  rw [List.eq_of_mem_replicate hd, List.eq_of_mem_replicate hd']

/-- The second handler fails the first time. -/
def final : Crowd (Diaries Bool × List Bool) Empty Nat :=
  (start [true, false]).run (crew.rules deliveries) (.replicate 40 (.job 0))

theorem done_final : final.jobs[0]? = some (.done 3) := by
  have hone : final.jobs[0]?.bind Told.result? = some 3 := by decide +kernel
  obtain ⟨t, ht, hr⟩ := Option.bind_eq_some_iff.mp hone
  rw [ht, Told.eq_done_of_result? hr]

theorem knows_final : ((final.state.1 true).knows event.id) = true := by
  decide +kernel

end Relapse

/-- So in the end both remember the event. -/
theorem all_or_none_after_relapse :
    Relapse.crew.lane.Nodup ∧ Distinct Relapse.deliveries ∧
      Relapse.final.jobs[0]? = some (.done 3) ∧
      (∀ k ∈ Relapse.crew.lane, (Relapse.final.state.1 k).knows Relapse.event.id = true) := by
  have hlane : Relapse.crew.lane.Nodup := by decide
  have h := all_or_none Relapse.crew hlane Relapse.deliveries Relapse.distinct_deliveries [true, false]
    (.replicate 40 (.job 0))
  have htakes : ∀ k, Relapse.crew.Takes Relapse.deliveries k Relapse.event.id :=
    fun k => ⟨(.background, Relapse.event), List.mem_replicate.mpr ⟨by decide, rfl⟩, rfl, rfl⟩
  refine ⟨hlane, Relapse.distinct_deliveries, Relapse.done_final, ?_⟩
  rcases h.1 3 Relapse.done_final Relapse.event.id with hall | hnone
  · exact fun k hk => (hall k hk).mpr (htakes k)
  · have hfalse := hnone true (by decide)
    rw [show (start [true, false]).run (Relapse.crew.rules Relapse.deliveries) (.replicate 40 (.job 0)) =
      Relapse.final from rfl, Relapse.knows_final] at hfalse
    cases hfalse

end Crew

end EventJournal
