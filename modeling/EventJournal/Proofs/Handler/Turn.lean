import EventJournal.Proofs.Handler.Register

/-!
One dispatch to a lane on which some handlers run once per event. A handler that knew the event before is called
on only to undo it, and that exactly if a handler behind it fails. If none fails, whoever runs once per event and
takes this one knows it in the end.
-/
namespace EventJournal.Lineup

open Keeper

variable {H W : Type}

section Memory

variable [DecidableEq H]

/-- A handler that runs once per event remembers it. -/
def held (lineup : Lineup H W) (k : H) (event : Event) (reg : Register H) : Register H :=
  if lineup.once k then reg.revise k (·.add event) else reg

/-- A handler that runs once per event forgets it. -/
def dropped (lineup : Lineup H W) (k : H) (event : Event) (reg : Register H) : Register H :=
  if lineup.once k then reg.revise k (·.forget event) else reg

variable {lineup : Lineup H W} {reg : Register H} {k j : H} {event : Event} {id : EventId}

@[simp] theorem page_held : (lineup.held k event reg).page = reg.page := by
  rw [held]
  split
  · rfl
  · rfl

@[simp] theorem page_dropped : (lineup.dropped k event reg).page = reg.page := by
  rw [dropped]
  split
  · rfl
  · rfl

theorem knows_held_self (hk : lineup.once k = true) : (lineup.held k event reg).knows k event.id = true := by
  rw [held, if_pos hk, Register.knows_revise_self]
  exact Seen.contains_add _ event

theorem knows_held_of_ne (hid : id ≠ event.id) : (lineup.held k event reg).knows j id = reg.knows j id := by
  rw [held]
  split
  · exact Register.knows_revise_of_same (Seen.contains_add_of_ne hid)
  · rfl

/-- Whoever knows an event still knows it when another remembers it. -/
theorem knows_held (h : reg.knows j event.id = true) : (lineup.held k event reg).knows j event.id = true := by
  by_cases hk : lineup.once k = true
  · by_cases hj : j = k
    · subst hj
      exact knows_held_self hk
    · rw [held, if_pos hk, Register.knows_revise_of_ne hj]
      exact h
  · rw [held, if_neg hk]
    exact h

theorem knows_dropped (h : j ≠ k ∨ id ≠ event.id) :
    (lineup.dropped k event reg).knows j id = reg.knows j id := by
  rw [dropped]
  split
  · by_cases hj : j = k
    · have hid : id ≠ event.id := h.resolve_left fun h => h hj
      exact Register.knows_revise_of_same (Seen.contains_forget_of_ne hid)
    · exact Register.knows_revise_of_ne hj
  · rfl

end Memory

section Calls

variable [DecidableEq H] {lineup : Lineup H W} {keeper : Keeper (Register H) W Nat} {n : Nat} {ctx : Context}
  {event : Event} {reg : Register H} {k : H} {post : Except Failure Unit → Register H → Prop}

/-- A handler has nothing to do with an event that it knows already. -/
def Skips (lineup : Lineup H W) (reg : Register H) (k : H) (event : Event) : Prop :=
  lineup.once k = true ∧ reg.knows k event.id = true

/-- A handler that does not skip the event calls on its inner handler, and remembers the event if that
succeeds. -/
theorem makes_handle (hi : keeper.inv reg) (hskip : lineup.Skips reg k event → post (.ok ()) reg)
    (hcalled : ¬ lineup.Skips reg k event → keeper.inv (reg.write n (.called k false)) ∧
      (∀ e, post (.error e) (reg.write n (.called k false))) ∧
      post (.ok ()) (lineup.held k event (reg.write n (.called k false)))) :
    keeper.Makes post ((lineup.handler n k).handle ctx event) reg := by
  by_cases hk : lineup.once k = true
  · rw [handler, if_pos hk]
    simp only [Handler.once, Memory.inCell, memory, Cell.read, ExceptT.run_bind, ExceptT.run_mk]
    apply Makes.bind
    apply makes_act hi
    rw [Function.update_eq_self]
    by_cases hknows : reg.knows k event.id = true
    · simp only [show (reg.seen k).contains event.id = true from hknows, if_true]
      exact makes_pure (hskip ⟨hk, hknows⟩)
    · obtain ⟨hinv, herror, hok⟩ := hcalled fun h => hknows h.2
      rw [Bool.not_eq_true] at hknows
      simp only [show (reg.seen k).contains event.id = false from hknows, Bool.false_eq_true, if_false,
        ExceptT.run_bind, ExceptT.run_mk]
      apply Makes.bind
      apply Makes.bind
      apply makes_modify hi
      apply makes_beside hinv
      intro result
      cases result with
      | error e => exact makes_pure (herror e)
      | ok u =>
        rw [held, if_pos hk] at hok
        exact makes_act hinv hok
  · rw [handler, if_neg hk]
    obtain ⟨hinv, herror, hok⟩ := hcalled fun h => hk h.1
    rw [held, if_neg hk] at hok
    apply Makes.bind
    apply makes_modify hi
    apply makes_beside hinv
    intro result
    cases result with
    | error e => exact herror e
    | ok u => exact hok

/-- A handler forgets the event before its inner handler is called on to undo it. -/
theorem makes_rollback (hi : keeper.inv reg) (hdropped : keeper.inv (lineup.dropped k event reg))
    (hcalled : keeper.inv ((lineup.dropped k event reg).write n (.called k true)))
    (hpost : ∀ r, post r ((lineup.dropped k event reg).write n (.called k true))) :
    keeper.Makes post ((lineup.handler n k).rollback ctx event) reg := by
  by_cases hk : lineup.once k = true
  · rw [dropped, if_pos hk] at hdropped hcalled hpost
    rw [handler, if_pos hk]
    simp only [Handler.once, Memory.inCell, memory, ExceptT.run_bind, ExceptT.run_mk]
    apply Makes.bind
    apply makes_act hi
    apply Makes.bind
    apply makes_modify hdropped
    exact makes_beside hcalled hpost
  · rw [dropped, if_neg hk] at hdropped hcalled hpost
    rw [handler, if_neg hk]
    apply Makes.bind
    apply makes_modify hi
    exact makes_beside hcalled hpost

omit [DecidableEq H] in
theorem makes_observing {e : DispatchError} {post : Unit → Register H → Prop} (hi : keeper.inv reg)
    (hfailed : keeper.inv (reg.write n (.failed e))) (hpost : post () (reg.write n (.failed e))) :
    keeper.Makes post (lineup.observing n e) reg := by
  apply Makes.bind
  apply makes_modify hi
  exact makes_beside hfailed fun _ => hpost

end Calls

section Dispatch

variable {lineup : Lineup H W} {deliveries : List (Context × Event)} {n : Nat} {ctx : Context}
  {event : Event} {reg₀ reg : Register H}

/-- What is touched by a dispatch: its own page, and what is remembered of its event. -/
structure Confined (n : Nat) (event : Event) (reg₀ reg : Register H) : Prop where
  page : ∀ m, m ≠ n → reg.page m = reg₀.page m
  knows : ∀ k id, id ≠ event.id → reg.knows k id = reg₀.knows k id

/-- A handler that knew the event is called on only if there was a failure behind it. -/
def Excused (lineup : Lineup H W) (n : Nat) (event : Event) (reg₀ reg : Register H) : Prop :=
  ∀ k, lineup.Skips reg₀ k event → reg.Called n k → lineup.FailedBehind reg n event k

/-- No handler has failed as yet. -/
structure Onward (lineup : Lineup H W) (n : Nat) (event : Event) (ran : List (Nat × H))
    (reg₀ reg : Register H) : Prop extends Confined n event reg₀ reg where
  sound : ∀ e, .failed e ∉ reg.page n
  calm : ∀ k, lineup.Skips reg₀ k event → lineup.Skips reg k event ∧ ¬ reg.Called n k
  ran : ∀ p ∈ ran, lineup.once p.2 = true → reg.knows p.2 event.id = true

/-- The handler at a place has failed, and some are undone already. -/
structure Undoing (lineup : Lineup H W) (n : Nat) (event : Event) (place : Nat) (undone : List H)
    (reg₀ reg : Register H) : Prop extends Confined n event reg₀ reg where
  failed : ∃ e, .failed e ∈ reg.page n ∧ e.isRollback = false ∧ e.index = place
  once : ∀ e, .failed e ∈ reg.page n → e.isRollback = false → e.index = place
  called_iff : ∀ k, lineup.Skips reg₀ k event → (reg.Called n k ↔ k ∈ undone)
  skips : ∀ k, lineup.Skips reg₀ k event → k ∉ undone → lineup.Skips reg k event

/-- A dispatch is through with its event. -/
structure Turned (lineup : Lineup H W) (n : Nat) (event : Event) (reg₀ reg : Register H) : Prop
    extends Confined n event reg₀ reg where
  called_iff : ∀ k, lineup.Skips reg₀ k event → (reg.Called n k ↔ lineup.FailedBehind reg n event k)
  skips : ∀ k, lineup.Skips reg₀ k event → ¬ reg.Called n k → lineup.Skips reg k event
  passed : (∀ e, .failed e ∈ reg.page n → e.isRollback = true) →
    ∀ k ∈ lineup.lane, (lineup.inner k).accepts event = true → lineup.once k = true →
      reg.knows k event.id = true

theorem Confined.write (h : Confined n event reg₀ reg) (r : Remark H) :
    Confined n event reg₀ (reg.write n r) where
  page m hm := (Register.page_write_of_ne hm).trans (h.page m hm)
  knows := h.knows

theorem Onward.excused {ran : List (Nat × H)} (h : lineup.Onward n event ran reg₀ reg) :
    lineup.Excused n event reg₀ reg :=
  fun k hk hc => absurd hc (h.calm k hk).2

theorem Undoing.failedBehind_iff {place : Nat} {undone : List H} {k : H}
    (h : lineup.Undoing n event place undone reg₀ reg) :
    lineup.FailedBehind reg n event k ↔ lineup.Ahead event k place := by
  constructor
  · rintro ⟨e, he, hr, hahead⟩
    rwa [h.once e he hr] at hahead
  · intro hahead
    obtain ⟨e, he, hr, rfl⟩ := h.failed
    exact ⟨e, he, hr, hahead⟩

theorem Undoing.excused {place : Nat} {undone : List H} (h : lineup.Undoing n event place undone reg₀ reg)
    (hu : ∀ k ∈ undone, lineup.Skips reg₀ k event → lineup.Ahead event k place) :
    lineup.Excused n event reg₀ reg :=
  fun k hk hc => h.failedBehind_iff.mpr (hu k ((h.called_iff k hk).mp hc) hk)

theorem Onward.start (lineup : Lineup H W) (event : Event) (hpage : reg₀.page n = []) :
    lineup.Onward n event [] reg₀ reg₀ where
  page _ _ := rfl
  knows _ _ _ := rfl
  sound e he := by simp [hpage] at he
  calm k hk := by
    refine ⟨hk, ?_⟩
    rintro ⟨u, hu⟩
    simp [hpage] at hu
  ran p hp := by cases hp

/-- A handler that does not know the event may be called on. -/
theorem Onward.call {ran : List (Nat × H)} (h : lineup.Onward n event ran reg₀ reg) {k : H}
    (hk : ¬ lineup.Skips reg k event) :
    lineup.Onward n event ran reg₀ (reg.write n (.called k false)) where
  toConfined := h.toConfined.write _
  sound e he := by
    rcases Register.mem_page_write.mp he with he | he
    · exact h.sound e he
    · cases he
  calm j hj := by
    obtain ⟨hskips, hcalled⟩ := h.calm j hj
    refine ⟨hskips, ?_⟩
    rw [Register.called_write_called]
    rintro (hc | rfl)
    · exact hcalled hc
    · exact hk hskips
  ran := h.ran

theorem Onward.skip {ran : List (Nat × H)} (h : lineup.Onward n event ran reg₀ reg) (place : Nat) {k : H}
    (hk : lineup.Skips reg k event) : lineup.Onward n event ((place, k) :: ran) reg₀ reg where
  toConfined := h.toConfined
  sound := h.sound
  calm := h.calm
  ran p hp hp' := by
    rcases List.mem_cons.mp hp with rfl | hp
    · exact hk.2
    · exact h.ran p hp hp'

/-- A failure ends the way onward. -/
theorem Onward.fail {ran : List (Nat × H)} (h : lineup.Onward n event ran reg₀ reg) (place : Nat)
    (source : Failure) :
    lineup.Undoing n event place [] reg₀ (reg.write n (.failed ⟨place, false, event, source⟩)) where
  toConfined := h.toConfined.write _
  failed := ⟨_, Register.mem_page_write.mpr (.inr rfl), rfl, rfl⟩
  once e he _ := by
    rcases Register.mem_page_write.mp he with he | he
    · exact absurd he (h.sound e)
    · cases he
      rfl
  called_iff k hk := by
    rw [Register.called_write_of_not_called (by simp)]
    exact iff_of_false (h.calm k hk).2 List.not_mem_nil
  skips k hk _ := (h.calm k hk).1

/-- A failure to undo is observed, and changes nothing else. -/
theorem Undoing.observe {place : Nat} {undone : List H} (h : lineup.Undoing n event place undone reg₀ reg)
    {e : DispatchError} (he : e.isRollback = true) :
    lineup.Undoing n event place undone reg₀ (reg.write n (.failed e)) where
  toConfined := h.toConfined.write _
  failed := by
    obtain ⟨e', he', hr, hp⟩ := h.failed
    exact ⟨e', Register.mem_page_write.mpr (.inl he'), hr, hp⟩
  once e' he' hr := by
    rcases Register.mem_page_write.mp he' with he' | he'
    · exact h.once e' he' hr
    · cases he'
      rw [he] at hr
      cases hr
  called_iff k hk := by
    rw [Register.called_write_of_not_called (by simp)]
    exact h.called_iff k hk
  skips := h.skips

/-- When all handlers have run, the dispatch is through. -/
theorem Onward.turned {ran : List (Nat × H)} (h : lineup.Onward n event ran reg₀ reg)
    (hall : lineup.takers event = ran.reverse) : lineup.Turned n event reg₀ reg where
  toConfined := h.toConfined
  called_iff k hk := by
    refine iff_of_false (h.calm k hk).2 ?_
    rintro ⟨e, he, -⟩
    exact h.sound e he
  skips k hk _ := (h.calm k hk).1
  passed _ k hk haccepts honce := by
    obtain ⟨i, hi, hik⟩ := List.mem_iff_getElem.mp hk
    have hin : (i, k) ∈ lineup.takers event := mem_takers.mpr ⟨List.getElem?_eq_some_iff.mpr ⟨hi, hik⟩, haccepts⟩
    rw [hall, List.mem_reverse] at hin
    exact h.ran _ hin honce

/-- When those are undone that are ahead of the one that failed, the dispatch is through. -/
theorem Undoing.turned {place : Nat} {undone : List H} (h : lineup.Undoing n event place undone reg₀ reg)
    (hundone : ∀ k, lineup.Skips reg₀ k event → (k ∈ undone ↔ lineup.Ahead event k place)) :
    lineup.Turned n event reg₀ reg where
  toConfined := h.toConfined
  called_iff k hk := by rw [h.called_iff k hk, hundone k hk, h.failedBehind_iff]
  skips k hk hc := h.skips k hk fun hm => hc ((h.called_iff k hk).mpr hm)
  passed hnever := by
    obtain ⟨e, he, hr, -⟩ := h.failed
    rw [hnever e he] at hr
    cases hr

variable [DecidableEq H]

/-- A handler that succeeded remembers the event, if it runs once per event. -/
theorem Onward.hold {ran : List (Nat × H)} (h : lineup.Onward n event ran reg₀ reg) (place : Nat) (k : H) :
    lineup.Onward n event ((place, k) :: ran) reg₀ (lineup.held k event reg) where
  page m hm := by rw [page_held, h.page m hm]
  knows j id hid := (knows_held_of_ne hid).trans (h.knows j id hid)
  sound e := by
    rw [page_held]
    exact h.sound e
  calm j hj := by
    obtain ⟨hskips, hcalled⟩ := h.calm j hj
    refine ⟨⟨hskips.1, knows_held hskips.2⟩, ?_⟩
    rwa [Register.Called, page_held]
  ran p hp hp' := by
    rcases List.mem_cons.mp hp with rfl | hp
    · exact knows_held_self hp'
    · exact knows_held (h.ran p hp hp')

/-- Whoever is undone is called on, and may have forgotten the event. -/
theorem Undoing.drop {place : Nat} {undone : List H} (h : lineup.Undoing n event place undone reg₀ reg)
    (k : H) :
    lineup.Undoing n event place (k :: undone) reg₀
      ((lineup.dropped k event reg).write n (.called k true)) where
  page m hm := by rw [Register.page_write_of_ne hm, page_dropped, h.page m hm]
  knows j id hid := (knows_dropped (.inr hid)).trans (h.knows j id hid)
  failed := by
    obtain ⟨e, he, hr, hp⟩ := h.failed
    refine ⟨e, Register.mem_page_write.mpr (.inl ?_), hr, hp⟩
    rwa [page_dropped]
  once e he hr := by
    rcases Register.mem_page_write.mp he with he | he
    · rw [page_dropped] at he
      exact h.once e he hr
    · cases he
  called_iff j hj := by
    rw [Register.called_write_called, Register.Called, page_dropped, List.mem_cons, ← h.called_iff j hj]
    exact or_comm
  skips j hj hm := by
    obtain ⟨hne, hm⟩ := List.ne_and_not_mem_of_not_mem_cons hm
    obtain ⟨honce, hknows⟩ := h.skips j hj hm
    exact ⟨honce, (knows_dropped (.inl hne)).trans hknows⟩

variable {keeper : Keeper (Register H) W Nat}
  (hinv : ∀ reg, Confined n event reg₀ reg → lineup.Excused n event reg₀ reg → keeper.inv reg)
  (hpage : ∀ reg reg', reg'.page = reg.page → keeper.inv reg → keeper.inv reg')
include hinv hpage

/-- Those that ran are undone one after the other. -/
theorem makes_undo {place : Nat} {undone : List H} (h : lineup.Undoing n event place undone reg₀ reg)
    (ps : List (Nat × H))
    (hu : ∀ k ∈ undone, lineup.Skips reg₀ k event → lineup.Ahead event k place)
    (hps : ∀ p ∈ ps, lineup.Skips reg₀ p.2 event → lineup.Ahead event p.2 place) :
    keeper.Makes (fun _ reg => lineup.Undoing n event place ((ps.map Prod.snd).reverse ++ undone) reg₀ reg)
      (Dispatch.undo (lineup.observing n) ctx event (lineup.placed n ps)) reg := by
  induction ps generalizing reg undone with
  | nil => exact makes_pure h
  | cons p rest ih =>
    obtain ⟨i, k⟩ := p
    have hi : keeper.inv reg := hinv reg h.toConfined (h.excused hu)
    have hdrop := h.drop k
    have hu' : ∀ j ∈ k :: undone, lineup.Skips reg₀ j event → lineup.Ahead event j place := by
      intro j hj
      rcases List.mem_cons.mp hj with rfl | hj
      · exact hps _ List.mem_cons_self
      · exact hu j hj
    have hi' := hinv _ hdrop.toConfined (hdrop.excused hu')
    apply Makes.bind
    apply makes_rollback hi (hpage _ _ page_dropped hi) hi'
    have hrest : ∀ {reg}, lineup.Undoing n event place (k :: undone) reg₀ reg →
        keeper.Makes (fun _ reg => lineup.Undoing n event place
          ((((i, k) :: rest).map Prod.snd).reverse ++ undone) reg₀ reg)
          (Dispatch.undo (lineup.observing n) ctx event (lineup.placed n rest)) reg := by
      intro reg hreg
      have := ih hreg hu' fun p hp => hps p (List.mem_cons_of_mem _ hp)
      simpa using this
    intro r
    cases r with
    | ok u => exact hrest hdrop
    | error source =>
      have hobserved := hdrop.observe (e := ⟨i, true, event, source⟩) rfl
      apply Makes.bind
      apply makes_observing hi'
      · exact hinv _ hobserved.toConfined (hobserved.excused hu')
      · exact hrest hobserved

/-- After all handlers have run, or after those that ran before a failure are undone, the dispatch is through. -/
theorem makes_run {ran rest : List (Nat × H)} (h : lineup.Onward n event ran reg₀ reg)
    (hall : lineup.takers event = ran.reverse ++ rest) :
    keeper.Makes (fun _ reg => lineup.Turned n event reg₀ reg)
      (Dispatch.run (lineup.observing n) ctx event (lineup.placed n ran) (lineup.placed n rest)) reg := by
  induction rest generalizing reg ran with
  | nil =>
    rw [List.append_nil] at hall
    exact makes_pure (h.turned hall)
  | cons p rest ih =>
    obtain ⟨place, k⟩ := p
    have hi : keeper.inv reg := hinv reg h.toConfined h.excused
    have hall' : lineup.takers event = ((place, k) :: ran).reverse ++ rest := by
      rw [hall]
      simp
    apply Makes.bind
    apply makes_handle hi
    · exact fun hk => ih (h.skip place hk) hall'
    · intro hk
      have hcalled := h.call hk
      have hi' := hinv _ hcalled.toConfined hcalled.excused
      refine ⟨hi', ?_, ih (hcalled.hold place k) hall'⟩
      intro source
      have hfailed := hcalled.fail place source
      have hnone : ∀ j ∈ ([] : List H), lineup.Skips reg₀ j event → lineup.Ahead event j place :=
        fun j hj => by cases hj
      apply Makes.bind
      apply makes_observing hi' (hinv _ hfailed.toConfined (hfailed.excused hnone))
      -- the handler that failed did not know the event before either
      have hundone : ∀ j, lineup.Skips reg₀ j event →
          (j ∈ ((((place, k) :: ran).map Prod.snd).reverse ++ []) ↔ lineup.Ahead event j place) := by
        intro j hj
        rw [← exists_mem_before_iff hall]
        have hne : j ≠ k := fun he => hk (he ▸ (h.calm j hj).1)
        simp [hne]
      have hran : ∀ p ∈ (place, k) :: ran, lineup.Skips reg₀ p.2 event → lineup.Ahead event p.2 place := by
        intro p hp hskips
        rw [← hundone p.2 hskips]
        simp only [List.append_nil, List.mem_reverse]
        exact List.mem_map_of_mem hp
      exact (makes_undo hinv hpage hfailed ((place, k) :: ran) hnone hran).mono fun _ _ h => h.turned hundone

end Dispatch

end EventJournal.Lineup
