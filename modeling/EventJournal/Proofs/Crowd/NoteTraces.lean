import EventJournal.Proofs.Crowd.Run

/-!
The traces of notes that programs leave. `Tells` relates a program to the notes that it may tell from its beginning to
its end, whatever the others do to the state meanwhile; such a trace is called a tale. A job that is started over and
over leaves one tale after the other, and at any time the beginning of the next one (`Crowd.Telling`).
-/
namespace EventJournal

open History

variable {σ ν κ τ α β : Type}

namespace Told

/-- What a program may tell and come to. Before each of its acts it may find any state. -/
inductive Tells : Told σ ν α → List ν → α → Prop
  | done (a : α) : Tells (.done a) [] a
  | act {ready : σ → Bool} {effect : σ → σ} {next : σ → Told σ ν α} {ns : List ν} {a : α} (s : σ)
      (rest : Tells (next s) ns a) : Tells (.act ready effect next) ns a
  | note {n : ν} {rest : Told σ ν α} {ns : List ν} {a : α} (told : Tells rest ns a) :
      Tells (.note n rest) (n :: ns) a

variable {t : Told σ ν α} {f : α → Told σ ν β} {ns : List ν} {a : α} {b : β}

theorem tells_pure {a' : α} (h : (pure a : Told σ ν α).Tells ns a') : ns = [] ∧ a' = a := by
  cases h
  exact ⟨rfl, rfl⟩

theorem tells_tell {n : ν} {u : Unit} (h : (tell n : Told σ ν Unit).Tells ns u) : ns = [n] := by
  obtain ⟨⟩ | ⟨⟩ | ⟨⟨⟩⟩ := h
  rfl

/-- The tale of a part comes before that of what follows on it. -/
theorem tells_bind (h : (t >>= f).Tells ns b) :
    ∃ a ms ks, t.Tells ms a ∧ (f a).Tells ks b ∧ ns = ms ++ ks := by
  change (t.bind f).Tells ns b at h
  induction t generalizing ns with
  | done a => exact ⟨a, [], ns, .done a, h, rfl⟩
  | act ready effect next ih =>
    cases h with
    | act s rest =>
      obtain ⟨a, ms, ks, hm, hk, rfl⟩ := ih s rest
      exact ⟨a, ms, ks, .act s hm, hk, rfl⟩
  | note n rest ih =>
    cases h with
    | note told =>
      obtain ⟨a, ms, ks, hm, hk, rfl⟩ := ih told
      exact ⟨a, n :: ms, ks, .note hm, hk, rfl⟩

/-- A fiber tells nothing. -/
theorem tells_ofFiber {t : Fiber σ α} (h : (ofFiber t : Told σ ν α).Tells ns a) : ns = [] := by
  induction t with
  | done b =>
    cases h
    rfl
  | act ready effect next ih =>
    cases h with
    | act s rest => exact ih s rest

/-- Every program has a tale. -/
theorem exists_tells (t : Told σ ν α) (s : σ) : ∃ ns a, t.Tells ns a := by
  induction t with
  | done a => exact ⟨[], a, .done a⟩
  | act ready effect next ih =>
    obtain ⟨ns, a, h⟩ := ih s
    exact ⟨ns, a, .act s h⟩
  | note n rest ih =>
    obtain ⟨ns, a, h⟩ := ih
    exact ⟨n :: ns, a, .note h⟩

/-- What comes before the next act is the beginning of the tale. -/
theorem Tells.heard (h : t.rest.Tells ns a) : t.Tells (t.heard ++ ns) a := by
  induction t with
  | done b => exact h
  | act ready effect next => exact h
  | note n rest ih => exact .note (ih h)

end Told

namespace Crowd

/-- Nobody tells anything for a job while it has no turn. -/
theorem own_step_of_ne (rules : Rules σ ν κ τ) {c : Crowd σ ν κ} {i : Nat} (hi : i < c.jobs.length) {m : Move τ}
    (hm : m ≠ .job i) : own i (c.step rules m).history = own i c.history := by
  cases m with
  | outside t => rfl
  | call =>
    simp only [step]
    cases rules.call c.state with
    | none => rfl
    | some call =>
      simp only [join, own_append, own_told_other (Nat.ne_of_lt hi), List.append_nil]
  | job j =>
    have hj : i ≠ j := fun hj => hm (hj ▸ rfl)
    simp only [step]
    cases c.jobs[j]? with
    | none => rfl
    | some u =>
      cases u with
      | done a =>
        simp only [turn]
        cases rules.again a with
        | none => rfl
        | some u => simp only [proceed, own_append, own_told_other hj, List.append_nil]
      | note n rest => simp only [turn, proceed, own_append, own_told_other hj, List.append_nil]
      | act ready effect next =>
        simp only [turn]
        split
        · simp only [proceed, own_append, own_told_other hj, List.append_nil]
        · rfl

/-- What a job has told: whole tales, from each of which it went on, and the beginning of one which it may still tell to
its end. -/
structure Telling (rules : Rules σ ν κ τ) (tale : List ν → κ → Prop) (i : Nat) (c : Crowd σ ν κ) : Prop where
  exists_tales : ∃ (rounds : List (List ν)) (ns : List ν) (t : Told σ ν κ), c.jobs[i]? = some t ∧
    own i c.history = rounds.flatten ++ ns ∧ (∀ r ∈ rounds, ∃ a, tale r a ∧ (rules.again a).isSome) ∧
      ∀ ms a, t.Tells ms a → tale (ns ++ ms) a

variable {rules : Rules σ ν κ τ} {tale : List ν → κ → Prop} {i : Nat} {c : Crowd σ ν κ}

/-- A job goes on with what it tells. -/
theorem Telling.proceed (rounds : List (List ν)) (ns : List ν) {t u : Told σ ν κ} {s : σ}
    (hi : c.jobs[i]? = some u) (hown : own i c.history = rounds.flatten ++ ns)
    (hrounds : ∀ r ∈ rounds, ∃ a, tale r a ∧ (rules.again a).isSome)
    (ht : ∀ ms a, t.Tells ms a → tale (ns ++ ms) a) :
    (Crowd.proceed { c with state := s } i t).Telling rules tale i := by
  have hlt : i < c.jobs.length := (List.getElem?_eq_some_iff.mp hi).1
  refine ⟨rounds, ns ++ t.heard, t.rest, List.getElem?_set_self hlt, ?_, hrounds, ?_⟩
  · rw [Crowd.proceed, own_append, own_told, hown, List.append_assoc]
  · intro ms a hms
    rw [List.append_assoc]
    exact ht _ a hms.heard

theorem Telling.step (hwatch : ∀ s s', rules.watch s s' = [])
    (hagain : ∀ r a t, tale r a → rules.again a = some t → ∀ ms b, t.Tells ms b → tale ms b)
    (hc : c.Telling rules tale i) (m : Move τ) : (c.step rules m).Telling rules tale i := by
  obtain ⟨rounds, ns, t, hi, hown, hrounds, ht⟩ := hc
  have hstay : ∀ {c' : Crowd σ ν κ}, c'.jobs[i]? = some t → own i c'.history = own i c.history →
      c'.Telling rules tale i := by
    intro c' hi' hown'
    exact ⟨rounds, ns, t, hi', hown'.trans hown, hrounds, ht⟩
  by_cases hm : m = .job i
  · subst hm
    simp only [Crowd.step, hi]
    cases t with
    | done a =>
      simp only [Crowd.turn]
      cases ha : rules.again a with
      | none => exact hstay hi rfl
      | some u =>
        -- a tale has come to its end, and the next one begins
        have hend : tale ns a := by simpa using ht [] a (.done a)
        refine Telling.proceed (s := c.state) (rounds ++ [ns]) [] hi ?_ ?_ ?_
        · rw [hown, List.flatten_append]
          simp
        · intro r hr
          rcases List.mem_append.mp hr with hr | hr
          · exact hrounds r hr
          · exact ⟨a, List.mem_singleton.mp hr ▸ hend, Option.isSome_of_eq_some ha⟩
        · exact hagain ns a u hend ha
    | note n rest =>
      refine Telling.proceed (s := c.state) rounds ns hi hown hrounds ?_
      exact ht
    | act ready effect next =>
      simp only [Crowd.turn]
      by_cases hr : ready c.state = true
      · rw [if_pos hr, hwatch, append_told_nil]
        exact Telling.proceed rounds ns hi hown hrounds fun ms a hms => ht ms a (.act c.state hms)
      · rw [if_neg hr]
        exact hstay hi rfl
  · exact hstay (getElem?_step_of_ne rules hi hm)
      (own_step_of_ne rules (List.getElem?_eq_some_iff.mp hi).1 hm)

/-- Whatever happens besides, a job tells its tales. -/
theorem Telling.run (hwatch : ∀ s s', rules.watch s s' = [])
    (hagain : ∀ r a t, tale r a → rules.again a = some t → ∀ ms b, t.Tells ms b → tale ms b)
    (hc : c.Telling rules tale i) (moves : List (Move τ)) : (c.run rules moves).Telling rules tale i := by
  induction moves generalizing c with
  | nil => exact hc
  | cons m moves ih => exact ih (hc.step hwatch hagain m)

theorem telling_gather {t : Told σ ν κ} (state : σ) (ht : ∀ ms a, t.Tells ms a → tale ms a) :
    (gather state [t]).Telling rules tale 0 where
  exists_tales := ⟨[], t.heard, t.rest, rfl, own_told t.heard, by simp, fun ms a hms => ht _ a hms.heard⟩

/-- At any time it has told whole tales, from each of which it went on, and the beginning of one more or, if it has
ended, all of it. -/
theorem Telling.tales (hc : c.Telling rules tale i) :
    ∃ (rounds : List (List ν)) (ns more : List ν), own i c.history = rounds.flatten ++ ns ∧
      (∀ r ∈ rounds, ∃ a, tale r a ∧ (rules.again a).isSome) ∧ (∃ a, tale (ns ++ more) a) ∧
        ∀ a, c.jobs[i]? = some (.done a) → more = [] := by
  obtain ⟨rounds, ns, t, hi, hown, hrounds, ht⟩ := hc
  by_cases hdone : ∃ a, t = .done a
  · obtain ⟨a, rfl⟩ := hdone
    exact ⟨rounds, ns, [], hown, hrounds, ⟨a, ht [] a (.done a)⟩, fun _ _ => rfl⟩
  · obtain ⟨more, a, hmore⟩ := t.exists_tells c.state
    refine ⟨rounds, ns, more, hown, hrounds, ⟨a, ht more a hmore⟩, fun b hb => ?_⟩
    rw [hi, Option.some.injEq] at hb
    exact absurd ⟨b, hb⟩ hdone

end Crowd

end EventJournal
