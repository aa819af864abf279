import EventJournal.Proofs.Engine.Calls

/-!
What one job published, in the order of its deeds, and which batches came out late: those that lay in the
outbox while later changes of their stream were published.
-/
namespace EventJournal

/-- Among the deeds is one that has the property, after those before it. -/
def Happened (Q : List Deed → Deed → Prop) (deeds : List Deed) : Prop :=
  ∃ before d after, deeds = before ++ d :: after ∧ Q before d

/-- The job publishes what it stored of the stream just before. -/
def Direct (id : StreamId) (before : List Deed) (d : Deed) : Prop :=
  ∃ p es, phase before = .owes p ∧ p.id = id ∧ d = .published es

/-- The job publishes what it found in the outbox. -/
def Redelivered (p : Parcel) (before : List Deed) (d : Deed) : Prop :=
  ∃ b rest es, phase before = .carries (b :: rest) ∧ b.parcel = p ∧ d = .published es

/-- Changes of its stream were published while the parcel lay in the outbox. -/
def Overtaken (p : Parcel) (deeds : List Deed) : Prop :=
  Happened (fun before d => .kept p ∈ before ∧ Direct p.id before d) deeds

/-- Something of the stream was published from the outbox after it was overtaken. -/
def Belated (id : StreamId) (deeds : List Deed) : Prop :=
  Happened (fun before d => ∃ p, p.id = id ∧ Overtaken p before ∧ Redelivered p before d) deeds

/-- The events of a stream among those that were published. -/
def accepted (id : StreamId) (deeds : List Deed) : List Event :=
  deeds.flatMap fun
    | .published es => es.filter (·.streamId == id)
    | _ => []

variable {deeds : List Deed} {d : Deed} {id : StreamId}

@[simp] theorem not_happened_nil {Q : List Deed → Deed → Prop} : ¬ Happened Q [] := by
  rintro ⟨before, d, after, he, -⟩
  simp at he

theorem happened_concat {Q : List Deed → Deed → Prop} :
    Happened Q (deeds ++ [d]) ↔ Happened Q deeds ∨ Q deeds d := by
  constructor
  · rintro ⟨before, d', after, he, hq⟩
    rcases List.eq_nil_or_concat after with rfl | ⟨after', d'', rfl⟩
    · obtain ⟨rfl, hd⟩ := List.append_inj' he rfl
      cases hd
      exact .inr hq
    · rw [List.concat_eq_append, ← List.cons_append, ← List.append_assoc] at he
      exact .inl ⟨before, d', after', (List.append_inj' he rfl).1, hq⟩
  · rintro (⟨before, d', after, rfl, hq⟩ | hq)
    · exact ⟨before, d', after ++ [d], by simp, hq⟩
    · exact ⟨deeds, d, [], rfl, hq⟩

theorem overtaken_concat {p : Parcel} : Overtaken p (deeds ++ [d]) ↔
    Overtaken p deeds ∨ .kept p ∈ deeds ∧ Direct p.id deeds d :=
  happened_concat

theorem belated_concat : Belated id (deeds ++ [d]) ↔
    Belated id deeds ∨ ∃ p, p.id = id ∧ Overtaken p deeds ∧ Redelivered p deeds d :=
  happened_concat

@[simp] theorem accepted_nil : accepted id [] = [] := rfl

@[simp] theorem accepted_published (es : List Event) :
    accepted id (deeds ++ [.published es]) = accepted id deeds ++ es.filter (·.streamId == id) := by
  simp [accepted]

/-- All of the events are of that stream. -/
theorem accepted_published_own {es : List Event} (hes : ∀ e ∈ es, e.streamId = id) :
    accepted id (deeds ++ [.published es]) = accepted id deeds ++ es := by
  rw [accepted_published, List.filter_eq_self.mpr]
  intro e he
  rw [hes e he, beq_self_eq_true]

/-- None of the events is of that stream. -/
theorem accepted_published_other {es : List Event} {j : StreamId} (hj : j ≠ id)
    (hes : ∀ e ∈ es, e.streamId = id) :
    accepted j (deeds ++ [.published es]) = accepted j deeds := by
  rw [accepted_published, List.filter_eq_nil_iff.mpr, List.append_nil]
  intro e he hb
  rw [hes e he] at hb
  exact hj (eq_of_beq hb).symm

/-- A deed by which nothing is published. -/
def Deed.Silent (d : Deed) : Prop :=
  ∀ es, d ≠ .published es

section Silent

variable (hd : d.Silent)
include hd

theorem accepted_silent : accepted id (deeds ++ [d]) = accepted id deeds := by
  cases d with
  | published es => exact absurd rfl (hd es)
  | stored | handed | refused | kept | lost | held | acknowledged => simp [accepted]

theorem overtaken_silent {p : Parcel} : Overtaken p (deeds ++ [d]) ↔ Overtaken p deeds := by
  have hno : ¬ (.kept p ∈ deeds ∧ Direct p.id deeds d) := by
    rintro ⟨-, _, es, -, -, he⟩
    exact hd es he
  rw [overtaken_concat, or_iff_left hno]

theorem belated_silent : Belated id (deeds ++ [d]) ↔ Belated id deeds := by
  have hno : ¬ ∃ p, p.id = id ∧ Overtaken p deeds ∧ Redelivered p deeds d := by
    rintro ⟨_, -, -, _, _, es, -, -, he⟩
    exact hd es he
  rw [belated_concat, or_iff_left hno]

end Silent

section Direct

variable {p : Parcel} (hp : phase deeds = .owes p) (es : List Event)
include hp

/-- What is published directly overtakes what waits of its stream. -/
theorem overtaken_direct {q : Parcel} (hq : .kept q ∈ deeds) :
    Overtaken q (deeds ++ [.published es]) ↔ Overtaken q deeds ∨ q.id = p.id := by
  have hdirect : .kept q ∈ deeds ∧ Direct q.id deeds (.published es) ↔ q.id = p.id := by
    constructor
    · rintro ⟨-, p', _, hp', he, -⟩
      rw [hp] at hp'
      cases hp'
      exact he.symm
    · intro he
      exact ⟨hq, p, es, hp, he.symm, rfl⟩
  rw [overtaken_concat, hdirect]

theorem belated_direct : Belated id (deeds ++ [.published es]) ↔ Belated id deeds := by
  have hno : ¬ ∃ q, q.id = id ∧ Overtaken q deeds ∧ Redelivered q deeds (.published es) := by
    rintro ⟨_, -, -, b, rest, _, hc, -, -⟩
    rw [hp] at hc
    cases hc
  rw [belated_concat, or_iff_left hno]

end Direct

section Redelivered

variable {b : PendingBatch} {rest : List PendingBatch} (hb : phase deeds = .carries (b :: rest))
  (es : List Event)
include hb

theorem overtaken_redelivered {q : Parcel} :
    Overtaken q (deeds ++ [.published es]) ↔ Overtaken q deeds := by
  have hno : ¬ (.kept q ∈ deeds ∧ Direct q.id deeds (.published es)) := by
    rintro ⟨-, p, _, hp, -, -⟩
    rw [hb] at hp
    cases hp
  rw [overtaken_concat, or_iff_left hno]

/-- A stream becomes late with the redelivery of a batch that was overtaken. -/
theorem belated_redelivered :
    Belated id (deeds ++ [.published es]) ↔
      Belated id deeds ∨ id = b.streamId ∧ Overtaken b.parcel deeds := by
  have hlate : (∃ q, q.id = id ∧ Overtaken q deeds ∧ Redelivered q deeds (.published es)) ↔
      id = b.streamId ∧ Overtaken b.parcel deeds := by
    constructor
    · rintro ⟨_, rfl, ho, b', rest', _, hb', rfl, -⟩
      rw [hb] at hb'
      cases hb'
      exact ⟨rfl, ho⟩
    · rintro ⟨rfl, ho⟩
      exact ⟨b.parcel, rfl, ho, b, rest, es, hb, rfl, rfl⟩
  rw [belated_concat, hlate]

end Redelivered

/-- What was overtaken had been set aside. -/
theorem Overtaken.kept {p : Parcel} (h : Overtaken p deeds) : .kept p ∈ deeds := by
  obtain ⟨before, d, after, rfl, hk, -⟩ := h
  exact List.mem_append_left _ hk

end EventJournal
