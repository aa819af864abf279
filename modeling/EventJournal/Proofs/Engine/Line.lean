import EventJournal.Outbox

/-!
Order among published and waiting events. Events of a stream come out in the order of their versions
until a waiting batch that was overtaken comes out after all.
-/
namespace EventJournal

/-- All of the first events have lower versions than all of the second. -/
def Event.Before (xs ys : List Event) : Prop :=
  ∀ x ∈ xs, ∀ y ∈ ys, x.version < y.version

/-- The versions of the events rise. -/
def Event.Rising (events : List Event) : Prop :=
  events.Pairwise fun x y => x.version < y.version

namespace Event

theorem rising_append {xs ys : List Event} :
    Rising (xs ++ ys) ↔ Rising xs ∧ Rising ys ∧ Before xs ys :=
  List.pairwise_append

theorem Rising.map_version {events : List Event} (h : Rising events) :
    (events.map Event.version).Pairwise (· < ·) :=
  List.pairwise_map.mpr h

theorem Rising.nodup {events : List Event} (h : Rising events) : (events.map Event.version).Nodup :=
  h.map_version.imp fun hlt => Nat.ne_of_lt hlt

end Event

open Event

/-- What came out of each stream so far, and the batches that are left to come, the next one first. Of
those some were overtaken; a stream is late if such a batch of it came out. -/
structure Line (out : StreamId → List Event) (left : List PendingBatch) (overtaken : PendingBatch → Prop)
    (late : StreamId → Prop) : Prop where
  nonempty : ∀ b ∈ left, b.events ≠ []
  rising : ∀ b ∈ left, Rising b.events
  lined : left.Pairwise fun b c => b.streamId = c.streamId → Before b.events c.events
  ahead : ∀ b ∈ left, ¬ overtaken b → Before (out b.streamId) b.events
  behind : ∀ b ∈ left, overtaken b → ∃ e ∈ out b.streamId, ∀ x ∈ b.events, x.version < e.version
  apart : ∀ b ∈ left, ∀ e ∈ out b.streamId, ∀ x ∈ b.events, e.version ≠ x.version
  nodup : ∀ id, ((out id).map Event.version).Nodup
  rising_iff : ∀ id, Rising (out id) ↔ ¬ late id

namespace Line

variable {out out' : StreamId → List Event} {left : List PendingBatch}
  {overtaken overtaken' : PendingBatch → Prop} {late late' : StreamId → Prop}

/-- One stream goes on with events of higher versions. -/
theorem nodup_append {xs ys : List Event} (hx : (xs.map Event.version).Nodup) (hy : Rising ys)
    (hd : ∀ x ∈ xs, ∀ y ∈ ys, x.version ≠ y.version) : ((xs ++ ys).map Event.version).Nodup := by
  rw [List.map_append, List.nodup_append]
  refine ⟨hx, hy.nodup, ?_⟩
  intro v hv w hw
  obtain ⟨x, hxs, rfl⟩ := List.mem_map.mp hv
  obtain ⟨y, hys, rfl⟩ := List.mem_map.mp hw
  exact hd x hxs y hys

/-- Events come out that are later than all others of their stream. They overtake the waiting ones. -/
theorem pass (h : Line out left overtaken late) {id : StreamId} {es : List Event} (hne : es ≠ [])
    (hr : Rising es) (hout : Before (out id) es)
    (hleft : ∀ b ∈ left, b.streamId = id → Before b.events es) (hid : out' id = out id ++ es)
    (hother : ∀ j, j ≠ id → out' j = out j)
    (hover : ∀ b ∈ left, overtaken' b ↔ overtaken b ∨ b.streamId = id) :
    Line out' left overtaken' late where
  nonempty := h.nonempty
  rising := h.rising
  lined := h.lined
  ahead b hb ho := by
    rw [hover b hb, not_or] at ho
    rw [hother _ ho.2]
    exact h.ahead b hb ho.1
  behind b hb ho := by
    by_cases hj : b.streamId = id
    · obtain ⟨e, he⟩ := List.exists_mem_of_ne_nil es hne
      refine ⟨e, ?_, fun x hx => hleft b hb hj x hx e he⟩
      rw [hj, hid]
      exact List.mem_append_right _ he
    · rw [hother _ hj]
      exact h.behind b hb (((hover b hb).mp ho).resolve_right hj)
  apart b hb e he x hx := by
    by_cases hj : b.streamId = id
    · rw [hj, hid] at he
      rcases List.mem_append.mp he with he | he
      · exact h.apart b hb e (by rwa [hj]) x hx
      · exact Nat.ne_of_gt (hleft b hb hj x hx e he)
    · rw [hother _ hj] at he
      exact h.apart b hb e he x hx
  nodup j := by
    by_cases hj : j = id
    · rw [hj, hid]
      exact nodup_append (h.nodup id) hr fun x hx y hy => Nat.ne_of_lt (hout x hx y hy)
    · rw [hother j hj]
      exact h.nodup j
  rising_iff j := by
    by_cases hj : j = id
    · rw [hj, hid, rising_append, h.rising_iff]
      exact ⟨fun hs => hs.1, fun hs => ⟨hs, hr, hout⟩⟩
    · rw [hother j hj]
      exact h.rising_iff j

/-- With the next waiting batch behind it, a stream rises on unless the batch was overtaken. -/
theorem rising_append_iff {b : PendingBatch} (h : Line out (b :: left) overtaken late) :
    Rising (out b.streamId ++ b.events) ↔ ¬ late b.streamId ∧ ¬ overtaken b := by
  have hb : b ∈ b :: left := List.mem_cons_self
  rw [rising_append, h.rising_iff]
  constructor
  · rintro ⟨hl, -, hbefore⟩
    constructor
    · exact hl
    · intro ho
      -- the overtaken batch stands behind an event that came out before it
      obtain ⟨e, he, hlt⟩ := h.behind b hb ho
      obtain ⟨x, hx⟩ := List.exists_mem_of_ne_nil b.events (h.nonempty b hb)
      exact Nat.lt_asymm (hlt x hx) (hbefore e he x hx)
  · rintro ⟨hl, ho⟩
    exact ⟨hl, h.rising b hb, h.ahead b hb ho⟩

/-- The next waiting batch comes out. Its stream is late if the batch was overtaken. -/
theorem next {b : PendingBatch} (h : Line out (b :: left) overtaken late)
    (hid : out' b.streamId = out b.streamId ++ b.events)
    (hother : ∀ j, j ≠ b.streamId → out' j = out j)
    (hover : ∀ c ∈ left, overtaken' c ↔ overtaken c)
    (hlate : ∀ j, late' j ↔ late j ∨ j = b.streamId ∧ overtaken b) :
    Line out' left overtaken' late' := by
  have hb : b ∈ b :: left := List.mem_cons_self
  have htail : ∀ c ∈ left, c ∈ b :: left := fun c hc => List.mem_cons_of_mem b hc
  have hfirst : ∀ c ∈ left, b.streamId = c.streamId → Before b.events c.events :=
    (List.pairwise_cons.mp h.lined).1
  exact {
    nonempty := fun c hc => h.nonempty c (htail c hc)
    rising := fun c hc => h.rising c (htail c hc)
    lined := (List.pairwise_cons.mp h.lined).2
    ahead := by
      intro c hc ho
      have hold := h.ahead c (htail c hc) (fun hc' => ho ((hover c hc).mpr hc'))
      by_cases hj : c.streamId = b.streamId
      · rw [hj, hid]
        intro x hx y hy
        rcases List.mem_append.mp hx with hx | hx
        · exact hold x (by rwa [hj]) y hy
        · exact hfirst c hc hj.symm x hx y hy
      · rw [hother _ hj]
        exact hold
    behind := by
      intro c hc ho
      obtain ⟨e, he, hlt⟩ := h.behind c (htail c hc) ((hover c hc).mp ho)
      have he' : e ∈ out' c.streamId := by
        by_cases hj : c.streamId = b.streamId
        · rw [hj] at he ⊢
          rw [hid]
          exact List.mem_append_left _ he
        · rw [hother _ hj]
          exact he
      exact ⟨e, he', hlt⟩
    apart := by
      intro c hc e he x hx
      by_cases hj : c.streamId = b.streamId
      · rw [hj, hid] at he
        rcases List.mem_append.mp he with he | he
        · exact h.apart c (htail c hc) e (by rwa [hj]) x hx
        · exact Nat.ne_of_lt (hfirst c hc hj.symm e he x hx)
      · rw [hother _ hj] at he
        exact h.apart c (htail c hc) e he x hx
    nodup := by
      intro j
      by_cases hj : j = b.streamId
      · rw [hj, hid]
        exact nodup_append (h.nodup _) (h.rising b hb) (h.apart b hb)
      · rw [hother j hj]
        exact h.nodup j
    rising_iff := by
      intro j
      by_cases hj : j = b.streamId
      · rw [hj, hid, hlate, h.rising_append_iff, not_or]
        exact and_congr_right fun _ => not_congr ⟨fun ho => ⟨rfl, ho⟩, fun ho => ho.2⟩
      · rw [hother j hj, h.rising_iff, hlate]
        exact not_congr ⟨.inl, fun hl => hl.resolve_right fun hb' => hj hb'.1⟩ }

/-- A batch later than all others of its stream joins those that wait. -/
theorem join (h : Line out left overtaken late) {b : PendingBatch} (hne : b.events ≠ [])
    (hr : Rising b.events) (hout : Before (out b.streamId) b.events)
    (hleft : ∀ c ∈ left, c.streamId = b.streamId → Before c.events b.events) (ho : ¬ overtaken b) :
    Line out (left ++ [b]) overtaken late := by
  have hall : ∀ {p : PendingBatch → Prop}, (∀ c ∈ left, p c) → p b → ∀ c ∈ left ++ [b], p c := by
    intro p hl hb c hc
    rcases List.mem_append.mp hc with hc | hc
    · exact hl c hc
    · rw [List.mem_singleton.mp hc]
      exact hb
  exact {
    nonempty := hall h.nonempty hne
    rising := hall h.rising hr
    lined := by
      have hlast : ∀ c ∈ left, ∀ d ∈ [b], c.streamId = d.streamId → Before c.events d.events := by
        intro c hc d hd hid
        rw [List.mem_singleton.mp hd] at hid ⊢
        exact hleft c hc hid
      exact List.pairwise_append.mpr ⟨h.lined, List.pairwise_singleton _ _, hlast⟩
    ahead := hall h.ahead fun _ => hout
    behind := hall h.behind fun hb => absurd hb ho
    apart := hall h.apart fun e he x hx => Nat.ne_of_lt (hout e he x hx)
    nodup := h.nodup
    rising_iff := h.rising_iff }

end Line

end EventJournal
