import EventJournal.Proofs.Engine.Books
import EventJournal.Proofs.Engine.Line
import EventJournal.Proofs.Engine.Published
import EventJournal.Proofs.Stream.Numbering

/-!
One engine and one relay that work by turns. What waits in the outbox then stands in line, and the relay
carries the first of it; what the engine has just stored is later than all of its stream that came out or
waits.
-/
namespace EventJournal

open Event History

variable {S : Type} {policy : VersionPolicy} {name : String}

namespace Outbox

/-- The ids of the batches rise, up to the last one that was given. -/
structure Numbered (o : Outbox) : Prop where
  rising : o.batches.Pairwise fun b c => b.id < c.id
  id_le : ∀ b ∈ o.batches, b.id ≤ o.lastId

namespace Numbered

variable {o : Outbox}

theorem record (h : o.Numbered) {batch : Nat → PendingBatch} (hid : ∀ n, (batch n).id = n) :
    (o.record batch).Numbered where
  rising := by
    refine List.pairwise_append.mpr ⟨h.rising, List.pairwise_singleton _ _, ?_⟩
    intro b hb c hc
    have hle := h.id_le b hb
    rw [List.mem_singleton.mp hc, hid]
    omega
  id_le b hb := by
    rcases List.mem_append.mp hb with hb | hb
    · exact Nat.le_succ_of_le (h.id_le b hb)
    · rw [List.mem_singleton.mp hb, hid]
      exact Nat.le_refl _

theorem acknowledge (h : o.Numbered) (id : Nat) : (o.acknowledge id).Numbered :=
  ⟨h.rising.filter _, fun b hb => h.id_le b (List.mem_filter.mp hb).1⟩

/-- Acknowledging the first batch leaves the others. -/
theorem acknowledge_head (h : o.Numbered) {b : PendingBatch} {rest : List PendingBatch}
    (hb : o.batches = b :: rest) : (o.acknowledge b.id).batches = rest := by
  have hrising := h.rising
  rw [hb, List.pairwise_cons] at hrising
  rw [Outbox.acknowledge, hb, List.filter_cons_of_neg (by simp), List.filter_eq_self]
  intro c hc
  have hlt := hrising.1 c hc
  simp only [bne_iff_ne]
  omega

end Numbered

end Outbox

/-- Of the batches in the outbox, those that are left to come. What a relay carries it holds from the first
of them on. -/
def Phase.Leaves (batches left : List PendingBatch) : Phase → Prop
  | .delivered b rest => batches = b :: left ∧ rest <+: left
  | .carries held => batches = left ∧ held <+: left
  | .free | .owes _ => batches = left

theorem Phase.Leaves.of_atRest {batches left : List PendingBatch} {f : Phase}
    (h : f.Leaves batches left) (hf : f.AtRest) : batches = left := by
  cases f with
  | free => exact h
  | carries held => exact h.1
  | owes | delivered => cases hf

/-- The parcel ends the journal of its stream, and what came out or waits of the stream stands before it. -/
def Newest (store : Store S) (deeds : List Deed) (left : List PendingBatch) (p : Parcel) : Prop :=
  p.events ≠ [] ∧ p.version ≤ store.storedVersion p.id ∧ .kept p ∉ deeds ∧
    ∃ old, store.journal p.id = old ++ p.events ∧ (∀ e ∈ accepted p.id deeds, e ∈ old) ∧
      ∀ b ∈ left, b.streamId = p.id → ∀ e ∈ b.events, e ∈ old

/-- What holds of a store at which one job works, by its deeds. -/
structure Ordered (policy : VersionPolicy) (name : String) (store : Store S) (deeds : List Deed)
    (left : List PendingBatch) : Prop where
  name_eq : store.name = name
  length : ∀ id, store.storedVersion id = (store.journal id).length
  series : ∀ id, Series policy id name 0 (store.journal id)
  numbered : store.outbox.Numbered
  leaves : (phase deeds).Leaves store.outbox.batches left
  kept_le : ∀ p, .kept p ∈ deeds → p.version ≤ store.storedVersion p.id
  came : ∀ id, ∀ e ∈ accepted id deeds, e ∈ store.journal id
  waits : ∀ b ∈ left, .kept b.parcel ∈ deeds ∧ ∀ e ∈ b.events, e ∈ store.journal b.streamId
  newest : ∀ p, phase deeds = .owes p → Newest store deeds left p
  line : Line (accepted · deeds) left (fun b => Overtaken b.parcel deeds) (Belated · deeds)

namespace Ordered

variable {store store' : Store S} {deeds : List Deed} {left : List PendingBatch} {d : Deed}

theorem fresh (policy : VersionPolicy) (name : String) (codec : Codec) :
    Ordered policy name (.fresh name codec policy : Store S) [] [] where
  name_eq := rfl
  length _ := rfl
  series _ := .nil
  numbered := ⟨.nil, by simp [Store.fresh, Outbox.empty]⟩
  leaves := rfl
  kept_le p hp := by simp at hp
  came id e he := by simp at he
  waits b hb := by simp at hb
  newest p hp := by cases hp
  line := by constructor <;> simp [Belated, Rising]

/-- A silent deed leaves the line alone. -/
theorem line_silent (h : Ordered policy name store deeds left) (hd : d.Silent) :
    Line (accepted · (deeds ++ [d])) left (fun b => Overtaken b.parcel (deeds ++ [d]))
      (Belated · (deeds ++ [d])) := by
  simp only [accepted_silent hd, overtaken_silent hd, belated_silent hd]
  exact h.line

/-- A deed that keeps nothing adds nothing to what was kept. -/
theorem mem_of_kept {p : Parcel} (hd : ∀ p, d ≠ .kept p) (hp : .kept p ∈ deeds ++ [d]) :
    .kept p ∈ deeds := by
  rcases List.mem_append.mp hp with hp | hp
  · exact hp
  · exact absurd (List.mem_singleton.mp hp).symm (hd p)

/-- What waits was kept before. -/
theorem waits_concat (h : Ordered policy name store deeds left) (d : Deed) : ∀ b ∈ left,
    .kept b.parcel ∈ deeds ++ [d] ∧ ∀ e ∈ b.events, e ∈ store.journal b.streamId := by
  intro b hb
  obtain ⟨hk, hj⟩ := h.waits b hb
  exact ⟨List.mem_append_left _ hk, hj⟩

/-- A silent deed lets nothing come out. -/
theorem came_silent (h : Ordered policy name store deeds left) (hd : d.Silent) (id : StreamId) :
    ∀ e ∈ accepted id (deeds ++ [d]), e ∈ store.journal id := by
  rw [accepted_silent hd]
  exact h.came id

/-- A deed that is silent and keeps nothing, and leaves the store alone. -/
theorem idle (h : Ordered policy name store deeds left) (hd : d.Silent)
    (hk : ∀ p, d ≠ .kept p) (hl : ((phase deeds).after d).Leaves store.outbox.batches left)
    (hn : ∀ p, (phase deeds).after d = .owes p → phase deeds = .owes p) :
    Ordered policy name store (deeds ++ [d]) left where
  name_eq := h.name_eq
  length := h.length
  series := h.series
  numbered := h.numbered
  leaves := by rwa [phase_concat]
  kept_le p hp := h.kept_le p (mem_of_kept hk hp)
  came := h.came_silent hd
  waits := h.waits_concat d
  newest p hp := by
    rw [phase_concat] at hp
    obtain ⟨hne, hv, hnew, old, hold⟩ := h.newest p (hn p hp)
    have hnew' : .kept p ∉ deeds ++ [d] := fun hp => hnew (mem_of_kept hk hp)
    rw [← accepted_silent hd] at hold
    exact ⟨hne, hv, hnew', old, hold⟩
  line := h.line_silent hd

/-- All events of a stream are its own. -/
theorem own (h : Ordered policy name store deeds left) {id : StreamId} {es : List Event}
    (hes : ∀ e ∈ es, e ∈ store.journal id) : ∀ e ∈ es, e.streamId = id :=
  fun e he => (h.series id).streamId_eq (hes e he)

/-- What comes out was stored. -/
theorem came_published (h : Ordered policy name store deeds left) {id : StreamId} {es : List Event}
    (hes : ∀ e ∈ es, e ∈ store.journal id) (j : StreamId) :
    ∀ e ∈ accepted j (deeds ++ [.published es]), e ∈ store.journal j := by
  intro e he
  by_cases hj : j = id
  · subst hj
    rw [accepted_published_own (h.own hes)] at he
    rcases List.mem_append.mp he with he | he
    · exact h.came j e he
    · exact hes e he
  · rw [accepted_published_other hj (h.own hes)] at he
    exact h.came j e he

/-- What was stored last rises, and stands behind all of its stream that came out or waits. -/
theorem last (h : Ordered policy name store deeds left) {p : Parcel} (hp : phase deeds = .owes p) :
    (∀ e ∈ p.events, e ∈ store.journal p.id) ∧ Rising p.events ∧ Before (accepted p.id deeds) p.events ∧
      ∀ b ∈ left, b.streamId = p.id → Before b.events p.events := by
  obtain ⟨-, -, -, old, hold, hcame, hwaits⟩ := h.newest p hp
  have hrising : Rising (old ++ p.events) := by
    rw [← hold]
    exact (h.series p.id).rising
  obtain ⟨-, hr, hbefore⟩ := rising_append.mp hrising
  refine ⟨?_, hr, ?_, ?_⟩
  · intro e he
    rw [hold]
    exact List.mem_append_right old he
  · exact fun x hx y hy => hbefore x (hcame x hx) y hy
  · exact fun b hb hid x hx y hy => hbefore x (hwaits b hb hid x hx) y hy

/-- What was stored last is published at once, and overtakes what waits of its stream. -/
theorem direct (h : Ordered policy name store deeds left) {p : Parcel}
    (hp : phase deeds = .owes p) : Ordered policy name store (deeds ++ [.published p.events]) left := by
  obtain ⟨hin, hr, hout, hleft⟩ := h.last hp
  have hne := (h.newest p hp).1
  have hown := h.own hin
  have hafter : phase (deeds ++ [.published p.events]) = .free := by
    rw [phase_concat, hp]
    rfl
  have hleaves := h.leaves
  rw [hp] at hleaves
  have hover : ∀ b ∈ left, (Overtaken b.parcel (deeds ++ [.published p.events]) ↔
      Overtaken b.parcel deeds ∨ b.streamId = p.id) :=
    fun b hb => overtaken_direct hp _ (h.waits b hb).1
  have hline := h.line.pass hne hr hout hleft (accepted_published_own hown)
    (fun j hj => accepted_published_other hj hown) hover
  exact {
    name_eq := h.name_eq
    length := h.length
    series := h.series
    numbered := h.numbered
    leaves := by
      rw [hafter]
      exact hleaves
    kept_le := fun q hq => h.kept_le q (mem_of_kept (fun _ he => by cases he) hq)
    came := h.came_published hin
    waits := h.waits_concat _
    newest := by
      intro q hq
      rw [hafter] at hq
      cases hq
    line := by
      simp only [belated_direct hp]
      exact hline }

/-- The first batch in line is published. -/
theorem redelivered {b : PendingBatch} {rest : List PendingBatch}
    (h : Ordered policy name store deeds left) (hb : phase deeds = .carries (b :: rest)) :
    ∃ left', Ordered policy name store (deeds ++ [.published b.events]) left' := by
  have hleaves := h.leaves
  rw [hb] at hleaves
  obtain ⟨hbatches, left', rfl⟩ := hleaves
  have hin := (h.waits b List.mem_cons_self).2
  have hown := h.own hin
  have hafter : phase (deeds ++ [.published b.events]) = .delivered b rest := by
    rw [phase_concat, hb]
    rfl
  have hwaits := h.waits_concat (.published b.events)
  exact ⟨rest ++ left', {
    name_eq := h.name_eq
    length := h.length
    series := h.series
    numbered := h.numbered
    leaves := by
      rw [hafter]
      exact ⟨hbatches, List.prefix_append rest left'⟩
    kept_le := fun q hq => h.kept_le q (mem_of_kept (fun _ he => by cases he) hq)
    came := h.came_published hin
    waits := fun c hc => hwaits c (List.mem_cons_of_mem b hc)
    newest := by
      intro q hq
      rw [hafter] at hq
      cases hq
    line := h.line.next (accepted_published_own hown)
      (fun j hj => accepted_published_other hj hown) (fun c _ => overtaken_redelivered hb b.events)
      fun j => belated_redelivered hb b.events }⟩

/-- What could not be published goes to the end of the line. -/
theorem kept (h : Ordered policy name store deeds left) {p : Parcel} (hp : phase deeds = .owes p)
    (batch : Nat → PendingBatch) (hid : ∀ n, (batch n).id = n) (hparcel : ∀ n, (batch n).parcel = p) :
    ∃ left', Ordered policy name (store.withOutbox (store.outbox.record batch)) (deeds ++ [.kept p])
      left' := by
  have hsilent : Deed.Silent (.kept p) := fun es he => by cases he
  obtain ⟨hin, hr, hout, hleft⟩ := h.last hp
  obtain ⟨hne, hle, hnew, -⟩ := h.newest p hp
  have hafter : phase (deeds ++ [.kept p]) = .free := by
    rw [phase_concat, hp]
    rfl
  have hleaves := h.leaves
  rw [hp] at hleaves
  generalize hb : batch (store.outbox.lastId + 1) = b
  have hbp : b.parcel = p := by rw [← hb, hparcel]
  subst hbp
  have hbatches : (store.outbox.record batch).batches = left ++ [b] := by
    rw [Outbox.record, hb, hleaves]
  have hwaits := h.waits_concat (.kept b.parcel)
  exact ⟨left ++ [b], {
    name_eq := h.name_eq
    length := h.length
    series := h.series
    numbered := h.numbered.record hid
    leaves := by
      rw [hafter]
      exact hbatches
    kept_le := by
      intro q hq
      rcases List.mem_append.mp hq with hq | hq
      · exact h.kept_le q hq
      · cases List.mem_singleton.mp hq
        exact hle
    came := h.came_silent hsilent
    waits := by
      intro c hc
      rcases List.mem_append.mp hc with hc | hc
      · exact hwaits c hc
      · cases List.mem_singleton.mp hc
        exact ⟨List.mem_append_right _ (List.mem_singleton.mpr rfl), hin⟩
    newest := by
      intro q hq
      rw [hafter] at hq
      cases hq
    line := by
      simp only [accepted_silent hsilent, overtaken_silent hsilent, belated_silent hsilent]
      exact h.line.join hne hr hout hleft fun ho => hnew ho.kept }⟩

/-- The batch that was published leaves the outbox. -/
theorem acknowledged (h : Ordered policy name store deeds left) {b : PendingBatch}
    {rest : List PendingBatch} (hb : phase deeds = .delivered b rest) :
    Ordered policy name (store.acknowledge b.id) (deeds ++ [.acknowledged b.id]) left := by
  have hsilent : Deed.Silent (.acknowledged b.id) := fun es he => by cases he
  have hafter : phase (deeds ++ [.acknowledged b.id]) = .carries rest := by
    rw [phase_concat, hb]
    rfl
  have hleaves := h.leaves
  rw [hb] at hleaves
  obtain ⟨hbatches, hrest⟩ := hleaves
  exact {
    name_eq := h.name_eq
    length := h.length
    series := h.series
    numbered := h.numbered.acknowledge b.id
    leaves := by
      rw [hafter]
      exact ⟨h.numbered.acknowledge_head hbatches, hrest⟩
    kept_le := fun q hq => h.kept_le q (mem_of_kept (fun _ he => by cases he) hq)
    came := h.came_silent hsilent
    waits := h.waits_concat _
    newest := by
      intro q hq
      rw [hafter] at hq
      cases hq
    line := h.line_silent hsilent }

variable [State S]

/-- What is stored is later than all of its stream. -/
theorem stored (h : Ordered policy name store deeds left) {s : Stream S} (hf : (phase deeds).AtRest)
    (hs : s.Sound policy) (hc : s.changes ≠ []) (ht : store.persist s = .ok store') :
    Ordered policy name store' (deeds ++ [.stored s.parcel]) left := by
  have hsilent : Deed.Silent (.stored s.parcel) := fun es he => by cases he
  have hkept : ∀ p, .kept p ∈ deeds ++ [.stored s.parcel] → .kept p ∈ deeds :=
    fun p hp => mem_of_kept (fun _ he => by cases he) hp
  have hd : Does (Stream.Sound policy) store (phase deeds) (.stored s.parcel) store' :=
    .stored hf hs hc ht
  have hlength := hd.length h.length
  have hgrows := hd.journal_prefix
  obtain ⟨hname, hv, snapshot, -, rfl⟩ := Store.persist_eq_ok ht
  have hstart : s.previousVersion = (store.journal s.id).length := by
    rw [← hv]
    exact h.length s.id
  have hver : (store.extended s snapshot).storedVersion s.id = s.version :=
    Store.storedVersion_extended store s snapshot
  have hlt : store.storedVersion s.id < s.version := by
    have := List.length_pos_iff.mpr hc
    rw [Stream.version]
    omega
  -- the changes have versions of their own, so that they were not kept before
  have hnew : .kept s.parcel ∉ deeds ++ [.stored s.parcel] := by
    intro hp
    have hle := h.kept_le s.parcel (hkept _ hp)
    exact absurd hlt (Nat.not_lt.mpr hle)
  exact {
    name_eq := h.name_eq
    length := hlength
    series := by
      intro id
      by_cases hid : id = s.id
      · subst hid
        rw [Store.journal_extended]
        apply (h.series s.id).append
        rw [Nat.zero_add, ← hstart, ← h.name_eq, ← hname]
        exact hs.2
      · rw [Store.journal_extended_other _ _ _ hid]
        exact h.series id
    numbered := h.numbered
    leaves := by
      rw [phase_concat, Phase.after_stored]
      exact h.leaves.of_atRest hf
    kept_le := by
      intro p hp
      have hle := h.kept_le p (hkept p hp)
      by_cases hid : p.id = s.id
      · rw [hid] at hle ⊢
        omega
      · rw [Store.storedVersion_extended_other _ _ _ hid]
        exact hle
    came := fun id e he => (hgrows id).subset (h.came_silent hsilent id e he)
    waits := by
      intro b hb
      obtain ⟨hk, hj⟩ := h.waits_concat _ b hb
      exact ⟨hk, fun e he => (hgrows _).subset (hj e he)⟩
    newest := by
      intro p hp
      rw [phase_concat, Phase.after_stored] at hp
      cases hp
      have hwaits : ∀ b ∈ left, b.streamId = s.id → ∀ e ∈ b.events, e ∈ store.journal s.id := by
        intro b hb hid e he
        rw [← hid]
        exact (h.waits b hb).2 e he
      exact ⟨hc, Nat.le_of_eq hver.symm, hnew, store.journal s.id,
        Store.journal_extended store s snapshot, h.came_silent hsilent s.id, hwaits⟩
    line := h.line_silent hsilent }

/-- Every deed of the one job keeps the order. -/
theorem does (h : Ordered policy name store deeds left)
    (hd : Does (Stream.Sound policy) store (phase deeds) d store') :
    ∃ left', Ordered policy name store' (deeds ++ [d]) left' := by
  have hleaves := h.leaves
  generalize hf : phase deeds = f at hd hleaves
  cases hd with
  | stored free sound changed taken => exact ⟨left, h.stored (by rwa [hf]) sound changed taken⟩
  | @handed _ es offers =>
    have hstays := (phase deeds).after_handed es
    have hleaves' : ((phase deeds).after (.handed es)).Leaves store.outbox.batches left := by
      rwa [hstays, hf]
    exact ⟨left, h.idle (fun es he => by cases he) (fun p he => by cases he) hleaves'
      fun p hp => hstays ▸ hp⟩
  | @refused _ es offers =>
    have hstays := (phase deeds).after_refused es
    have hleaves' : ((phase deeds).after (.refused es)).Leaves store.outbox.batches left := by
      rwa [hstays, hf]
    exact ⟨left, h.idle (fun es he => by cases he) (fun p he => by cases he) hleaves'
      fun p hp => hstays ▸ hp⟩
  | published offers =>
    cases f with
    | owes p =>
      cases offers
      exact ⟨left, h.direct hf⟩
    | carries held =>
      cases held with
      | nil => cases offers
      | cons b rest =>
        cases offers
        exact h.redelivered hf
    | free | delivered => cases offers
  | kept batch hid hp => exact h.kept hf batch hid hp
  | @lost p =>
    have hafter : (phase deeds).after (.lost p) = .free := by
      rw [hf]
      rfl
    have hleaves' : ((phase deeds).after (.lost p)).Leaves store.outbox.batches left := by
      rw [hafter]
      exact hleaves
    exact ⟨left, h.idle (fun es he => by cases he) (fun p he => by cases he) hleaves'
      fun q hq => by rw [hafter] at hq; cases hq⟩
  | held free limit =>
    have hafter := (phase deeds).after_held (store.pending limit)
    have hleaves' : ((phase deeds).after (.held (store.pending limit))).Leaves store.outbox.batches
        left := by
      rw [hafter, ← hleaves.of_atRest free]
      exact ⟨rfl, List.take_prefix limit _⟩
    exact ⟨left, h.idle (fun es he => by cases he) (fun p he => by cases he) hleaves'
      fun q hq => by rw [hafter] at hq; cases hq⟩
  | acknowledged => exact ⟨left, h.acknowledged hf⟩

end Ordered

end EventJournal
