import EventJournal.Proofs.Crowd.Accord
import EventJournal.Proofs.Relay.Rounds

/-!
The outbox as a queue. At any moment the batches that were in it at first and those that have come since are the ones
that have left, followed by the ones that are in it; and what a relay has in its hands stands at the front.
-/
namespace EventJournal

open History

variable {W S α : Type}

namespace Passage

/-- Notes that neither touch the outbox nor change what a relay has in its hands. -/
inductive Silent : Passage → Prop where
  | asked (cancelled : Bool) : Silent (asked cancelled)
  | handed (events : List Event) : Silent (handed events)
  | answered (result : Except PublishError Unit) : Silent (answered result)

section Notes

variable {h : List (Nat × Passage)} {i : Nat} {n : Passage}

theorem arrivals_concat (h : List (Nat × Passage)) (i : Nat) (n : Passage) :
    arrivals (h ++ [(i, n)]) = arrivals h ++ n.arrival?.toList := by
  rw [arrivals_append]
  cases n <;> rfl

theorem departures_concat (h : List (Nat × Passage)) (i : Nat) (n : Passage) :
    departures (h ++ [(i, n)]) = departures h ++ n.departure?.toList := by
  rw [departures_append]
  cases n <;> rfl

theorem inHand_concat (h : List (Nat × Passage)) (n : Passage) :
    inHand (own 0 (h ++ [(0, n)])) = carry (inHand (own 0 h)) n := by
  rw [own_concat, inHand_append]
  rfl

/-- Nobody else has a hand in it. -/
theorem inHand_concat_of_carry (h : List (Nat × Passage)) (i : Nat) (hn : ∀ hand, carry hand n = hand) :
    inHand (own 0 (h ++ [(i, n)])) = inHand (own 0 h) := by
  by_cases hi : i = 0
  · rw [hi, inHand_concat, hn]
  · have hother : own 0 [(i, n)] = [] := own_told_other (Ne.symm hi) [n]
    rw [own_append, hother, List.append_nil]

theorem Silent.arrival?_eq (hn : n.Silent) : n.arrival? = none := by
  cases hn <;> rfl

theorem Silent.departure?_eq (hn : n.Silent) : n.departure? = none := by
  cases hn <;> rfl

theorem Silent.carry_eq (hn : n.Silent) (hand : List PendingBatch) : carry hand n = hand := by
  cases hn <;> rfl

end Notes

/-- What has left is what the relay has seen leave, if nobody else takes anything. -/
theorem departures_eq (h : List (Nat × Passage)) (hcarrier : ∀ i b, (i, .left b) ∈ h → i = 0) :
    departures h = (own 0 h).filterMap departure? := by
  induction h with
  | nil => rfl
  | cons p rest ih =>
    obtain ⟨i, n⟩ := p
    have hrest := ih fun j b hb => hcarrier j b (List.mem_cons_of_mem _ hb)
    rw [← List.singleton_append, departures_append, own_append, List.filterMap_append, hrest]
    congr 1
    by_cases hi : i = 0
    · subst hi
      exact congrArg (List.filterMap departure?) (own_told [n]).symm
    · have hother : own 0 [(i, n)] = [] := own_told_other (Ne.symm hi) [n]
      rw [hother]
      cases n with
      | left b => exact absurd (hcarrier i b List.mem_cons_self) hi
      | asked | held | handed | answered | arrived => rfl

/-- A split of a longer list is one at its last element or a split of the list before it. -/
theorem split_concat {β : Type} {xs past later : List β} {x y : β} (h : xs ++ [x] = past ++ y :: later) :
    (past = xs ∧ y = x) ∨ ∃ between, xs = past ++ y :: between := by
  obtain rfl | ⟨between, z, rfl⟩ := later.eq_nil_or_concat
  · obtain ⟨rfl, hx⟩ := List.append_inj' h rfl
    exact .inl ⟨rfl, (List.singleton_inj.mp hx).symm⟩
  · rw [List.concat_eq_append, ← List.cons_append, ← List.append_assoc] at h
    exact .inr ⟨between, (List.append_inj' h rfl).1⟩

end Passage

open Passage

/-- What holds at any moment of an outbox that began with these batches, and of what was told. Only the relay takes
anything from it, and whenever it asked, it was told of the first of what stood there. -/
structure Queue (first : List PendingBatch) (limit : Nat) (o : Outbox) (h : List (Nat × Passage)) : Prop where
  conserved : first ++ arrivals h = departures h ++ o.batches
  numbered : (⟨o.lastId, departures h ++ o.batches⟩ : Outbox).Numbered
  carrier : ∀ i b, (i, .left b) ∈ h → i = 0
  front : inHand (own 0 h) <+: o.batches
  held : ∀ past bs later, h = past ++ (0, .held bs) :: later → bs = (standing first past).take limit

namespace Queue

variable {first : List PendingBatch} {limit : Nat} {o : Outbox} {h : List (Nat × Passage)}

theorem start (ho : o.Numbered) (limit : Nat) : Queue o.batches limit o [] where
  conserved := List.append_nil _
  numbered := ho
  carrier := by simp
  front := List.nil_prefix
  held := by simp

section Step

variable (hq : Queue first limit o h)
include hq

theorem standing_eq : standing first h = o.batches := by
  rw [standing, hq.conserved, List.drop_left]

/-- All that were ever in the outbox came under rising ids. -/
theorem rising : (first ++ arrivals h).Pairwise fun b c => b.id < c.id := by
  rw [hq.conserved]
  exact hq.numbered.rising

theorem outbox_numbered : o.Numbered where
  rising := (List.pairwise_append.mp hq.numbered.rising).2.1
  id_le b hb := hq.numbered.id_le b (List.mem_append_right _ hb)

theorem held_concat {i : Nat} {n : Passage} (hn : ∀ bs, n = .held bs → bs = o.batches.take limit) :
    ∀ past bs later, h ++ [(i, n)] = past ++ (0, .held bs) :: later → bs = (standing first past).take limit := by
  intro past bs later hsplit
  obtain ⟨rfl, hlast⟩ | ⟨between, hbefore⟩ := split_concat hsplit
  · rw [hq.standing_eq]
    exact hn bs (Prod.mk.inj hlast).2.symm
  · exact hq.held past bs between hbefore

theorem carrier_concat {i : Nat} {n : Passage} (hn : ∀ b, n = .left b → i = 0) :
    ∀ j b, (j, .left b) ∈ h ++ [(i, n)] → j = 0 := by
  intro j b hb
  rcases List.mem_append.mp hb with hb | hb
  · exact hq.carrier j b hb
  · cases List.mem_singleton.mp hb
    exact hn b rfl

theorem silent {n : Passage} (hn : n.Silent) (i : Nat) : Queue first limit o (h ++ [(i, n)]) := by
  have harrivals : arrivals (h ++ [(i, n)]) = arrivals h := by
    rw [arrivals_concat, hn.arrival?_eq]
    exact List.append_nil _
  have hdepartures : departures (h ++ [(i, n)]) = departures h := by
    rw [departures_concat, hn.departure?_eq]
    exact List.append_nil _
  constructor
  case conserved => rw [harrivals, hdepartures, hq.conserved]
  case numbered =>
    rw [hdepartures]
    exact hq.numbered
  case carrier =>
    apply hq.carrier_concat
    rintro b rfl
    cases hn
  case front =>
    rw [inHand_concat_of_carry h i hn.carry_eq]
    exact hq.front
  case held =>
    apply hq.held_concat
    rintro bs rfl
    cases hn

/-- The relay is told of the first batches. -/
theorem hold : Queue first limit o (h ++ [(0, .held (o.batches.take limit))]) where
  conserved := by
    rw [arrivals_concat, departures_concat]
    simpa [arrival?, departure?] using hq.conserved
  numbered := by
    rw [departures_concat]
    simpa [departure?] using hq.numbered
  carrier := by
    apply hq.carrier_concat
    rintro b ⟨⟩
  front := by
    rw [inHand_concat]
    exact List.take_prefix limit o.batches
  held := by
    apply hq.held_concat
    rintro bs ⟨⟩
    rfl

/-- A new batch joins the others. -/
theorem arrive {batch : Nat → PendingBatch} (hid : ∀ n, (batch n).id = n) (i : Nat) :
    Queue first limit (o.record batch) (h ++ [(i, .arrived (batch (o.lastId + 1)))]) where
  conserved := by
    rw [arrivals_concat, departures_concat, ← List.append_assoc, hq.conserved]
    simp [arrival?, departure?, Outbox.record]
  numbered := by
    have hrecord := hq.numbered.record hid
    rw [departures_concat]
    simpa [departure?, Outbox.record] using hrecord
  carrier := by
    apply hq.carrier_concat
    rintro b ⟨⟩
  front := by
    rw [inHand_concat_of_carry h i fun _ => rfl]
    exact hq.front.trans (List.prefix_append _ _)
  held := by
    apply hq.held_concat
    rintro bs ⟨⟩

/-- The relay takes the first batch away, which it has in its hands. -/
theorem leave {b : PendingBatch} {rest : List PendingBatch} (hb : inHand (own 0 h) = b :: rest) :
    Queue first limit (o.acknowledge b.id) (h ++ [(0, .left b)]) := by
  obtain ⟨more, hmore⟩ := hq.front
  rw [hb, List.cons_append] at hmore
  have hrest : (o.acknowledge b.id).batches = rest ++ more := hq.outbox_numbered.acknowledge_head hmore.symm
  constructor
  case conserved =>
    rw [arrivals_concat, departures_concat, hrest]
    simpa [arrival?, departure?, ← hmore] using hq.conserved
  case numbered =>
    rw [departures_concat, hrest, Outbox.lastId_acknowledge]
    simpa [departure?, ← hmore] using hq.numbered
  case carrier => exact hq.carrier_concat fun _ _ => rfl
  case front =>
    rw [inHand_concat, hb, hrest]
    exact List.prefix_append rest more
  case held =>
    apply hq.held_concat
    rintro bs ⟨⟩

/-- What is seen of an act that records a batch. -/
theorem seen_record {batch : Nat → PendingBatch} (hid : ∀ n, (batch n).id = n) :
    seen o.batches (o.record batch).batches = [.arrived (batch (o.lastId + 1))] := by
  apply seen_concat
  intro c hc
  have hle := hq.outbox_numbered.id_le c hc
  rw [hid]
  omega

theorem seen_acknowledge {b : PendingBatch} {rest : List PendingBatch} (hb : inHand (own 0 h) = b :: rest) :
    seen o.batches (o.acknowledge b.id).batches = [.left b] := by
  obtain ⟨more, hmore⟩ := hq.front
  rw [hb, List.cons_append] at hmore
  have hrising := hq.outbox_numbered.rising
  rw [hq.outbox_numbered.acknowledge_head hmore.symm, ← hmore]
  rw [← hmore, List.pairwise_cons] at hrising
  exact seen_tail fun c hc => Nat.ne_of_gt (hrising.1 c hc)

end Step

end Queue

end EventJournal
