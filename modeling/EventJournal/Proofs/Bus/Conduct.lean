import EventJournal.Proofs.Bus.Notices
import EventJournal.Proofs.Bus.Service
import EventJournal.Proofs.Crowd.Pact

/-!
The conduct of all who work on a bus: what may be done to it by whom, according to the notices that he has
given. Publishers, subscribers, listeners, closers and workers go by it, and so do handlers that use the bus
only through its operations.
-/
namespace EventJournal.Bus

open History

namespace Notice

/-- Whether a notice is about the dispatch of events from a lane. -/
def concerns (id : LaneId) : Notice → Bool
  | .took j _ _ | .begun j _ | .ended j _ => j == id
  | _ => false

end Notice

/-- The events that a lane has accepted, in that order. -/
def accepted (id : LaneId) (notices : List Notice) : List Event :=
  notices.filterMap fun
    | .accepted j e => if j = id then some e else none
    | _ => none

/-- All the events that were accepted, in that order. -/
def arrivals (notices : List Notice) : List Event :=
  notices.filterMap fun
    | .accepted _ e => some e
    | _ => none

/-- What was done with the events of a lane. -/
def story (id : LaneId) (notices : List Notice) : List Notice :=
  notices.filter (·.concerns id)

/-- What whoever is in charge of a lane has in hand: the event that is being dispatched, and those that
were taken out but are still to be dispatched. -/
structure Hands where
  busy : Option Event
  held : List Event

namespace Hands

def free : Hands :=
  ⟨none, []⟩

def after : Hands → Notice → Hands
  | h, .took _ events _ => { h with held := h.held ++ events }
  | h, .begun _ e => ⟨some e, h.held.tail⟩
  | h, .ended _ _ => { h with busy := none }
  | h, _ => h

/-- What may be done next by one who has this in hand. -/
def Fits (hands : Hands) : Notice → Prop
  | .took _ _ _ => hands = .free
  | .begun _ event => ∃ rest, hands = ⟨none, event :: rest⟩
  | .ended _ event => ∃ rest, hands = ⟨some event, rest⟩
  | _ => True

end Hands

def hands (id : LaneId) (notices : List Notice) : Hands :=
  (story id notices).foldl Hands.after .free

/-- Whoever gave these notices is in charge of the lane. -/
def Charged (id : LaneId) (mine : List Notice) : Prop :=
  .serves id ∈ mine ∨ ∃ ids, .claimed ids ∈ mine ∧ id ∈ ids

/-- Nobody has done more than bring events. -/
def Unattended (notices : List Notice) : Prop :=
  ∀ n ∈ notices, ∃ id event, n = .accepted id event

section Lists

variable {id : LaneId} {notices : List Notice} {n : Notice}

@[simp] theorem story_nil : story id [] = [] := rfl

@[simp] theorem story_append (ns ms : List Notice) : story id (ns ++ ms) = story id ns ++ story id ms :=
  List.filter_append ..

@[simp] theorem accepted_nil : accepted id [] = [] := rfl

@[simp] theorem accepted_append (ns ms : List Notice) :
    accepted id (ns ++ ms) = accepted id ns ++ accepted id ms :=
  List.filterMap_append ..

theorem mem_accepted {event : Event} : event ∈ accepted id notices ↔ .accepted id event ∈ notices := by
  rw [accepted, List.mem_filterMap]
  constructor
  · rintro ⟨n, hn, he⟩
    cases n with
    | accepted j e =>
      by_cases hj : j = id
      · simp only [hj, if_true, Option.some.injEq] at he
        exact hj ▸ he ▸ hn
      · simp [hj] at he
    | _ => cases he
  · exact fun hn => ⟨_, hn, if_pos rfl⟩

theorem mem_arrivals {event : Event} : event ∈ arrivals notices ↔ ∃ id, .accepted id event ∈ notices := by
  rw [arrivals, List.mem_filterMap]
  constructor
  · rintro ⟨n, hn, he⟩
    cases n with
    | accepted id e =>
      cases he
      exact ⟨id, hn⟩
    | _ => cases he
  · rintro ⟨id, hn⟩
    exact ⟨_, hn, rfl⟩

@[simp] theorem arrivals_nil : arrivals [] = [] := rfl

@[simp] theorem arrivals_append (ns ms : List Notice) :
    arrivals (ns ++ ms) = arrivals ns ++ arrivals ms :=
  List.filterMap_append ..

/-- Where nothing arrived no lane has accepted anything. -/
theorem accepted_eq_nil_of_arrivals (h : arrivals notices = []) : accepted id notices = [] := by
  rw [arrivals, List.filterMap_eq_nil_iff] at h
  rw [accepted, List.filterMap_eq_nil_iff]
  intro n hn
  cases n with
  | accepted j event => cases h _ hn
  | _ => rfl

theorem story_concat_of_concerns (h : n.concerns id = true) :
    story id (notices ++ [n]) = story id notices ++ [n] := by
  simp [story, h]

theorem story_concat_of_not (h : n.concerns id = false) : story id (notices ++ [n]) = story id notices := by
  simp [story, h]

theorem hands_concat_of_concerns (h : n.concerns id = true) :
    hands id (notices ++ [n]) = (hands id notices).after n := by
  rw [hands, story_concat_of_concerns h, List.foldl_append]
  rfl

theorem hands_concat_of_not (h : n.concerns id = false) : hands id (notices ++ [n]) = hands id notices := by
  rw [hands, story_concat_of_not h, hands]

theorem Charged.mono {ns ms : List Notice} (h : Charged id ns) (hsub : ∀ n ∈ ns, n ∈ ms) :
    Charged id ms := by
  rcases h with hs | ⟨ids, hc, hid⟩
  · exact .inl (hsub _ hs)
  · exact .inr ⟨ids, hsub _ hc, hid⟩

theorem Charged.exists_mem (h : Charged id notices) : ∃ n, n ∈ notices := by
  rcases h with hs | ⟨ids, hc, -⟩
  · exact ⟨_, hs⟩
  · exact ⟨_, hc⟩

theorem charged_append {ns ms : List Notice} : Charged id (ns ++ ms) ↔ Charged id ns ∨ Charged id ms := by
  simp only [Charged, List.mem_append, or_and_right, exists_or]
  exact or_or_or_comm

theorem not_charged_of_unattended (h : Unattended notices) : ¬ Charged id notices := by
  rintro (hs | ⟨ids, hc, -⟩)
  · obtain ⟨_, _, he⟩ := h _ hs
    cases he
  · obtain ⟨_, _, he⟩ := h _ hc
    cases he

theorem story_of_unattended (h : Unattended notices) : story id notices = [] := by
  rw [story, List.filter_eq_nil_iff]
  intro n hn
  obtain ⟨j, event, rfl⟩ := h n hn
  simp [Notice.concerns]

/-- Nobody's hands are touched when events arrive. -/
theorem hands_append_of_unattended {ms : List Notice} (h : Unattended ms) :
    hands id (notices ++ ms) = hands id notices := by
  rw [hands, story_append, story_of_unattended h, List.append_nil, hands]

end Lists

variable {H X : Type}

/-- What may be done to a bus and the workers that are hired, by one who gave the notices `mine`, and the
notice that he gives of it. -/
inductive Does (config : BusConfig) (seed : UInt32) (bus : Bus H) (hired : List Worker)
    (mine : List Notice) : List Notice → Bus H → List Worker → Prop where
  | quiet {bus' : Bus H} (quiet : Quiet bus bus') (shaped : bus'.Shaped config seed) :
      Does config seed bus hired mine [] bus' hired
  | brought {event : Event} {bus' : Bus H} (brings : Brings config seed bus event bus') :
      Does config seed bus hired mine [.accepted (home config seed event) event] bus' hired
  | opened {bus' : Bus H} (opens : Opens config seed bus bus') (ctx : Context) :
      Does config seed bus hired mine [.opened] bus' (hired ++ bus.laneIds.map fun id => ⟨id, ctx⟩)
  | served {worker : Worker} {rest : List Worker} (eq : hired = worker :: rest) :
      Does config seed bus hired mine [.serves worker.lane] bus rest
  | claimed {bus' : Bus H} (opens : Opens config seed bus bus') :
      Does config seed bus hired mine [.claimed bus.laneIds] bus' hired
  | took {id : LaneId} {events : List Event} {last : Bool} {bus' : Bus H} (charged : Charged id mine)
      (free : hands id mine = .free) (takes : Takes config seed id events last bus bus') :
      Does config seed bus hired mine [.took id events last] bus' hired
  | begun {id : LaneId} {event : Event} {rest : List Event} (charged : Charged id mine)
      (holds : hands id mine = ⟨none, event :: rest⟩) :
      Does config seed bus hired mine [.begun id event] bus hired
  | ended {id : LaneId} {event : Event} {rest : List Event} (charged : Charged id mine)
      (busy : hands id mine = ⟨some event, rest⟩) :
      Does config seed bus hired mine [.ended id event] bus hired
  | finished {id : LaneId} {events : List Event} (charged : Charged id mine)
      (free : hands id mine = .free) (emptied : .took id events true ∈ mine) :
      Does config seed bus hired mine [.finished id] (bus.finishLane id) hired
  | drained (stopped : bus.stopped = true ∨ .opened ∈ mine ∧ bus.isDrained = true ∨
      ∃ ids, .claimed ids ∈ mine ∧ ∀ id ∈ ids, .finished id ∈ mine) :
      Does config seed bus hired mine [.drained] bus hired
  | stopped (drained : .drained ∈ mine) : Does config seed bus hired mine [] bus.stop hired

end EventJournal.Bus
