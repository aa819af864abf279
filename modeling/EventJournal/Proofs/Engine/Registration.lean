import EventJournal.Engine.Builder
import EventJournal.Rehearsal.Company
import Mathlib.Data.List.Duplicate

/-!
Registration of controllers. A builder binds a name to the first controller that it is given for it, for commands and
for events apart, and it keeps in mind the first name that it is given again. So an engine that is built has all the
controllers that were registered, and none of them is hidden by another.
-/
namespace EventJournal.Engine

/-- What controllers are for. -/
inductive MessageKind where
  | command
  | event
  deriving DecidableEq, Repr

/-- The calls on a builder. -/
inductive Setup (m : Type → Type) (S : Type) where
  | command (name : String) (controller : CommandController m S)
  | commandCreate (name : String) (controller : CommandController m S)
  | event (name : String) (controller : EventController m S)
  | eventCreate (name : String) (controller : EventController m S)
  | strict (strict : Bool)
  | config (config : EngineConfig)
  | ignore (names : List String)

variable {m : Type → Type} {S β : Type}

namespace Setup

/-- The name of a registration for commands, and what is registered under it. -/
def command? : Setup m S → Option (String × Registered (CommandController m S))
  | .command name controller => some (name, ⟨.load, controller⟩)
  | .commandCreate name controller => some (name, ⟨.create, controller⟩)
  | _ => none

/-- The same for events. -/
def event? : Setup m S → Option (String × Registered (EventController m S))
  | .event name controller => some (name, ⟨.load, controller⟩)
  | .eventCreate name controller => some (name, ⟨.create, controller⟩)
  | _ => none

/-- The name of a registration, and the kind of messages that it is for. -/
def enters? : Setup m S → Option (MessageKind × String)
  | .command name _ | .commandCreate name _ => some (.command, name)
  | .event name _ | .eventCreate name _ => some (.event, name)
  | _ => none

/-- What strictness is set to. -/
def strictness? : Setup m S → Option Bool
  | .strict b => some b
  | .config c => some c.strict
  | _ => none

/-- The events that are to be ignored. -/
def ignored : Setup m S → List String
  | .config c => c.ignoredEvents
  | .ignore names => names
  | _ => []

/-- What is registered, in that order. -/
def entries (calls : List (Setup m S)) : List (MessageKind × String) :=
  calls.filterMap enters?

/-- The earliest call that registers a name again for the same kind of messages does so with that name. -/
def FirstAgain (calls : List (Setup m S)) (name : String) : Prop :=
  ∃ past call later kind, calls = past ++ call :: later ∧ call.enters? = some (kind, name) ∧
    (kind, name) ∈ entries past ∧ (entries past).Nodup

/-- One of the calls registers this under that name, and no other call registers anything under it. -/
def Alone (registration? : Setup m S → Option (String × β)) (calls : List (Setup m S)) (name : String) (r : β) :
    Prop :=
  ∃ past call later, calls = past ++ call :: later ∧ registration? call = some (name, r) ∧
    ∀ other ∈ past ++ later, ∀ r', registration? other ≠ some (name, r')

/-- A table binds every name that the calls register, and what is bound to a name is all that they register under it. -/
structure Carries (table : List (String × β)) (registration? : Setup m S → Option (String × β))
    (calls : List (Setup m S)) : Prop where
  bound : ∀ call ∈ calls, ∀ name r, registration? call = some (name, r) → table.lookup name = some r
  alone : ∀ name r, table.lookup name = some r → Alone registration? calls name r

/-- These are the registrations for one kind of messages. -/
def Tells (kind : MessageKind) (registration? : Setup m S → Option (String × β)) : Prop :=
  ∀ call name, call.enters? = some (kind, name) ↔ ∃ r, registration? call = some (name, r)

theorem tells_command? : Tells .command (command? (m := m) (S := S)) := by
  intro call name
  cases call <;> simp [enters?, command?]

theorem tells_event? : Tells .event (event? (m := m) (S := S)) := by
  intro call name
  cases call <;> simp [enters?, event?]

variable {calls : List (Setup m S)} {call : Setup m S} {kind : MessageKind} {name : String}
  {registration? : Setup m S → Option (String × β)} {r : β}

theorem filterMap_concat (f : Setup m S → Option β) (calls : List (Setup m S)) (call : Setup m S) :
    (calls ++ [call]).filterMap f = calls.filterMap f ++ (f call).toList := by
  rw [List.filterMap_append]
  cases h : f call <;> simp [h]

theorem entries_append (past later : List (Setup m S)) : entries (past ++ later) = entries past ++ entries later :=
  List.filterMap_append

theorem entries_cons (h : call.enters? = some (kind, name)) (later : List (Setup m S)) :
    entries (call :: later) = (kind, name) :: entries later :=
  List.filterMap_cons_some h

theorem mem_entries_iff (hr : Tells kind registration?) :
    (kind, name) ∈ entries calls ↔ ∃ call ∈ calls, ∃ r, registration? call = some (name, r) := by
  rw [entries, List.mem_filterMap]
  exact exists_congr fun call => and_congr_right fun _ => hr call name

theorem nodup_entries_concat : (entries (calls ++ [call])).Nodup ↔
    (entries calls).Nodup ∧ ∀ entry, call.enters? = some entry → entry ∉ entries calls := by
  rw [entries, filterMap_concat, List.nodup_append_comm, entries]
  cases call.enters? with
  | none => simp
  | some entry => simp [and_comm]

/-- With one call more, what is registered again first stays the same, or it is what this call registers. -/
theorem firstAgain_concat : FirstAgain (calls ++ [call]) name ↔ FirstAgain calls name ∨
    (entries calls).Nodup ∧ ∃ kind, call.enters? = some (kind, name) ∧ (kind, name) ∈ entries calls := by
  constructor
  · rintro ⟨past, other, later, kind, hcalls, hentry, hmem, hnodup⟩
    -- either it is the last call that registers again, or the last call comes behind the one that does
    rcases List.eq_nil_or_concat later with rfl | ⟨between, last, rfl⟩
    · obtain ⟨rfl, hlast⟩ := List.append_inj' hcalls rfl
      cases hlast
      exact .inr ⟨hnodup, kind, hentry, hmem⟩
    · rw [List.concat_eq_append, ← List.cons_append, ← List.append_assoc] at hcalls
      obtain ⟨rfl, -⟩ := List.append_inj' hcalls rfl
      exact .inl ⟨past, other, between, kind, rfl, hentry, hmem, hnodup⟩
  · rintro (⟨past, other, later, kind, rfl, h⟩ | ⟨hnodup, kind, hentry, hmem⟩)
    · exact ⟨past, other, later ++ [call], kind, List.append_assoc past (other :: later) [call], h⟩
    · exact ⟨calls, call, [], kind, rfl, hentry, hmem, hnodup⟩

/-- A name is found exactly if it was registered. -/
theorem isSome_lookup_iff (hr : Tells kind registration?) :
    ((calls.filterMap registration?).lookup name).isSome ↔ (kind, name) ∈ entries calls := by
  rw [List.lookup_isSome_iff, mem_entries_iff hr]
  constructor
  · rintro ⟨⟨n, r⟩, hmem, hn⟩
    obtain rfl : name = n := eq_of_beq hn
    obtain ⟨call, hcall, hregistered⟩ := List.mem_filterMap.mp hmem
    exact ⟨call, hcall, r, hregistered⟩
  · rintro ⟨call, hcall, r, hregistered⟩
    exact ⟨(name, r), List.mem_filterMap.mpr ⟨call, hcall, hregistered⟩, beq_self_eq_true name⟩

/-- What is registered alone is found. -/
theorem Alone.lookup_eq (hr : Tells kind registration?) (h : Alone registration? calls name r) :
    (calls.filterMap registration?).lookup name = some r := by
  obtain ⟨past, call, later, rfl, hregistered, hothers⟩ := h
  have hpast : (past.filterMap registration?).lookup name = none := by
    rw [← Option.not_isSome_iff_eq_none, isSome_lookup_iff hr, mem_entries_iff hr]
    rintro ⟨other, hother, r', hagain⟩
    exact hothers other (List.mem_append_left later hother) r' hagain
  rw [List.filterMap_append, List.lookup_append, hpast, List.filterMap_cons_some hregistered, List.lookup_cons_self]
  rfl

/-- If nothing is registered again, everything is registered alone. -/
theorem alone_of_mem (hr : Tells kind registration?) (hnodup : (entries calls).Nodup) (hcall : call ∈ calls)
    (hregistered : registration? call = some (name, r)) : Alone registration? calls name r := by
  obtain ⟨past, later, rfl⟩ := List.append_of_mem hcall
  -- the name stands between what is registered before and after, so it can be in neither
  have hentry := (hr call name).mpr ⟨r, hregistered⟩
  rw [entries_append, entries_cons hentry, List.nodup_middle, ← entries_append] at hnodup
  refine ⟨past, call, later, rfl, hregistered, fun other hother r' hagain => ?_⟩
  exact (List.nodup_cons.mp hnodup).1 ((mem_entries_iff hr).mpr ⟨other, hother, r', hagain⟩)

theorem carries_of_nodup {table : List (String × β)} (hr : Tells kind registration?) (hnodup : (entries calls).Nodup)
    (htable : ∀ name, table.lookup name = (calls.filterMap registration?).lookup name) :
    Carries table registration? calls where
  bound call hcall name r hregistered := by
    rw [htable, (alone_of_mem hr hnodup hcall hregistered).lookup_eq hr]
  alone name r hlookup := by
    obtain ⟨before, after, hsplit, -⟩ := List.lookup_eq_some_iff.mp ((htable name).symm.trans hlookup)
    have hmem : (name, r) ∈ calls.filterMap registration? := hsplit ▸ List.mem_append_cons_self
    obtain ⟨call, hcall, hregistered⟩ := List.mem_filterMap.mp hmem
    exact alone_of_mem hr hnodup hcall hregistered

end Setup

/-- The table in which that is bound too, if nothing is bound under its name yet. -/
def bindFirst (table : List (String × β)) : Option (String × β) → List (String × β)
  | some (name, r) => if (table.lookup name).isSome then table else table ++ [(name, r)]
  | none => table

/-- What is bound already is found, and not what would come behind it. -/
theorem lookup_bindFirst (table : List (String × β)) (e : Option (String × β)) (n : String) :
    (bindFirst table e).lookup n = (table ++ e.toList).lookup n := by
  rcases e with - | ⟨name, r⟩
  · rw [bindFirst, Option.toList_none, List.append_nil]
  · rw [bindFirst]
    split
    case isFalse => rfl
    case isTrue h =>
      obtain ⟨held, hheld⟩ := Option.isSome_iff_exists.mp h
      rw [Option.toList_some, List.lookup_append, List.lookup_cons]
      cases hn : n == name with
      | false => exact (Option.or_none).symm
      | true => rw [eq_of_beq hn, hheld, Option.some_or]

namespace Builder

open Setup

/-- The same builder after a call. -/
def apply (b : Builder m S) : Setup m S → Builder m S
  | .command name controller => b.command name controller
  | .commandCreate name controller => b.commandCreate name controller
  | .event name controller => b.event name controller
  | .eventCreate name controller => b.eventCreate name controller
  | .strict strict => b.withStrict strict
  | .config c => b.withConfig c
  | .ignore names => b.ignoreEvents names

def applyAll (b : Builder m S) (calls : List (Setup m S)) : Builder m S :=
  calls.foldl apply b

/-- Whether something is bound under that name for that kind of messages. -/
def holds (b : Builder m S) : MessageKind × String → Bool
  | (.command, name) => (b.commands.lookup name).isSome
  | (.event, name) => (b.events.lookup name).isSome

/-- The name under which a call registers something although something is bound under it. -/
def repeated? (b : Builder m S) (call : Setup m S) : Option String :=
  call.enters?.bind fun entry => if b.holds entry then some entry.2 else none

theorem registerCommand_eq (b : Builder m S) (mode : Mode) (name : String) (controller : CommandController m S) :
    b.registerCommand mode name controller =
      { b with
        commands := bindFirst b.commands (some (name, ⟨mode, controller⟩))
        duplicate := b.duplicate.or (if b.holds (.command, name) then some name else none) } := by
  rw [registerCommand, bindFirst, holds]
  split
  · rw [Option.orElse_eq_orElse, Option.orElse_eq_or]
  · rw [Option.or_none]

theorem registerEvent_eq (b : Builder m S) (mode : Mode) (name : String) (controller : EventController m S) :
    b.registerEvent mode name controller =
      { b with
        events := bindFirst b.events (some (name, ⟨mode, controller⟩))
        duplicate := b.duplicate.or (if b.holds (.event, name) then some name else none) } := by
  rw [registerEvent, bindFirst, holds]
  split
  · rw [Option.orElse_eq_orElse, Option.orElse_eq_or]
  · rw [Option.or_none]

/-- All that a call does. -/
theorem apply_eq (b : Builder m S) (call : Setup m S) : b.apply call =
    { b with
      commands := bindFirst b.commands call.command?
      events := bindFirst b.events call.event?
      ignored := b.ignored ++ call.ignored
      strict := call.strictness?.getD b.strict
      duplicate := b.duplicate.or (b.repeated? call) } := by
  cases call with
  | command | commandCreate =>
    simp [apply, command, commandCreate, registerCommand_eq, repeated?, enters?, command?, event?, bindFirst,
      Setup.ignored, strictness?]
  | event | eventCreate =>
    simp [apply, event, eventCreate, registerEvent_eq, repeated?, enters?, command?, event?, bindFirst,
      Setup.ignored, strictness?]
  | strict | config | ignore =>
    simp [apply, withStrict, withConfig, ignoreEvents, repeated?, enters?, command?, event?, bindFirst,
      Setup.ignored, strictness?]

theorem build_eq_error_iff (b : Builder m S) (err : EngineError) :
    b.build = .error err ↔ ∃ name, b.duplicate = some name ∧ err = .duplicateController name := by
  rw [build]
  cases b.duplicate with
  | none => simp
  | some name => simp [eq_comm]

theorem exists_build_eq_error_iff (b : Builder m S) : (∃ err, b.build = .error err) ↔ b.duplicate ≠ none := by
  simp only [build_eq_error_iff, Option.ne_none_iff_exists']
  constructor
  · rintro ⟨err, name, hname, -⟩
    exact ⟨name, hname⟩
  · rintro ⟨name, hname⟩
    exact ⟨_, name, hname, rfl⟩

theorem build_eq_ok {b : Builder m S} (h : b.duplicate = none) :
    b.build = .ok ⟨b.storage, b.publisher, b.commands, b.events, b.ignored, b.strict⟩ := by
  rw [build, h]

/-- What a builder holds after some calls, if it had that storage and that publisher from the beginning. -/
structure Reflects (b : Builder m S) (storage : Storage m S) (publisher : Publisher m) (calls : List (Setup m S)) :
    Prop where
  storage_eq : b.storage = storage
  publisher_eq : b.publisher = publisher
  lookup_commands : ∀ name, b.commands.lookup name = (calls.filterMap command?).lookup name
  lookup_events : ∀ name, b.events.lookup name = (calls.filterMap event?).lookup name
  ignored_eq : b.ignored = calls.flatMap Setup.ignored
  strict_eq : b.strict = (calls.filterMap strictness?).getLast?.getD false
  duplicate_eq_none_iff : b.duplicate = none ↔ (entries calls).Nodup
  duplicate_eq_some_iff : ∀ name, b.duplicate = some name ↔ FirstAgain calls name

namespace Reflects

variable {b : Builder m S} {storage : Storage m S} {publisher : Publisher m} {calls : List (Setup m S)}

theorem create (storage : Storage m S) (publisher : Publisher m) :
    (Builder.create storage publisher).Reflects storage publisher [] where
  storage_eq := rfl
  publisher_eq := rfl
  lookup_commands _ := rfl
  lookup_events _ := rfl
  ignored_eq := rfl
  strict_eq := rfl
  duplicate_eq_none_iff := iff_of_true rfl List.nodup_nil
  duplicate_eq_some_iff name := by
    refine iff_of_false (by intro h; cases h) ?_
    rintro ⟨past, call, later, kind, hcalls, -⟩
    simp at hcalls

theorem holds_iff (h : b.Reflects storage publisher calls) (entry : MessageKind × String) :
    b.holds entry = true ↔ entry ∈ entries calls := by
  obtain ⟨kind, name⟩ := entry
  cases kind with
  | command => rw [holds, h.lookup_commands, isSome_lookup_iff tells_command?]
  | event => rw [holds, h.lookup_events, isSome_lookup_iff tells_event?]

theorem repeated?_eq_some_iff (h : b.Reflects storage publisher calls) (call : Setup m S) (name : String) :
    b.repeated? call = some name ↔ ∃ kind, call.enters? = some (kind, name) ∧ (kind, name) ∈ entries calls := by
  simp only [repeated?, Option.bind_eq_some_iff, Option.ite_none_right_eq_some, h.holds_iff]
  constructor
  · rintro ⟨⟨kind, n⟩, hentry, hmem, hn⟩
    cases hn
    exact ⟨kind, hentry, hmem⟩
  · rintro ⟨kind, hentry, hmem⟩
    exact ⟨(kind, name), hentry, hmem, rfl⟩

theorem repeated?_eq_none_iff (h : b.Reflects storage publisher calls) (call : Setup m S) :
    b.repeated? call = none ↔ ∀ entry, call.enters? = some entry → entry ∉ entries calls := by
  rw [Option.eq_none_iff_forall_ne_some]
  simp only [ne_eq, h.repeated?_eq_some_iff, not_exists, not_and, Prod.forall]
  exact forall_comm

/-- A table of the builder goes on to find what was registered first. -/
theorem lookup_bindFirst_concat {table : List (String × β)} {registration? : Setup m S → Option (String × β)}
    (h : ∀ name, table.lookup name = (calls.filterMap registration?).lookup name) (call : Setup m S) (name : String) :
    (bindFirst table (registration? call)).lookup name = ((calls ++ [call]).filterMap registration?).lookup name := by
  rw [lookup_bindFirst, filterMap_concat, List.lookup_append, List.lookup_append, h]

/-- What one call makes of a builder. -/
theorem apply (h : b.Reflects storage publisher calls) (call : Setup m S) :
    (b.apply call).Reflects storage publisher (calls ++ [call]) := by
  rw [apply_eq]
  exact {
    storage_eq := h.storage_eq
    publisher_eq := h.publisher_eq
    lookup_commands := lookup_bindFirst_concat h.lookup_commands call
    lookup_events := lookup_bindFirst_concat h.lookup_events call
    ignored_eq := by rw [h.ignored_eq, List.flatMap_append, List.flatMap_singleton]
    strict_eq := by
      rw [filterMap_concat, List.getLast?_append, h.strict_eq]
      cases call.strictness? <;> rfl
    duplicate_eq_none_iff := by
      rw [Option.or_eq_none_iff, h.duplicate_eq_none_iff, h.repeated?_eq_none_iff, nodup_entries_concat]
    duplicate_eq_some_iff := fun name => by
      rw [Option.or_eq_some_iff, h.duplicate_eq_some_iff, h.duplicate_eq_none_iff, h.repeated?_eq_some_iff,
        firstAgain_concat] }

/-- What all of the calls make of it. -/
theorem applyAll (h : b.Reflects storage publisher calls) (rest : List (Setup m S)) :
    (b.applyAll rest).Reflects storage publisher (calls ++ rest) := by
  -- over the calls to come, from whatever those before have made of the builder
  induction rest generalizing b calls with
  | nil => exact (List.append_nil calls).symm ▸ h
  | cons call rest ih =>
    have hrest := ih (h.apply call)
    rw [List.append_assoc] at hrest
    exact hrest

end Reflects

end Builder

open Setup

/-- Registration never shadows. Building fails exactly if some name was registered twice for commands or twice for
events, and the error has the name of the earliest call that registered a name again for the same kind of messages.
Otherwise every controller that was registered is in the engine, with its mode, under a name that no other call
registered for the same kind of messages. The engine ignores all events that any call names for that, and it is as
strict as the last call that says so, or lenient if none does. -/
theorem registration_never_shadows (storage : Storage m S) (publisher : Publisher m) (calls : List (Setup m S)) :
    let built := ((Builder.create storage publisher).applyAll calls).build
    ((∃ err, built = .error err) ↔ ∃ kind name, List.Duplicate (kind, name) (entries calls)) ∧
    (∀ err, built = .error err ↔ ∃ name, FirstAgain calls name ∧ err = .duplicateController name) ∧
    ((¬∃ kind name, List.Duplicate (kind, name) (entries calls)) → ∃ engine, built = .ok engine ∧
      engine.storage = storage ∧ engine.publisher = publisher ∧
      Carries engine.commands command? calls ∧ Carries engine.events event? calls ∧
      (∀ name, name ∈ engine.ignored ↔ ∃ call ∈ calls, name ∈ call.ignored) ∧
      engine.strict = (calls.filterMap strictness?).getLast?.getD false) := by
  intro built
  have h := (Builder.Reflects.create storage publisher).applyAll calls
  rw [List.nil_append] at h
  have hnodup : (∃ kind name, List.Duplicate (kind, name) (entries calls)) ↔ ¬(entries calls).Nodup := by
    rw [← List.exists_duplicate_iff_not_nodup, Prod.exists]
  refine ⟨?_, ?_, fun hfresh => ?_⟩
  · rw [Builder.exists_build_eq_error_iff, hnodup, ne_eq, h.duplicate_eq_none_iff]
  · intro err
    rw [Builder.build_eq_error_iff]
    exact exists_congr fun name => and_congr_left fun _ => h.duplicate_eq_some_iff name
  · rw [hnodup, not_not] at hfresh
    have hcommands := carries_of_nodup tells_command? hfresh h.lookup_commands
    have hevents := carries_of_nodup tells_event? hfresh h.lookup_events
    refine ⟨_, Builder.build_eq_ok (h.duplicate_eq_none_iff.mpr hfresh), h.storage_eq, h.publisher_eq, hcommands,
      hevents, ?_, h.strict_eq⟩
    intro name
    rw [h.ignored_eq, List.mem_flatMap]

namespace Enrolment

open Rehearsal

def storage : Storage Play Tally :=
  Rehearsal.storage ⟨"tally", [], none, none, [], false⟩

def welcome : CommandController Play Tally :=
  fun _ _ => return none

def greet : EventController Play Tally :=
  ⟨fun event => .one event.streamId, fun _ _ => return ()⟩

/-- A name is registered for commands and for events, and strictness is set twice. -/
def calls : List (Setup Play Tally) :=
  [.commandCreate "join" welcome, .strict false, .event "join" greet, .config ⟨true, ["joined"], none⟩,
    .ignore ["left"]]

/-- Two names are registered again, and that for events comes first. -/
def again : List (Setup Play Tally) :=
  calls ++ [.event "leave" greet, .eventCreate "leave" greet, .strict true, .command "join" welcome]

end Enrolment

/-- One name can stand for a command and for an event. Of two names that are registered again, the first is told. -/
theorem registration_never_shadows_join_twice :
    (¬∃ kind name, List.Duplicate (kind, name) (entries Enrolment.calls)) ∧
      (∃ engine,
        ((Builder.create Enrolment.storage Rehearsal.publisher).applyAll Enrolment.calls).build = .ok engine ∧
        engine.commands.lookup "join" = some ⟨.create, Enrolment.welcome⟩ ∧
        engine.events.lookup "join" = some ⟨.load, Enrolment.greet⟩ ∧
        "joined" ∈ engine.ignored ∧ "left" ∈ engine.ignored ∧ engine.strict = true) ∧
      ((Builder.create Enrolment.storage Rehearsal.publisher).applyAll Enrolment.again).build =
        .error (.duplicateController "leave") := by
  have hfresh : ¬∃ kind name, List.Duplicate (kind, name) (entries Enrolment.calls) := by
    rintro ⟨kind, name, h⟩
    exact h.not_nodup (by decide)
  obtain ⟨-, -, hbuilt⟩ := registration_never_shadows Enrolment.storage Rehearsal.publisher Enrolment.calls
  obtain ⟨engine, hengine, -, -, hcommands, hevents, hignored, hstrict⟩ := hbuilt hfresh
  obtain ⟨-, herror, -⟩ := registration_never_shadows Enrolment.storage Rehearsal.publisher Enrolment.again
  refine ⟨hfresh, ⟨engine, hengine, ?_, ?_, ?_, ?_, hstrict⟩, ?_⟩
  · exact hcommands.bound (.commandCreate "join" Enrolment.welcome) (by simp [Enrolment.calls]) "join" _ rfl
  · exact hevents.bound (.event "join" Enrolment.greet) (by simp [Enrolment.calls]) "join" _ rfl
  · exact (hignored "joined").mpr ⟨.config ⟨true, ["joined"], none⟩, by simp [Enrolment.calls], by decide⟩
  · exact (hignored "left").mpr ⟨.ignore ["left"], by simp [Enrolment.calls], by decide⟩
  · refine (herror _).mpr ⟨"leave", ?_, rfl⟩
    exact ⟨Enrolment.calls ++ [.event "leave" Enrolment.greet], .eventCreate "leave" Enrolment.greet,
      [.strict true, .command "join" Enrolment.welcome], .event, rfl, rfl, by decide, by decide⟩

end EventJournal.Engine
