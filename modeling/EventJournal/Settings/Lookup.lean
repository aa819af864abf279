import EventJournal.Context
import EventJournal.Settings
import EventJournal.Text.Blank

/-!
Reading settings from named texts, such as the variables of an environment. A text of blanks counts as
unset, with a warning; the first text that cannot be used ends the reading.
-/
namespace EventJournal

inductive ConfigError where
  | parse (key value : String)
  | invalid (key reason : String)
  deriving DecidableEq, Repr

def ConfigError.key : ConfigError → String
  | .parse k _ => k
  | .invalid k _ => k

def ConfigError.message : ConfigError → String
  | .parse k v => k ++ ": cannot parse " ++ Text.quoted v
  | .invalid k r => k ++ ": " ++ r

namespace Settings

def strictKey := "TIDEWATER_STRICT"
def ignoredEventsKey := "TIDEWATER_IGNORED_EVENTS"
def placeholderEveryKey := "TIDEWATER_PLACEHOLDER_EVERY"
def partitionsKey := "TIDEWATER_BUS_PARTITIONS"
def capacityKey := "TIDEWATER_BUS_CAPACITY"
def relayIntervalKey := "TIDEWATER_RELAY_INTERVAL_MS"
def relayBatchKey := "TIDEWATER_RELAY_BATCH"

/-- The names under which settings are looked up. -/
def keys : List String :=
  [strictKey, ignoredEventsKey, placeholderEveryKey, partitionsKey, capacityKey, relayIntervalKey,
    relayBatchKey]

/-- The name under which a fault of the bus settings taken together is reported. -/
def busKeys := "TIDEWATER_BUS_*"

def emptyValue (key : String) : Record :=
  ⟨.warn, "tidewater_infra::config", "empty value, using default", [("key", .text key)], none⟩

/-- Warnings are kept also when the reading fails. -/
abbrev Reading := ExceptT ConfigError (StateM (List Record))

def parseBool? (s : List Char) : Option Bool :=
  if s = "true".toList then some true
  else if s = "false".toList then some false
  else none

def digitsValue? (n : Nat) : List Char → Option Nat
  | [] => some n
  | c :: r => if '0' ≤ c ∧ c ≤ '9' then digitsValue? (n * 10 + (c.toNat - 48)) r else none

/-- Decimal digits behind an optional plus sign, up to 64 bits. -/
def parseWord? (s : List Char) : Option Nat :=
  let ds :=
    match s with
    | '+' :: r => r
    | _ => s
  if ds.isEmpty then none
  else
    match digitsValue? 0 ds with
    | some n => if n < Nat.pow 2 64 then some n else none
    | none => none

/-- The value under a key, of its text without the blanks around it. -/
def valueOf (lookup : String → Option String) (key : String) (parse : List Char → Option α) :
    Reading (Option α) := do
  match lookup key with
  | none => return none
  | some raw =>
    let s := Text.trim raw.toList
    if s.isEmpty then
      modify (· ++ [emptyValue key])
      return none
    else
      match parse s with
      | some a => return some a
      | none => throw (.parse key raw)

/-- The parts of a text between commas. -/
def splitCommas : List Char → List (List Char)
  | [] => [[]]
  | c :: r =>
    if c = ',' then [] :: splitCommas r
    else
      match splitCommas r with
      | p :: ps => (c :: p) :: ps
      | [] => [[c]]

def parseNames (s : String) : List String :=
  (((splitCommas s.toList).map Text.trim).filter (!·.isEmpty)).map String.ofList

def readEngine (lookup : String → Option String) : Reading EngineConfig := do
  let strict ← valueOf lookup strictKey parseBool?
  let ignored := (lookup ignoredEventsKey).map parseNames
  let every ← valueOf lookup placeholderEveryKey parseWord?
  match every with
  | some n =>
    if n < 2 then
      throw (.invalid placeholderEveryKey ("must be at least 2, got " ++ Nat.repr n))
  | none => pure ()
  return ⟨strict.getD false, ignored.getD [], every⟩

def readBus (lookup : String → Option String) : Reading BusConfig := do
  let partitions ← valueOf lookup partitionsKey parseWord?
  let capacity ← valueOf lookup capacityKey parseWord?
  let bus : BusConfig :=
    ⟨partitions.getD BusConfig.default.partitions, capacity.getD BusConfig.default.capacity⟩
  match bus.validate with
  | .ok () => return bus
  | .error e => throw (.invalid busKeys e.message)

def readRelay (lookup : String → Option String) : Reading RelayConfig := do
  let interval ← valueOf lookup relayIntervalKey parseWord?
  let batch ← valueOf lookup relayBatchKey parseWord?
  if batch = some 0 then throw (.invalid relayBatchKey "must be at least 1")
  return ⟨interval.getD RelayConfig.default.intervalMs, batch.getD RelayConfig.default.batch⟩

def read (lookup : String → Option String) : Reading Settings := do
  let engine ← readEngine lookup
  let bus ← readBus lookup
  let relay ← readRelay lookup
  return ⟨engine, bus, relay⟩

/-- The settings, or why there are none, and the warnings on the way. -/
def ofLookup (lookup : String → Option String) : Except ConfigError Settings × List Record :=
  (read lookup).run.run []

end Settings

end EventJournal
