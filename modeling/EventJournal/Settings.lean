import EventJournal.Shape.Coded
import EventJournal.Version

/-!
Settings of the engine, the bus and the relay.
-/
namespace EventJournal

structure EngineConfig where
  /-- Events that are ignored, not routed or not picked up are errors. -/
  strict : Bool
  /-- Events that the engine never routes. -/
  ignoredEvents : List String
  /-- The period of the versions that no event takes. -/
  placeholderEvery : Option Nat
  deriving DecidableEq, Repr

namespace EngineConfig

def default : EngineConfig :=
  ⟨false, [], none⟩

/-- A period that is refused counts as none. -/
def versionPolicy (c : EngineConfig) : VersionPolicy :=
  (c.placeholderEvery.bind VersionPolicy.reserveEvery?).getD .sequential

instance : Coded EngineConfig where
  shape := .record "EngineConfig" true <|
    .defaulted "strict" .bool (.bool false) <|
    .defaulted "ignored_events" (.list .text) (.list []) <|
    .optional "placeholder_every" .u64 .nil
  toVal c := (c.strict, c.ignoredEvents, c.placeholderEvery, ())
  ofVal := fun (strict, ignored, every, _) => ⟨strict, ignored, every⟩
  ofVal_toVal _ := rfl

end EngineConfig

/-- The lanes of each topic, and the events that a lane holds before publishing waits. -/
structure BusConfig where
  partitions : Nat
  capacity : Nat
  deriving DecidableEq, Repr

inductive BusError where
  | invalidPartitions (found : Nat)
  | invalidCapacity (found : Nat)
  | alreadyListening
  | closed
  deriving DecidableEq, Repr

namespace BusConfig

def maxPartitions : Nat := 1024

def default : BusConfig :=
  ⟨32, 1⟩

def validate (c : BusConfig) : Except BusError Unit :=
  if c.partitions = 0 ∨ maxPartitions < c.partitions then .error (.invalidPartitions c.partitions)
  else if c.capacity = 0 then .error (.invalidCapacity c.capacity)
  else .ok ()

/-- The configurations that a bus can be made from. -/
structure Valid (c : BusConfig) : Prop where
  partitions : 1 ≤ c.partitions ∧ c.partitions ≤ 1024
  capacity : 1 ≤ c.capacity

theorem validate_eq_ok_iff {c : BusConfig} : c.validate = .ok () ↔ c.Valid := by
  constructor
  · intro h
    unfold validate at h
    split at h
    case isTrue => cases h
    case isFalse hlanes =>
      split at h
      case isTrue => cases h
      case isFalse hroom =>
        rw [maxPartitions] at hlanes
        exact ⟨by omega, by omega⟩
  · intro h
    have hlanes : ¬ (c.partitions = 0 ∨ maxPartitions < c.partitions) := by
      have hrange := h.partitions
      rw [maxPartitions]
      omega
    rw [validate, if_neg hlanes, if_neg (Nat.ne_of_gt h.capacity)]

instance : Coded BusConfig where
  shape := .record "BusConfig" true <|
    .defaulted "partitions" .usize (.int 32) <| .defaulted "capacity" .usize (.int 1) .nil
  toVal c := (c.partitions, c.capacity, ())
  ofVal := fun (partitions, capacity, _) => ⟨partitions, capacity⟩
  ofVal_toVal _ := rfl

end BusConfig

def BusError.message : BusError → String
  | .invalidPartitions n =>
    "partitions must be between 1 and " ++ Nat.repr BusConfig.maxPartitions ++ ", got " ++ Nat.repr n
  | .invalidCapacity n => "lane capacity must be at least 1, got " ++ Nat.repr n
  | .alreadyListening => "bus is already listening"
  | .closed => "bus is closed"

structure RelayConfig where
  intervalMs : Nat
  /-- The most batches that one pass takes. -/
  batch : Nat
  deriving DecidableEq, Repr

namespace RelayConfig

def default : RelayConfig :=
  ⟨5000, 100⟩

instance : Coded RelayConfig where
  shape := .record "RelayConfig" true <|
    .defaulted "interval_ms" .u64 (.int 5000) <| .defaulted "batch" .usize (.int 100) .nil
  toVal c := (c.intervalMs, c.batch, ())
  ofVal := fun (intervalMs, batch, _) => ⟨intervalMs, batch⟩
  ofVal_toVal _ := rfl

end RelayConfig

structure Settings where
  engine : EngineConfig
  bus : BusConfig
  relay : RelayConfig
  deriving DecidableEq, Repr

namespace Settings

def default : Settings :=
  ⟨.default, .default, .default⟩

instance : Coded Settings where
  shape := .record "Settings" true <|
    .defaulted "engine" (Coded.shape EngineConfig) (.object []) <|
    .defaulted "bus" (Coded.shape BusConfig) (.object []) <|
    .defaulted "relay" (Coded.shape RelayConfig) (.object []) .nil
  toVal s := (Coded.toVal s.engine, Coded.toVal s.bus, Coded.toVal s.relay, ())
  ofVal := fun (engine, bus, relay, _) => ⟨Coded.ofVal engine, Coded.ofVal bus, Coded.ofVal relay⟩
  ofVal_toVal _ := rfl

end Settings

end EventJournal
