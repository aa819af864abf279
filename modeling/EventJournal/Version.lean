/-!
Versions of streams and of events. A stream's version counts its events; a policy says which version
the k-th event is stamped with.
-/
namespace EventJournal

/-- What a writer expects the stored version to be. -/
inductive ExpectedVersion where
  | any
  | exactly (version : Nat)
  deriving DecidableEq, Repr

def ExpectedVersion.admits : ExpectedVersion → Nat → Bool
  | .any, _ => true
  | .exactly v, actual => v == actual

@[simp] theorem ExpectedVersion.admits_exactly (v actual : Nat) :
    (ExpectedVersion.exactly v).admits actual = true ↔ v = actual := by
  simp [admits]

/-- Event versions follow the ordinals, or leave out every multiple of a period. -/
inductive VersionPolicy where
  | sequential
  | reserving (period : Nat) (two_le : 2 ≤ period)
  deriving DecidableEq, Repr

namespace VersionPolicy

def reserveEvery? (period : Nat) : Option VersionPolicy :=
  if h : 2 ≤ period then some (.reserving period h) else none

def period? : VersionPolicy → Option Nat
  | .sequential => none
  | .reserving n _ => some n

/-- The version of the event with an ordinal, counted from 1: one number is skipped behind every
`period - 1` of them. -/
def eventVersion : VersionPolicy → Nat → Nat
  | .sequential, k => k
  | .reserving n _, k => k + (k - 1) / (n - 1)

def isReserved : VersionPolicy → Nat → Bool
  | .sequential, _ => false
  | .reserving n _, v => v != 0 && v % n == 0

@[simp] theorem eventVersion_zero (p : VersionPolicy) : p.eventVersion 0 = 0 := by
  cases p <;> simp [eventVersion]

@[simp] theorem period?_reserveEvery? (n : Nat) :
    (reserveEvery? n).bind period? = if 2 ≤ n then some n else none := by
  unfold reserveEvery?
  split <;> simp_all [period?]

end VersionPolicy

end EventJournal
