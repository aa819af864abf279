/-!
The lane that a key is sent to: a seeded hash of its bytes, taken modulo the number of lanes.
-/
namespace EventJournal.Routing

/-- Takes one byte into the hash. -/
def mix (d : UInt32) (b : UInt8) : UInt32 :=
  (d * 33) ^^^ b.toUInt32

/-- The high half is folded onto the low half. -/
def fold (d : UInt32) : UInt32 :=
  d ^^^ (d >>> 16)

def djb2 (seed : UInt32) (key : List UInt8) : UInt32 :=
  fold (key.foldl mix (5381 + seed + UInt32.ofNat key.length))

def lane (seed : UInt32) (key : List UInt8) (lanes : Nat) : Nat :=
  if lanes ≤ 1 then 0 else (djb2 seed key).toNat % lanes

theorem lane_lt (seed : UInt32) (key : List UInt8) {lanes : Nat} (h : 0 < lanes) :
    lane seed key lanes < lanes := by
  unfold lane
  split
  · exact h
  · exact Nat.mod_lt _ h

end EventJournal.Routing
