import EventJournal.Log
import EventJournal.Shop.Tour
import Std.Time.DateTime.Timestamp

/-!
The command line: a tour of the shop, with settings from the environment. The log goes to standard output, one
line per record; what keeps the tour from taking place goes to standard error.
-/
namespace EventJournal.Main

/-- The variables of the environment that settings are read from. -/
def environment : IO (List (String × String)) := do
  let mut found := []
  for key in Settings.keys do
    match ← IO.getEnv key with
    | some value => found := found ++ [(key, value)]
    | none => pure ()
  return found

def run : IO UInt32 := do
  let found ← environment
  let now ← Std.Time.Timestamp.now
  let millis := now.toMillisecondsSinceUnixEpoch.toInt.toNat
  let (records, failed) := Shop.tour (fun key => found.lookup key) millis
  let out ← IO.getStdout
  for r in records do
    if r.level != .debug then out.putStrLn (r.line (.ofUnixMillis millis))
  match failed with
  | none => return 0
  | some e =>
    (← IO.getStderr).putStr e.message
    return 1

end EventJournal.Main

def main : IO UInt32 :=
  EventJournal.Main.run
