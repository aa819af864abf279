import EventJournal.Context
import EventJournal.Json.Printer
import EventJournal.Timestamp

/-!
Log lines: one JSON object per record.
-/
namespace EventJournal.Record

/-- What a record tells, apart from its time. -/
def members (r : Record) : List (String × Json) :=
  [("level", .text r.level.name), ("fields", .object (("message", .text r.message) :: r.fields))] ++
    match r.span with
    | some span => [("span", .object (span.fields ++ [("name", .text span.name)]))]
    | none => []

def line (r : Record) (time : Timestamp) : String :=
  (Json.object (("timestamp", .text time.text) :: r.members)).toText .compact

end EventJournal.Record
