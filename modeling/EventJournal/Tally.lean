import EventJournal.Stream

/-!
A small state to try the library with: a running total and a list of groups. One of its events fails
halfway through.
-/
namespace EventJournal

structure Tally where
  total : Int
  groups : List String
  deriving DecidableEq, Repr

namespace Tally

/-- The payload of `added`. -/
structure Added where
  amount : Int
  deriving DecidableEq, Repr

/-- The payload of `userJoined`. -/
structure UserJoined where
  group : String
  deriving DecidableEq, Repr

instance : Coded Added where
  shape := .record "Added" false <| .required "by" .int .nil
  toVal a := (a.amount, ())
  ofVal := fun (n, _) => ⟨n⟩
  ofVal_toVal _ := rfl

instance : Coded UserJoined where
  shape := .record "UserJoined" false <| .required "group" .text .nil
  toVal a := (a.group, ())
  ofVal := fun (s, _) => ⟨s⟩
  ofVal_toVal _ := rfl

def blank : Tally :=
  ⟨0, []⟩

def apply (event : Event) : EStateM PayloadError Tally Unit := fun t =>
  match event.name with
  | "added" =>
    match event.decode Added with
    | .ok a => .ok () { t with total := t.total + a.amount }
    | .error e => .error e t
  | "userJoined" =>
    match event.decode UserJoined with
    | .ok u => .ok () { t with groups := t.groups ++ [u.group] }
    | .error e => .error e t
  | "reset" => .ok () blank
  | "noted" => .ok () t
  | "halfway" => .error (.unexpected "halfway") { t with groups := t.groups ++ ["half"] }
  | other => .error (.unexpected other) t

instance : State Tally where
  shape := .record "Tally" false <| .required "total" .int <| .required "groups" (.list .text) .nil
  toVal t := (t.total, t.groups, ())
  ofVal := fun (total, groups, _) => ⟨total, groups⟩
  ofVal_toVal _ := rfl
  blank := blank
  apply := apply

end Tally

end EventJournal
