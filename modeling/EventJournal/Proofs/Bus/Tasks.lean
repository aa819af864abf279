import EventJournal.Proofs.Bus.Conduct
import EventJournal.Proofs.Bus.Courtesy

/-!
Crowds on a bus: those who publish, subscribe, listen and close, each at his own time, and the workers that
listening calls for. What the conduct keeps holds before each of their acts, and each knows from his own
notices which lanes he is in charge of and what he has in hand.
-/
namespace EventJournal.Bus

open History Told

variable {H X α : Type}

/-- What somebody asks of a bus. -/
inductive Task (H : Type) where
  | publish (ctx : Context) (events : List Event)
  | subscribe (topic : String) (handlers : List H)
  | listen (ctx : Context)
  | close

/-- How a task ends, or a turn of a worker. -/
inductive Ending where
  | published (events : List Event) (result : Except PublishError Unit)
  | subscribed (result : Except BusError Unit)
  | listened (result : Except BusError Unit)
  | closed
  | worked (worker : Worker) (more : Bool)

def Task.job (wiring : Wiring H X) : Task H → Noted H X Ending
  | publish ctx events => do
    let result ← ofFiber (publisher ctx events)
    return .published events result
  | subscribe topic handlers => do
    let result ← ofFiber (subscribeTo topic handlers)
    return .subscribed result
  | listen ctx => do
    let result ← Noted.listen ctx
    return .listened result
  | close => do
    Noted.close wiring
    return .closed

/-- One turn of a worker. -/
def shift (wiring : Wiring H X) (worker : Worker) : Noted H X Ending := do
  let more ← Noted.turn wiring worker
  return .worked worker more

/-- The acceptance of events, as it shows in the lanes. -/
def arrived (old new : Bus H) : List Notice :=
  (gains old new).map fun (id, event) => .accepted id event

/-- Whoever is hired becomes a job, and takes turns as long as there are any. The signals, the clock and
whatever else there is beside the bus may change at any time. -/
def rules (wiring : Wiring H X) : Rules (World H X) Notice Ending (World H X → World H X) where
  call w :=
    match w.hired with
    | [] => none
    | worker :: rest =>
      some (tell (.serves worker.lane) >>= fun _ => shift wiring worker, { w with hired := rest })
  again
    | .worked worker true => some (shift wiring worker)
    | _ => none
  watch v w := arrived v.bus w.bus
  outside f w := { f w with bus := w.bus, hired := w.hired }

/-- Tasks on a bus, of which none has done anything yet. -/
def crowd (wiring : Wiring H X) (bus : Bus H) (millis : Nat) (rest : X) (tasks : List (Task H)) :
    Crowd (World H X) Notice Ending :=
  .gather (World.create bus millis rest) (tasks.map (Task.job wiring))

/-- What is known of a job that has ended: if it was in charge of lanes, it has finished them, or takes
another turn. -/
def Known (mine : List Notice) : Ending → Prop
  | .published events result =>
    arrivals mine <+: events ∧ (result = .ok () → arrivals mine = events) ∧ Unattended mine
  | .subscribed _ | .listened (.error _) => Unattended mine
  | .listened (.ok ()) | .closed => .drained ∈ mine
  | .worked worker true => Charged worker.lane mine ∧ hands worker.lane mine = .free ∧
      ∀ id, Charged id mine → id = worker.lane
  | .worked _ false => ∀ id, Charged id mine → .finished id ∈ mine

/-- What holds of a bus, of the workers that are hired and of the history, and is kept by all who go by the
conduct. -/
structure Upheld (config : BusConfig) (seed : UInt32)
    (inv : Bus H → List Worker → List (Nat × Notice) → Prop) : Prop where
  shaped : ∀ {bus hired h}, inv bus hired h → bus.Shaped config seed
  /-- Lanes are in charge of somebody only once they are served. -/
  started : ∀ {bus hired h i id}, inv bus hired h → Charged id (own i h) → bus.started = true
  does : ∀ (i) {bus hired h notices bus' hired'}, inv bus hired h →
    Does config seed bus hired (own i h) notices bus' hired' → inv bus' hired' (h ++ told i notices)

def pact (wiring : Wiring H X) (inv : Bus H → List Worker → List (Nat × Notice) → Prop) :
    Pact (World H X) Notice Ending (World H X → World H X) where
  toRules := rules wiring
  inv w h := inv w.bus w.hired h
  ended := Known

section Lists

variable {old new : Bus H}

@[simp] theorem arrived_self (bus : Bus H) : arrived bus bus = [] := by
  simp [arrived]

theorem arrived_eq_nil (h : gains old new = []) : arrived old new = [] := by
  simp [arrived, h]

theorem unattended_arrived (old new : Bus H) : Unattended (arrived old new) := by
  intro n hn
  obtain ⟨⟨id, event⟩, -, rfl⟩ := List.mem_map.mp hn
  exact ⟨id, event, rfl⟩

end Lists

/-- What became of somebody's notices while he worked on a lane: he still has all of them and is in charge of
no more, and as to the other lanes he has in hand what he had. -/
structure Since (id : LaneId) (old new : List Notice) : Prop where
  kept : ∀ n ∈ old, n ∈ new
  charged : ∀ j, Charged j new → Charged j old
  other : ∀ j, j ≠ id → hands j new = hands j old

namespace Since

variable {id : LaneId} {old mid new : List Notice}

theorem refl (id : LaneId) (old : List Notice) : Since id old old :=
  ⟨fun _ h => h, fun _ h => h, fun _ _ => rfl⟩

theorem trans (h : Since id old mid) (h' : Since id mid new) : Since id old new where
  kept n hn := h'.kept n (h.kept n hn)
  charged j hc := h.charged j (h'.charged j hc)
  other j hj := (h'.other j hj).trans (h.other j hj)

/-- Meanwhile events arrived. -/
theorem append {ns : List Notice} (hn : Unattended ns) : Since id old (old ++ ns) where
  kept _ hm := List.mem_append_left _ hm
  charged _ hc := (charged_append.mp hc).resolve_right (not_charged_of_unattended hn)
  other _ _ := hands_append_of_unattended hn

theorem concat {n : Notice} (hn : ∀ j, j ≠ id → n.concerns j = false) (hc : ∀ j, ¬ Charged j [n]) :
    Since id old (old ++ [n]) where
  kept _ hm := List.mem_append_left _ hm
  charged j h := (charged_append.mp h).resolve_right (hc j)
  other j hj := hands_concat_of_not (hn j hj)

end Since

variable {config : BusConfig} {seed : UInt32} {wiring : Wiring H X}
  {inv : Bus H → List Worker → List (Nat × Notice) → Prop} {i : Nat} {w : World H X}
  {h : List (Nat × Notice)} {post : α → World H X → List (Nat × Notice) → Prop}

theorem safe_await {ready : World H X → Bool} {f : World H X → α × World H X} (hi : inv w.bus w.hired h)
    (hp : ∀ w' h', inv w'.bus w'.hired h' → own i h' = own i h → ready w' = true →
      post (f w').1 (f w').2 (h' ++ told i (arrived w'.bus (f w').2.bus))) :
    (pact wiring inv).Safe i post (ofFiber (Fiber.await ready f)) w h :=
  ⟨hi, hp⟩

/-- An act that leaves the bus alone. -/
theorem safe_look {ready : World H X → Bool} {f : World H X → α × World H X}
    (hb : ∀ w, (f w).2.bus = w.bus) (hh : ∀ w, (f w).2.hired = w.hired) (hi : inv w.bus w.hired h)
    (hp : ∀ w' h', inv (f w').2.bus (f w').2.hired h' → own i h' = own i h → ready w' = true →
      post (f w').1 (f w').2 h') :
    (pact wiring inv).Safe i post (ofFiber (Fiber.await ready f)) w h := by
  apply safe_await hi
  intro w' h' hi' ho hr
  have hnone : h' ++ told i (arrived w'.bus (f w').2.bus) = h' := by
    rw [hb, arrived_self, append_told_nil]
  rw [hnone]
  apply hp w' h' _ ho hr
  rw [hb, hh]
  exact hi'

theorem safe_note (message : String) (fields : List (String × Json)) (span : Option Span)
    {post : Unit → World H X → List (Nat × Notice) → Prop} (hi : inv w.bus w.hired h)
    (hp : ∀ w' h', inv w'.bus w'.hired h' → own i h' = own i h → post () w' h') :
    (pact wiring inv).Safe i post (ofFiber (note message fields span)) w h :=
  safe_look (fun _ => rfl) (fun _ => rfl) hi fun _ h' hi' ho _ => hp _ h' hi' ho

section Upheld

variable (hu : Upheld config seed inv)
include hu

/-- A visit of any job keeps what is upheld. -/
theorem Upheld.visit (i : Nat) {bus bus' : Bus H} {hired : List Worker} (hi : inv bus hired h)
    (hv : Visit config seed bus bus') : inv bus' hired (h ++ told i (arrived bus bus')) := by
  rcases hv.cases (hu.shaped hi) with ⟨hq, hs⟩ | ⟨event, hb⟩
  · rw [arrived_eq_nil hq.gains_eq]
    exact hu.does i hi (.quiet hq hs)
  · rw [arrived, hb.gains_eq]
    exact hu.does i hi (.brought hb)

/-- Whoever is in charge of a lane may run courteous programs, of which he notes no more than that events
were accepted. -/
theorem safe_courteous {id : LaneId} {t : Fiber (World H X) α} (ht : t.Courteous config seed)
    (hi : inv w.bus w.hired h) (hc : Charged id (own i h))
    (hp : ∀ a w' h' ns, inv w'.bus w'.hired h' → Unattended ns → own i h' = own i h ++ ns → post a w' h') :
    (pact wiring inv).Safe i post (ofFiber t) w h := by
  induction t generalizing w h with
  | done a => exact hp a w h [] hi (fun _ hn => by cases hn) (List.append_nil _).symm
  | act ready effect next ih =>
    refine ⟨hi, ?_⟩
    intro w' h' hi' ho hr
    have hc' : Charged id (own i h') := ho ▸ hc
    obtain ⟨hv, hhired, hn⟩ := ht w' (hu.shaped hi') (hu.started hi' hc') hr
    have hown : own i (h' ++ told i ((pact wiring inv).watch w' (effect w'))) =
        own i h ++ arrived w'.bus (effect w').bus := by
      rw [own_append, own_told, ho]
      rfl
    apply ih w' hn
    · rw [hhired]
      exact hu.visit i hi' hv
    · rw [hown]
      exact hc.mono fun n hn => List.mem_append_left _ hn
    · intro a w'' h'' ns hi'' hns ho''
      apply hp a w'' h'' (arrived w'.bus (effect w').bus ++ ns) hi''
      · intro n hn
        exact (List.mem_append.mp hn).elim (unattended_arrived _ _ n) (hns n)
      · rw [ho'', hown, List.append_assoc]

end Upheld

end EventJournal.Bus
