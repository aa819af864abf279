import EventJournal.Proofs.Firm.Accounts
import EventJournal.Proofs.Firm.Calm
import EventJournal.Proofs.Engine.Publication
import EventJournal.Tally

/-!
Exactly once. Engines publish what they stored on a bus, relays publish again what did not get there, and on the
bus everything goes through one lane per stream to handlers that run once per event. So whatever is stored is
handled at most once by each of them, and just once when all has come to rest.
-/
namespace EventJournal

open History Bus

variable {H Y S : Type}

/-- An event has been stored or accepted. -/
inductive Firm.Met (c : Crowd (Store S × Office H Y) (Deed ⊕ Notice) (Outcome ⊕ Ending)) (e : Event) : Prop where
  | stored (id : StreamId) (mem : e ∈ c.state.1.journal id)
  | accepted (i : Nat) (lane : LaneId) (told : (i, .inr (.accepted lane e)) ∈ c.history)

/-- No call is under way, nothing waits in the outbox, and all lanes are drained: none holds an event, and
nobody has one of it in hand. -/
structure Firm.AtRest (calls : List (Call (Office H Y) S))
    (c : Crowd (Store S × Office H Y) (Deed ⊕ Notice) (Outcome ⊕ Ending)) : Prop where
  back : ∀ i < calls.length, (∃ o, c.jobs[i]? = some (.done (.inl o))) ∨ own i c.history = []
  empty : c.state.1.outbox.batches = []
  drained : ∀ lane, c.state.2.bus.queue lane = [] ∧ hands lane ((rights c.history).map Prod.snd) = .free

namespace Firm

section Crowd

variable [DecidableEq H] [State S] {firm : Firm H Y} {config : BusConfig} {seed : UInt32}
  {codec : Codec} {policy : VersionPolicy} {bus : Bus H} {millis : Nat} {y : Y}
  {calls : List (Call (Office H Y) S)} {tasks : List (Bus.Task H)}

section Run

variable (hf : firm.Sound config seed) (hcalls : ∀ call ∈ calls, Serves config seed call)
  (hb : Ledger config seed bus [] []) (moves : List (Move (Office H Y → Office H Y)))
include hf hcalls hb

/-- As long as the handlers of the topic stay the same and no two events have one id, the diaries have what
they should have. -/
theorem kept
    (hsteady : ∀ n, ((firm.crowd codec policy bus millis y calls tasks).run firm.house
      (moves.take n)).state.2.bus.handlers firm.topic = firm.handlers)
    (hid : let c := (firm.crowd codec policy bus millis y calls tasks).run firm.house moves
      ∀ e e', Met c e → Met c e' → e.id = e'.id → e = e') :
    let c := (firm.crowd codec policy bus millis y calls tasks).run firm.house moves
    firm.Kept c.state.2.diaries ((rights c.history).map Prod.snd) := by
  intro c
  have hknown : ∀ n, let c := (firm.crowd codec policy bus millis y calls tasks).run firm.house (moves.take n)
      (firm.accord config seed).known c.state.2 (rights c.history) := by
    intro n before
    have l : Ledger config seed before.state.2.bus before.state.2.hired (rights before.history) :=
      (ledger hf hcalls hb (moves.take n)).1
    refine ⟨l.shaped, hsteady n, l.orderly ?_⟩
    -- whatever was accepted until then is so at the end
    obtain ⟨more, hmore⟩ := Crowd.history_run firm.house before (moves.drop n)
    rw [← Crowd.run_append, List.take_append_drop] at hmore
    have hmet : ∀ e ∈ arrivals ((rights before.history).map Prod.snd), Met c e := by
      intro e he
      obtain ⟨lane, hn⟩ := mem_arrivals.mp he
      obtain ⟨⟨i, n⟩, hi, rfl⟩ := List.mem_map.mp hn
      refine .accepted i lane ?_
      rw [hmore]
      exact List.mem_append_left _ (mem_rights.mp hi)
    exact fun e he e' he' => hid e e' (hmet e he) (hmet e' he')
  have hc : ((firm.accord config seed).house Errand.recorded Backed).Holds c :=
    holds_crowd hospitable_accord hf.lawful rfl hcalls
      (fun task i w h hi hn => hf.calm_job task i w h ⟨fun _ => hi, hn ▸ idle_nil⟩) (kept_blank firm) moves hknown
  exact hc.inv.1

end Run

variable (codec policy millis y tasks) in
/-- Take engines and relays on one store that starts empty, and a bus on which the events of that store have a
topic with handlers that run once per event and do not fail. Publications may be refused or cut off after any
part of a batch, and all that is done may interleave in any way. As long as the handlers of the topic stay the
same and no two events have one id, a stored event is handled at most once by each of them. And when all has come
to rest it was handled just once by each that takes it. -/
theorem exactly_once {bus₀ : Bus H} (hb : create? config seed = .ok bus₀)
    (hs : bus₀.subscribe firm.topic firm.handlers = .ok bus) (hf : firm.Sound config seed)
    (hcalls : ∀ call ∈ calls, Serves config seed call) (moves : List (Move (Office H Y → Office H Y)))
    (hsteady : ∀ n, ((firm.crowd codec policy bus millis y calls tasks).run firm.house
      (moves.take n)).state.2.bus.handlers firm.topic = firm.handlers)
    (hid : let c := (firm.crowd codec policy bus millis y calls tasks).run firm.house moves
      ∀ e e', Met c e → Met c e' → e.id = e'.id → e = e') :
    let c := (firm.crowd codec policy bus millis y calls tasks).run firm.house moves
    (∀ id, ∀ e ∈ c.state.1.journal id, ∀ k ∈ firm.handlers,
      (c.state.2.diaries k).trials.filter (·.event.id == e.id) <+: [.begun e, .handled e true]) ∧
    (AtRest calls c → ∀ id, ∀ e ∈ c.state.1.journal id, ∀ k ∈ firm.handlers,
      (firm.inner k).accepts e = true →
        (c.state.2.diaries k).trials.filter (·.event.id == e.id) = [.begun e, .handled e true]) := by
  intro c
  have hledger := ledger_subscribed hb hs
  obtain ⟨l, hbacked⟩ : Ledger config seed c.state.2.bus c.state.2.hired (rights c.history) ∧
      Backed c.history := ledger hf hcalls hledger moves
  have hkept : firm.Kept c.state.2.diaries ((rights c.history).map Prod.snd) :=
    kept hf hcalls hledger moves hsteady hid
  have hnamed : ∀ id, ∀ e ∈ c.state.1.journal id, e.streamName = firm.topic := named hcalls moves
  constructor
  · intro id e he k hk
    by_cases hp : (c.state.2.diaries k).page e.id = Diary.unread
    · rw [show (c.state.2.diaries k).trials.filter (·.event.id == e.id) = [] from congrArg Prod.snd hp]
      exact List.nil_prefix
    · obtain ⟨lane, event, hn, heq⟩ := hkept.begun k hk e.id hp
      obtain ⟨⟨i, n⟩, hi, hin⟩ := List.mem_map.mp (l.accepted_of_begun hn)
      have hsame : event = e := by
        refine hid event e (.accepted i lane (mem_rights.mp ?_)) (.stored id he) heq
        exact hin ▸ hi
      subst hsame
      have htopic : lane.topic = firm.topic := by
        rw [l.home_of_begun hn]
        exact hnamed id event he
      exact (hkept.tidy htopic hn k hk).1
  · intro hrest id e he k hk ha
    obtain ⟨i, es, hi, hes⟩ := published hcalls moves hrest.back hrest.empty id e he
    obtain ⟨lane, hlane⟩ := hbacked i es hi e hes
    have haccepted : .accepted lane e ∈ (rights c.history).map Prod.snd :=
      List.mem_map.mpr ⟨_, mem_rights.mpr hlane, rfl⟩
    have hdelivered := l.delivered_of_drained (hrest.drained lane).1 (hrest.drained lane).2
    have htopic : lane.topic = firm.topic := by
      rw [(l.flows.placed lane e haccepted).1]
      exact hnamed id e he
    exact congrArg Prod.snd ((hkept.done (hdelivered.ended haccepted)).2 htopic k hk ha)

end Crowd

namespace Relayed

/-- A handler that takes every event. -/
def firm : Firm Unit Unit where
  topic := "tally"
  handlers := [()]
  inner _ :=
    { accepts := fun _ => true
      handle := fun _ _ => return .ok ()
      rollback := fun _ _ => return .ok () }
  observe _ := return ()

def noting : CommandController (Fiber (Office Unit Unit)) Tally := fun _ _ => do
  let _ ← Revision.emit "noted" (.ok .null)
  return none

/-- The publisher of the engine is interrupted after the first event. -/
def staff : Staff (Office Unit Unit) Tally where
  publisher := interrupted fun _ _ => return some (1, .transport "lost")
  commands := [("open", ⟨.create, noting⟩)]
  events := []
  ignored := []
  strict := false
  fault _ _ := return none

/-- A stream is opened, then the relay passes. -/
def calls : List (Call (Office Unit Unit) Tally) :=
  [.command staff .background (Moody.request "open"),
    .pass (interrupted fun _ _ => return none) .default .background]

def bus : Bus Unit :=
  ⟨⟨2, 4⟩, 7, [("tally", ⟨[()], .replicate 2 .empty⟩)], false, false, false, false, 0⟩

def start : Crowd (Store Tally × Office Unit Unit) (Deed ⊕ Notice) (Outcome ⊕ Ending) :=
  firm.crowd (.json .compact) .sequential bus 0 () calls [.listen .background, .close]

/-- Both workers do an act. -/
def lap : List (Move (Office Unit Unit → Office Unit Unit)) :=
  [.job 4, .job 5]

/-- The engine and the relay come first, then the workers; in the end the bus is closed. -/
def moves : List (Move (Office Unit Unit → Office Unit Unit)) :=
  .replicate 18 (.job 0) ++ .replicate 12 (.job 1) ++ .replicate 3 (.job 2) ++ [.call, .call] ++
    (List.replicate 10 lap).flatten ++ [.job 3] ++ (List.replicate 4 lap).flatten ++
      .replicate 4 (.job 2) ++ [.job 3]

def final : Crowd (Store Tally × Office Unit Unit) (Deed ⊕ Notice) (Outcome ⊕ Ending) :=
  start.run firm.house moves

theorem sound (config : BusConfig) (seed : UInt32) : firm.Sound config seed where
  courteous _ := ⟨fun _ _ => Fiber.courteous_pure _, fun _ _ => Fiber.courteous_pure _⟩
  discreet _ := ⟨fun _ _ => Fiber.abides_pure _, fun _ _ => Fiber.abides_pure _⟩
  observe_courteous _ := Fiber.courteous_pure _
  observe_discreet _ := Fiber.abides_pure _
  succeeds _ _ _ _ := rfl

theorem civil_noting {config : BusConfig} {seed : UInt32} (ctx : Context) (command : Command) (s : Stream Tally) :
    ((noting ctx command).run.run s).Civil config seed := by
  simp only [noting, Revision.emit, Revision.lift, ExceptT.run_bind, ExceptT.run_lift, ExceptT.run_mk,
    StateT.run_bind, StateT.run_lift, map_eq_pure_bind, bind_assoc, pure_bind]
  refine Fiber.Abides.bind (t := Ambient.stamp) (fun w _ _ => ⟨⟨.none, rfl, rfl⟩, trivial⟩) ?_
  intro stamp
  refine Fiber.Abides.bind (t := Ambient.now) (fun w _ _ => ⟨⟨.none, rfl, rfl⟩, trivial⟩) ?_
  intro takenAt
  cases Stream.append ⟨stamp, takenAt⟩ "noted" (.ok .null) s with
  | ok event s' => exact Fiber.abides_pure _
  | error e s' => exact Fiber.abides_pure _

theorem employs (config : BusConfig) (seed : UInt32) : Employs config seed staff where
  publisher := ⟨_, fun _ _ => Fiber.abides_pure _, rfl⟩
  commands n c hc ctx command s := by
    cases List.mem_singleton.mp hc
    exact civil_noting ctx command s
  events n c hc := by cases hc
  named := {
    commands := by
      intro n c hc ctx command
      cases List.mem_singleton.mp hc
      have hemit : Revision.Keeps Stream.Named
          (Revision.emit "noted" (.ok .null) : Revision (Fiber (Office Unit Unit)) Tally Event) :=
        Revision.Appends.named (Revision.appends_emit _ _)
      exact hemit.bind fun _ => Revision.keeps_pure none
    events := fun n c hc => by cases hc }
  faultless := rfl

theorem serves (config : BusConfig) (seed : UInt32) : ∀ call ∈ calls, Serves config seed call := by
  intro call hcall
  simp only [calls, List.mem_cons, List.not_mem_nil, or_false] at hcall
  obtain rfl | rfl := hcall
  · exact employs config seed
  · exact ⟨_, fun _ _ => Fiber.abides_pure _, rfl⟩

/-- The one event. -/
def note : Event :=
  ⟨⟨.ofNat 528914269453437118709761⟩, "noted", ⟨.ofNat 2⟩, "tally", none, 1, ⟨1970, 1, 1, 0, 0, 0, 0⟩, .null⟩

/-- Payloads have no decidable equality, so that of this event is matched. -/
def isNote : Event → Bool
  | ⟨id, name, stream, streamName, owner, version, createdAt, .null⟩ =>
    decide (id = note.id ∧ name = note.name ∧ stream = note.streamId ∧ streamName = note.streamName ∧
      owner = note.owner ∧ version = note.version ∧ createdAt = note.createdAt)
  | _ => false

theorem eq_of_isNote {e : Event} (h : isNote e = true) : e = note := by
  unfold isNote at h
  split at h
  · obtain ⟨rfl, rfl, rfl, rfl, rfl, rfl, rfl⟩ := of_decide_eq_true h
    rfl
  · cases h

theorem stored_final : final.state.1.entries.all (·.2.journal.all isNote) = true := by
  decide +kernel

theorem accepted_final : (arrivals ((rights final.history).map Prod.snd)).all isNote = true := by
  decide +kernel

theorem eq_of_met {e : Event} (h : Met final e) : e = note := by
  cases h with
  | stored id mem =>
    obtain ⟨p, hp, he⟩ := Store.exists_entry_of_mem mem
    exact eq_of_isNote (List.all_eq_true.mp (List.all_eq_true.mp stored_final p hp) e he)
  | accepted i lane told =>
    have he : e ∈ arrivals ((rights final.history).map Prod.snd) :=
      mem_arrivals.mpr ⟨lane, List.mem_map.mpr ⟨_, mem_rights.mpr told, rfl⟩⟩
    exact eq_of_isNote (List.all_eq_true.mp accepted_final e he)

theorem journal_final : ∃ e, final.state.1.journal ⟨.ofNat 2⟩ = [e] := by
  have hone : (final.state.1.journal ⟨.ofNat 2⟩).length = 1 := by decide +kernel
  exact List.length_eq_one_iff.mp hone

theorem steady (n : Nat) :
    (start.run firm.house (moves.take n)).state.2.bus.handlers firm.topic = firm.handlers := by
  have hall : start.along firm.house (fun c => c.state.2.bus.handlers "tally" = [()]) moves = true := by
    decide +kernel
  exact of_decide_eq_true (Crowd.along_take hall n)

/-- Whether a job has come back with a result of some kind. -/
def isBack (kind : Outcome ⊕ Ending → Bool) :
    Option (Told (Store Tally × Office Unit Unit) (Deed ⊕ Notice) (Outcome ⊕ Ending)) → Bool
  | some (.done r) => kind r
  | _ => false

theorem eq_of_isBack {kind : Outcome ⊕ Ending → Bool}
    {t : Option (Told (Store Tally × Office Unit Unit) (Deed ⊕ Notice) (Outcome ⊕ Ending))}
    (h : isBack kind t = true) : ∃ r, t = some (.done r) ∧ kind r = true := by
  unfold isBack at h
  split at h
  · exact ⟨_, rfl, h⟩
  · cases h

def isClosed : Outcome ⊕ Ending → Bool
  | .inr .closed => true
  | _ => false

theorem eq_of_isClosed {r : Outcome ⊕ Ending} (h : isClosed r = true) : r = .inr .closed := by
  unfold isClosed at h
  split at h
  · rfl
  · cases h

theorem created : create? ⟨2, 4⟩ 7 = .ok (fresh ⟨2, 4⟩ 7 : Bus Unit) := rfl

theorem subscribed : (fresh ⟨2, 4⟩ 7 : Bus Unit).subscribe firm.topic firm.handlers = .ok bus := rfl

theorem final_eq : (firm.crowd (.json .compact) .sequential bus 0 () calls [.listen .background, .close]).run
    firm.house moves = final := rfl

theorem closed_final : final.jobs[3]? = some (.done (.inr .closed)) := by
  have hback : isBack isClosed final.jobs[3]? = true := by decide +kernel
  obtain ⟨r, hr, hc⟩ := eq_of_isBack hback
  rw [hr, eq_of_isClosed hc]

theorem atRest_final : AtRest calls final where
  back i hi := by
    have hall : ∀ i < calls.length, isBack Sum.isLeft final.jobs[i]? = true := by decide +kernel
    obtain ⟨r, hr, hl⟩ := eq_of_isBack (hall i hi)
    obtain ⟨o, rfl⟩ := Sum.isLeft_iff.mp hl
    exact .inl ⟨o, hr⟩
  empty := List.isEmpty_iff.mp (by decide +kernel)
  drained := by
    have h := drained_of_back (.json .compact) .sequential 0 () [.listen .background, .close] (sound ⟨2, 4⟩ 7)
      (serves ⟨2, 4⟩ 7) (ledger_subscribed created subscribed) moves
    rw [final_eq] at h
    exact h 3 (.inr closed_final)

end Relayed

/-- So an event that was accepted twice, first by an engine that was interrupted and then by the relay, is handled
once. -/
theorem exactly_once_after_interruption :
    create? ⟨2, 4⟩ 7 = .ok (fresh ⟨2, 4⟩ 7 : Bus Unit) ∧
    (fresh ⟨2, 4⟩ 7 : Bus Unit).subscribe Relayed.firm.topic Relayed.firm.handlers = .ok Relayed.bus ∧
    Relayed.firm.Sound ⟨2, 4⟩ 7 ∧ (∀ call ∈ Relayed.calls, Serves ⟨2, 4⟩ 7 call) ∧
    (∀ n, (Relayed.start.run Relayed.firm.house (Relayed.moves.take n)).state.2.bus.handlers Relayed.firm.topic =
      Relayed.firm.handlers) ∧
    (∀ e e', Met Relayed.final e → Met Relayed.final e' → e.id = e'.id → e = e') ∧
    AtRest Relayed.calls Relayed.final ∧
    (arrivals ((rights Relayed.final.history).map Prod.snd)).length = 2 ∧
    ∃ e, Relayed.final.state.1.journal ⟨.ofNat 2⟩ = [e] ∧
      (Relayed.final.state.2.diaries ()).trials.filter (·.event.id == e.id) = [.begun e, .handled e true] := by
  have hf := Relayed.sound ⟨2, 4⟩ 7
  have hcalls := Relayed.serves ⟨2, 4⟩ 7
  have hid : ∀ e e', Met Relayed.final e → Met Relayed.final e' → e.id = e'.id → e = e' :=
    fun e e' he he' _ => (Relayed.eq_of_met he).trans (Relayed.eq_of_met he').symm
  have h := exactly_once (.json .compact) .sequential 0 () [.listen .background, .close] Relayed.created
    Relayed.subscribed hf hcalls Relayed.moves Relayed.steady hid
  rw [Relayed.final_eq] at h
  obtain ⟨e, he⟩ := Relayed.journal_final
  have htwice : (arrivals ((rights Relayed.final.history).map Prod.snd)).length = 2 := by decide +kernel
  have hmem : e ∈ Relayed.final.state.1.journal ⟨.ofNat 2⟩ := by
    rw [he]
    exact List.mem_singleton.mpr rfl
  exact ⟨Relayed.created, Relayed.subscribed, hf, hcalls, Relayed.steady, hid, Relayed.atRest_final, htwice, e, he,
    h.2 Relayed.atRest_final _ e hmem () (List.mem_singleton.mpr rfl) rfl⟩

end Firm

end EventJournal
