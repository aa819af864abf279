import EventJournal.Proofs.Engine.Accounting
import EventJournal.Proofs.Engine.Replay
import EventJournal.Proofs.Firm.Office

/-!
The engines and relays of a firm. As to their store, whatever happens in a firm could happen if they were
alone. So its journals hold only events of its topic, and each of those is published when no call is under
way and nothing waits in the outbox.
-/
namespace EventJournal

open History

variable {H X Y S W α : Type}

namespace Stream

theorem streamName_append [State S] {s t : Stream S} {posting : Posting} {name : String} {payload : Payload}
    {event : Event} (h : s.append posting name payload = .ok event t) : event.streamName = s.name := by
  simp only [append] at h
  split at h
  · cases h
  · split at h
    · cases h
      rfl
    · cases h

/-- Appending adds only events of the stream's name. -/
theorem Named.grows [State S] {s t : Stream S} (hs : s.Named) (h : s.GrowsTo t) : t.Named := by
  induction h with
  | refl => exact hs
  | append _ taken ih =>
    have hname := streamName_append taken
    obtain ⟨-, ht⟩ := append_eq_ok taken
    intro e he
    rw [ht] at he ⊢
    rcases List.mem_append.mp he with he | he
    · exact ih e he
    · rw [List.mem_singleton.mp he]
      exact hname

/-- What is minded of a store with one name: that its events are of that name. -/
def registry (name : String) : Custody S where
  inv store := store.name = name ∧ ∀ id, ∀ e ∈ store.journal id, e.streamName = name
  grows _ _ := True
  fits _ s := s.Named

theorem lawful_registry [State S] (name : String) (policy : VersionPolicy) :
    (registry name : Custody S).Lawful name policy where
  name_eq hi := hi.1
  refl _ := trivial
  trans _ _ := trivial
  stable hs _ := hs
  load _ hl e he := by
    rw [(Store.load_eq_ok hl).2] at he
    cases he
  blank _ _ _ _ e he := by cases he
  persist {store s store'} hi hs _ hp := by
    obtain ⟨hname, -, snapshot, -, rfl⟩ := Store.persist_eq_ok hp
    refine ⟨⟨hi.1, ?_⟩, trivial⟩
    intro id e he
    by_cases hid : id = s.id
    · subst hid
      rw [Store.journal_extended] at he
      rcases List.mem_append.mp he with he | he
      · exact hi.2 s.id e he
      · exact (hs e he).trans (hname.trans hi.1)
    · rw [Store.journal_extended_other _ _ _ hid] at he
      exact hi.2 id e he
  outbox _ hi := ⟨hi, trivial⟩

end Stream

theorem Revision.Appends.named [State S] {work : Revision (Fiber W) S α} (hw : work.Appends) :
    work.Keeps Stream.Named :=
  hw.keeps fun _ _ hs hg => hs.grows hg

/-- A guest that has come back in a house has come back. -/
theorem Crowd.Mirrors.result? {a b ν μ κ l : Type} {c : Crowd (a × b) (ν ⊕ μ) (κ ⊕ l)}
    {g : Crowd (a × b) ν κ} (m : Mirrors c g) {i : Nat} {t : Told (a × b) ν κ} (ht : g.jobs[i]? = some t)
    {r : κ} (hr : c.jobs[i]? = some (.done (.inl r))) : t.result? = some r := by
  rw [m.guests i t ht] at hr
  cases t with
  | done r' =>
    cases hr
    rfl
  | act ready effect next => cases hr
  | note n rest => cases hr

section Calls

variable [Ambient (Fiber W)] [State S] {name : String} {codec : Codec} {policy : VersionPolicy} {w : W}
  {calls : List (Call W S)}

/-- Only events with the name of the store are stored, if controllers add no others. -/
theorem named_of_keeps (hk : ∀ call ∈ calls, call.Keeps Stream.Named) (hsure : ∀ call ∈ calls, call.Sure)
    (moves : List (Move (W → W))) :
    let c := (Call.crowd name codec policy w calls).run Errand.rules moves
    (∀ id, ∀ e ∈ c.state.1.journal id, e.streamName = name) ∧ Lossless c.history := by
  intro c
  have hstart : (Stream.registry name : Custody S).inv (.fresh name codec policy) :=
    ⟨rfl, fun id e he => by simp at he⟩
  have hc : ((Stream.registry name).accord True).Holds c :=
    Custody.holds_crowd (Stream.lawful_registry name policy) (fun _ => hsure) (fun call hcall _ => hk call hcall)
      hstart w moves
  exact ⟨hc.inv.1.2, hc.inv.2 trivial⟩

/-- If nothing can be lost, and no call that told anything is still under way, then everything that does
not wait in the outbox was published. -/
theorem published_of_settled (moves : List (Move (W → W))) :
    let c := (Call.crowd name codec policy w calls).run Errand.rules moves
    Lossless c.history → (∀ i t, c.jobs[i]? = some t → t.result? = none → own i c.history = []) →
      c.state.1.outbox.batches = [] → ∀ id, ∀ e ∈ c.state.1.journal id,
        ∃ i es, (i, .published es) ∈ c.history ∧ e ∈ es := by
  intro c hl hrest hempty id e he
  have hkeeps : ∀ call ∈ calls, call.Keeps fun s : Stream S => False → s.Own :=
    fun call _ => Call.Keeps.of_imp False.elim
  have hc : (Errand.pact (Books False) Errand.Done).Holds c :=
    Errand.holds_crowd (Books.upheld False name policy) hkeeps (Books.fresh name codec policy) w moves
  cases (hc.inv.accounted id e he).place hc with
  | published i es htold hes => exact ⟨i, es, htold, hes⟩
  | pending b hb hbe =>
    rw [hempty] at hb
    cases hb
  | underway i t p ht hbusy howes hpe =>
    rw [hrest i t ht hbusy] at howes
    cases howes
  | lost i t p ht htold => exact absurd htold (hl i p)

end Calls

namespace Firm

variable [DecidableEq H] [State S] {firm : Firm H Y} {codec : Codec} {policy : VersionPolicy} {bus : Bus H}
  {millis : Nat} {y : Y} {calls : List (Call (Office H Y) S)} {tasks : List (Bus.Task H)}

variable (firm codec policy bus millis y calls tasks) in
/-- As to its calls a firm is a crowd of calls. -/
theorem mirrors_run (moves : List (Move (Office H Y → Office H Y))) : ∃ moves',
    Crowd.Mirrors ((firm.crowd codec policy bus millis y calls tasks).run firm.house moves)
      ((Call.crowd firm.topic codec policy (World.create bus millis (fun _ => .blank, y)) calls).run
        Errand.rules moves') :=
  (Crowd.mirrors_gather _ _ _).run Errand.recorded_self moves

omit [State S] [DecidableEq H] in
theorem Serves.keeps {config : BusConfig} {seed : UInt32} {call : Call (Office H Y) S}
    (hc : Serves config seed call) : call.Keeps Stream.Named := by
  cases call with
  | command staff ctx command => exact hc.named
  | event staff ctx event => exact hc.named
  | pass publisher config ctx => trivial

omit [State S] [DecidableEq H] in
theorem Serves.sure {config : BusConfig} {seed : UInt32} {call : Call (Office H Y) S}
    (hc : Serves config seed call) : call.Sure := by
  have hstaff : ∀ {staff : Staff (Office H Y) S}, Employs config seed staff → staff.Sure := by
    intro staff hs ctx s
    rw [hs.faultless]
    rfl
  cases call with
  | command staff ctx command => exact hstaff hc
  | event staff ctx event => exact hstaff hc
  | pass publisher config ctx => trivial

variable {config : BusConfig} {seed : UInt32} (hcalls : ∀ call ∈ calls, Serves config seed call)
  (moves : List (Move (Office H Y → Office H Y)))
include hcalls

/-- Only events of the topic are stored. -/
theorem named :
    let c := (firm.crowd codec policy bus millis y calls tasks).run firm.house moves
    ∀ id, ∀ e ∈ c.state.1.journal id, e.streamName = firm.topic := by
  intro c
  obtain ⟨moves', m⟩ := mirrors_run firm codec policy bus millis y calls tasks moves
  rw [← m.state]
  exact (named_of_keeps (fun call hc => (hcalls call hc).keeps) (fun call hc => (hcalls call hc).sure) moves').1

/-- When no call is under way and nothing waits in the outbox, all that is stored was published. -/
theorem published :
    let c := (firm.crowd codec policy bus millis y calls tasks).run firm.house moves
    (∀ i < calls.length, (∃ o, c.jobs[i]? = some (.done (.inl o))) ∨ own i c.history = []) →
      c.state.1.outbox.batches = [] → ∀ id, ∀ e ∈ c.state.1.journal id,
        ∃ i es, (i, .inl (.published es)) ∈ c.history ∧ e ∈ es := by
  intro c hrest hempty id e he
  obtain ⟨moves', m⟩ := mirrors_run firm codec policy bus millis y calls tasks moves
  have hidle : ∀ i t, ((Call.crowd firm.topic codec policy (World.create bus millis (fun _ => .blank, y))
      calls).run Errand.rules moves').jobs[i]? = some t → t.result? = none →
      own i ((Call.crowd firm.topic codec policy (World.create bus millis (fun _ => .blank, y))
        calls).run Errand.rules moves').history = [] := by
    intro i t ht hbusy
    have hlt : i < calls.length := by
      have hlt := (List.getElem?_eq_some_iff.mp ht).1
      rwa [Crowd.length_jobs_run fun _ => rfl, Call.crowd, Crowd.length_gather, List.length_map] at hlt
    rcases hrest i hlt with ⟨o, ho⟩ | hnone
    · rw [m.result? ht ho] at hbusy
      cases hbusy
    · rw [m.history, own_lefts, hnone]
      rfl
  rw [← m.state] at hempty he
  obtain ⟨-, hlossless⟩ := named_of_keeps (fun call hc => (hcalls call hc).keeps)
    (fun call hc => (hcalls call hc).sure) moves'
  obtain ⟨i, es, hi, hes⟩ := published_of_settled moves' hlossless hidle hempty id e he
  rw [m.history] at hi
  exact ⟨i, es, mem_lefts.mp hi, hes⟩

end Firm

end EventJournal
