import EventJournal.Proofs.Bus.Ledger
import EventJournal.Proofs.Crowd.Lifting
import EventJournal.Proofs.Firm.BusAccess

/-!
Invariants of a bus on which engines and relays publish. What an accord says of the jobs on the bus, it says of them
beside engines and relays too, if it is hospitable, that is to say, bears what publishers and subscribers do. The ledger
of a bus is such. So the bus keeps its ledger whatever engines and relays do, and lanes have accepted whatever is noted
as published.
-/
namespace EventJournal

open History Bus

variable {H Y S : Type} {config : BusConfig} {seed : UInt32}

/-- Who says that events are published has brought each of them to a lane. -/
def Backed (h : List (Nat × (Deed ⊕ Notice))) : Prop :=
  ∀ i es, (i, .inl (.published es)) ∈ h → ∀ e ∈ es, ∃ id, (i, .inr (.accepted id e)) ∈ h

/-- Visits that leave the diaries do no harm to the accord. -/
structure Hospitable (config : BusConfig) (seed : UInt32)
    (p : Accord (Office H Y) Notice Ending (Office H Y → Office H Y)) : Prop where
  watch : ∀ v w, p.watch v w = arrived v.bus w.bus
  shaped : ∀ {w h}, p.known w h → p.inv w h → w.bus.Shaped config seed
  visit : ∀ i {w w' h}, p.known w h → p.inv w h → Visit config seed w.bus w'.bus → w'.hired = w.hired →
    w'.diaries = w.diaries →
      p.inv w' (h ++ told i (arrived w.bus w'.bus)) ∧ ∀ j, j ≠ i → p.rely j w h w' h
  own : ∀ {i w h w' h'}, p.rely i w h w' h' → own i h' = own i h

section Backed

variable {h : List (Nat × (Deed ⊕ Notice))} {i : Nat}

theorem backed_nil : Backed [] :=
  fun _ _ hn => by cases hn

theorem Backed.append {k : List (Nat × (Deed ⊕ Notice))} (hb : Backed h)
    (hk : ∀ i es, (i, .inl (.published es)) ∈ k → ∀ e ∈ es, ∃ id, (i, .inr (.accepted id e)) ∈ h ++ k) :
    Backed (h ++ k) := by
  intro i es hn e he
  rcases List.mem_append.mp hn with hn | hn
  · obtain ⟨id, hid⟩ := hb i es hn e he
    exact ⟨id, List.mem_append_left k hid⟩
  · exact hk i es hn e he

/-- Hosts say nothing of publications. -/
theorem Backed.host (hb : Backed h) (i : Nat) (ns : List Notice) :
    Backed (h ++ told i (ns.map .inr)) := by
  apply hb.append
  intro j es hn
  obtain ⟨n, hn, he⟩ := List.mem_map.mp hn
  obtain ⟨m, -, rfl⟩ := List.mem_map.mp hn
  cases he

theorem Backed.recorded (hb : Backed h) (i : Nat) (store store' : Store S) (ns : List Notice) :
    Backed (h ++ told i ((Errand.recorded store store').map .inl ++ ns.map .inr)) := by
  rw [told_append, ← List.append_assoc]
  refine Backed.host (hb.append ?_) i ns
  intro j es hn
  obtain ⟨n, hn, he⟩ := List.mem_map.mp hn
  obtain ⟨d, hd, rfl⟩ := List.mem_map.mp hn
  rw [Errand.recorded] at hd
  split at hd
  · obtain ⟨b, -, rfl⟩ := List.mem_map.mp hd
    cases he
  · cases hd

/-- A guest tells of what he has done himself. -/
theorem Backed.deed (hb : Backed h) {d : Deed}
    (hd : ∀ es, d = .published es → es ⊆ arrivals (own i (rights h))) : Backed (h ++ told i [.inl d]) := by
  apply hb.append
  intro j es hn e he
  cases List.mem_singleton.mp hn
  obtain ⟨id, hn⟩ := mem_arrivals.mp (hd es rfl he)
  exact ⟨id, List.mem_append_left _ (mem_rights.mp (mem_own.mp hn))⟩

end Backed

variable {p : Accord (Office H Y) Notice Ending (Office H Y → Office H Y)}

theorem lawful_house (hl : p.Lawful) : (p.house Errand.recorded Backed :
    Accord (Store S × Office H Y) (Deed ⊕ Notice) (Outcome ⊕ Ending) _).Lawful :=
  Accord.Lawful.house Errand.recorded_self (fun i _ ns hb => hb.host i ns) hl

/-- A mannered guest is safe with whatever accord his hosts have. -/
theorem safe_guest (hp : Hospitable config seed p) {i : Nat} {t : Errand (Office H Y) S Outcome}
    {acc : List Event} {s : Store S × Office H Y} {h : List (Nat × (Deed ⊕ Notice))}
    (ht : Errand.Civil config seed (fun _ _ => True) t acc) (hacc : acc ⊆ arrivals (own i (rights h)))
    (hi : p.known s.2 (rights h) → p.inv s.2 (rights h)) (hb : Backed h) :
    let q : Accord (Store S × Office H Y) (Deed ⊕ Notice) (Outcome ⊕ Ending) _ :=
      p.house Errand.recorded Backed
    q.Safe i (q.Final i) t.guest s h := by
  intro q
  induction t generalizing acc s h with
  | done r => exact ⟨fun hk => ⟨hi hk, hb⟩, fun _ => nofun⟩
  | note d rest ih =>
    have hsame : rights (h ++ told i [.inl d]) = rights h := by
      rw [rights_append]
      exact (congrArg _ (rights_told_inl [d])).trans (List.append_nil _)
    have hd : Backed (h ++ told i [.inl d]) := hb.deed fun es he => List.Subset.trans (ht.1 es he) hacc
    refine ih ht.2 ?_ ?_ hd
    · rw [show h ++ [(i, .inl d)] = h ++ told i [.inl d] from rfl, hsame]
      exact hacc
    · rw [show h ++ [(i, .inl d)] = h ++ told i [.inl d] from rfl, hsame]
      exact hi
  | act ready effect next ih =>
    refine fun hk => ⟨⟨hi hk, hb⟩, ?_⟩
    intro s' h' hk' hi' hr hready
    obtain ⟨⟨hv, hhired, hdiaries⟩, hn⟩ := ht s' (hp.shaped hk' hi'.1) hready
    obtain ⟨hi'', hothers⟩ := hp.visit i hk' hi'.1 hv hhired hdiaries
    refine ⟨hothers, ?_⟩
    have hwatch : q.watch s' (effect s') = (Errand.recorded s'.1 (effect s').1).map .inl ++
        (arrived s'.2.bus (effect s').2.bus).map .inr := by
      rw [← hp.watch]
      rfl
    have hrights : rights (h' ++ told i (q.watch s' (effect s'))) =
        rights h' ++ told i (arrived s'.2.bus (effect s').2.bus) := by
      rw [hwatch, told_append, rights_append, rights_append, rights_told_inl, rights_told_inr, List.nil_append]
    refine ih s' hn ?_ ?_ ?_
    · rw [hrights, own_append, own_told, arrivals_append, hp.own hr]
      exact List.append_subset.mpr
        ⟨List.Subset.trans hacc (List.subset_append_left _ _), List.subset_append_right _ _⟩
    · rw [hrights]
      exact fun _ => hi''
    · rw [hwatch]
      exact hi'.2.recorded i _ _ _

namespace Firm

variable [DecidableEq H] {firm : Firm H Y}

section Crowd

variable [State S] {codec : Codec} {policy : VersionPolicy} {bus : Bus H} {millis : Nat} {y : Y}
  {calls : List (Call (Office H Y) S)} {tasks : List (Bus.Task H)}

/-- Before its first act nobody has anything to tell. -/
theorem heard_job {t : Told (Store S × Office H Y) (Deed ⊕ Notice) (Outcome ⊕ Ending)}
    (ht : t ∈ (calls.map (Call.errand firm.topic policy)).map Told.guest ++
      (tasks.map (Bus.Task.job firm.wiring)).map Told.host) : t.heard = [] := by
  rcases List.mem_append.mp ht with ht | ht
  · obtain ⟨u, hu, rfl⟩ := List.mem_map.mp ht
    obtain ⟨call, -, rfl⟩ := List.mem_map.mp hu
    rw [Told.heard_guest]
    cases call <;> rfl
  · obtain ⟨u, hu, rfl⟩ := List.mem_map.mp ht
    obtain ⟨task, -, rfl⟩ := List.mem_map.mp hu
    rw [Told.heard_host, List.map_eq_nil_iff]
    cases task with
    | publish ctx events => cases events <;> rfl
    | _ => rfl

/-- An accord of the hosts that can bear visits, and that the tasks keep, holds in the whole firm. -/
theorem holds_crowd (hp : Hospitable config seed p) (hl : p.Lawful) (hrules : p.toRules = firm.rules)
    (hcalls : ∀ call ∈ calls, Serves config seed call)
    (htasks : ∀ (task : Bus.Task H) i w h, p.inv w h → own i h = [] →
      p.Safe i (p.Final i) (task.job firm.wiring) w h)
    (hi : p.inv (World.create bus millis (fun _ => .blank, y)) []) (moves : List (Move (Office H Y → Office H Y)))
    (hk : ∀ n, let c := (firm.crowd codec policy bus millis y calls tasks).run firm.house (moves.take n)
      p.known c.state.2 (rights c.history)) :
    (p.house Errand.recorded Backed).Holds
      ((firm.crowd codec policy bus millis y calls tasks).run firm.house moves) := by
  have hlawful := lawful_house (S := S) hl
  have hhouse : firm.house = (p.house Errand.recorded Backed :
      Accord (Store S × Office H Y) (Deed ⊕ Notice) (Outcome ⊕ Ending) _).toRules := by
    rw [Firm.house, ← hrules]
    rfl
  have hstart : (p.house Errand.recorded Backed).Holds
      (firm.crowd codec policy bus millis y calls tasks) := by
    refine Accord.Holds.gather hlawful ⟨hi, backed_nil⟩ ?_ ?_
    · intro k
      rw [Crowd.history_gather_eq_nil _ fun t ht => heard_job (List.mem_of_mem_take ht)]
      have h0 := hk 0
      simp only [List.take_zero, Crowd.run_nil, crowd] at h0
      rwa [Crowd.state_gather, Crowd.history_gather_eq_nil _ fun t ht => heard_job ht] at h0
    · intro i t ht h _ hinv hown
      rcases List.mem_append.mp (List.mem_of_getElem? ht) with ht | ht
      · obtain ⟨u, hu, rfl⟩ := List.mem_map.mp ht
        obtain ⟨call, hcall, rfl⟩ := List.mem_map.mp hu
        exact safe_guest hp (Errand.mannered_errand (hcalls call hcall) []) (List.nil_subset _)
          (fun _ => hinv.1) hinv.2
      · obtain ⟨u, hu, rfl⟩ := List.mem_map.mp ht
        obtain ⟨task, -, rfl⟩ := List.mem_map.mp hu
        have hnone : own i (rights h) = [] := by
          rw [own_rights, hown]
          rfl
        exact Accord.final_host Errand.recorded_self (fun i _ ns hb => hb.host i ns) hinv.2
          (htasks task i _ _ hinv.1 hnone)
  rw [hhouse] at hk ⊢
  exact hstart.run hlawful moves hk

end Crowd

section Ledger

/-- Writing in a diary is nothing to the bus. -/
theorem courteous_diary {α : Type} (k : H) (f : Diary → α × Diary) :
    ((Office.diary k : Cell (Fiber (Office H Y)) Diary).act f).Courteous config seed :=
  Fiber.courteous_of_eq (fun _ => rfl) fun _ => rfl

theorem Sound.wiring (hf : firm.Sound config seed) : firm.wiring.Courteous config seed where
  handler k := by
    have hdiary : ∀ {α : Type} (event : Event) (f : Diary → α × Diary),
        (∀ d, Diary.Apart event.id d (f d).2) → ((Office.diary k).act f).Abides
          (fun w : Office H Y => w.bus.Shaped config seed ∧ w.bus.started = true)
          fun w w' => Visit config seed w.bus w'.bus ∧ w'.hired = w.hired :=
      fun _ f _ => Fiber.courteous_iff.mp (courteous_diary k f)
    simp only [Firm.wiring]
    split
    · have hk := hf.courteous k
      exact {
        handle := fun ctx event => Fiber.courteous_iff.mpr
          (abides_handle_onceNoted (hdiary event) (Fiber.courteous_iff.mp (hk.handle ctx event)))
        rollback := fun ctx event => Fiber.courteous_iff.mpr
          (abides_rollback_onceNoted (hdiary event) (Fiber.courteous_iff.mp (hk.rollback ctx event))) }
    · exact hf.courteous k
  observe := hf.observe_courteous

/-- The accord to keep the ledger. -/
def clerks (firm : Firm H Y) (config : BusConfig) (seed : UInt32) :
    Accord (Office H Y) Notice Ending (Office H Y → Office H Y) :=
  .ofPact (pact firm.wiring (Ledger config seed)) firm.rules.outside

theorem Sound.lawful_clerks (hf : firm.Sound config seed) : (firm.clerks config seed).Lawful :=
  Accord.lawful_ofPact (Bus.lawful (upheld_ledger config seed) hf.wiring) fun _ _ _ hi => hi

theorem hospitable_clerks : Hospitable config seed (firm.clerks config seed) where
  watch _ _ := rfl
  shaped _ hi := hi.shaped
  visit i _ w' h _ hi hv hh _ := by
    refine ⟨?_, fun _ _ => rfl⟩
    change Ledger config seed w'.bus w'.hired _
    rw [hh]
    exact (upheld_ledger config seed).visit i hi hv
  own h := h

omit [DecidableEq H] in
/-- A bus that has just got its first topic. -/
theorem ledger_subscribed {bus₀ bus : Bus H} {name : String} {handlers : List H}
    (hb : create? config seed = .ok bus₀) (hs : bus₀.subscribe name handlers = .ok bus) :
    Ledger config seed bus [] [] := by
  obtain ⟨-, rfl⟩ := create?_eq_ok_iff.mp hb
  obtain ⟨hquiet, hshaped⟩ := subscribe_eq_ok (shaped_fresh config seed) hs
  exact (upheld_ledger config seed).does 0 (.fresh config seed) (.quiet hquiet hshaped)

section Run

variable [State S] {codec : Codec} {policy : VersionPolicy} {bus : Bus H} {millis : Nat} {y : Y}
  {calls : List (Call (Office H Y) S)} {tasks : List (Bus.Task H)} (hf : firm.Sound config seed)
  (hcalls : ∀ call ∈ calls, Serves config seed call) (hb : Ledger config seed bus [] [])
  (moves : List (Move (Office H Y → Office H Y)))
include hf hcalls hb

theorem holds_ledger :
    ((firm.clerks config seed).house Errand.recorded Backed).Holds
      ((firm.crowd codec policy bus millis y calls tasks).run firm.house moves) :=
  holds_crowd hospitable_clerks hf.lawful_clerks rfl hcalls (fun task _ _ _ hi hn =>
    Accord.final_ofPact (safe_job (upheld_ledger config seed) hf.wiring task hi hn)) hb moves fun _ => trivial

/-- The bus of a firm keeps its ledger, and what is said to be published was accepted. -/
theorem ledger :
    let c := (firm.crowd codec policy bus millis y calls tasks).run firm.house moves
    Ledger config seed c.state.2.bus c.state.2.hired (rights c.history) ∧ Backed c.history :=
  (holds_ledger hf hcalls hb moves).inv

variable (codec policy millis y tasks) in
/-- When somebody has come back from listening or closing, all lanes are drained. -/
theorem drained_of_back :
    let c := (firm.crowd codec policy bus millis y calls tasks).run firm.house moves
    ∀ i : Nat, c.jobs[i]? = some (.done (.inr (.listened (.ok ())))) ∨ c.jobs[i]? = some (.done (.inr .closed)) →
      ∀ lane, c.state.2.bus.queue lane = [] ∧ hands lane ((rights c.history).map Prod.snd) = .free := by
  intro c i hi lane
  have hc : ((firm.clerks config seed).house Errand.recorded Backed).Holds c := holds_ledger hf hcalls hb moves
  have l : Ledger config seed c.state.2.bus c.state.2.hired (rights c.history) := hc.inv.1
  have hl := lawful_house (S := S) hf.lawful_clerks
  have hd : .drained ∈ (rights c.history).map Prod.snd := by
    rcases hi with hi | hi
    · exact mem_map_snd_of_own (hc.ended hl trivial hi _ rfl)
    · exact mem_map_snd_of_own (hc.ended hl trivial hi _ rfl)
  exact l.drained fun _ hlane => l.ends.drained hd hlane

end Run

end Ledger

end Firm

end EventJournal
