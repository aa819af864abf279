import EventJournal.Proofs.Bus.Calls
import EventJournal.Proofs.Bus.Delivery
import EventJournal.Proofs.Bus.Handout

/-!
The life of a bus, from its first subscriber to its last closer. Calls are named by the places of their tasks, and a
call is made with the first turn of its job; so a later call is one that has had no turn yet.
-/
namespace EventJournal.Bus

open History Move Told

variable {H X : Type} {config : BusConfig} {seed : UInt32} {wiring : Wiring H X}

/-- How a bus stands after some steps with the tasks that are given to it, and what it will answer from then on. -/
structure Lifecycle (wiring : Wiring H X) (tasks : List (Task H)) (moves : List (Move (World H X → World H X)))
    (c : Crowd (World H X) Notice Ending) : Prop where
  /-- Once closing was called the bus is shut. -/
  shut : ∀ j, tasks[j]? = some .close → 0 < turns j moves → c.state.bus.shutdown = true
  /-- Then every later call is refused, whatever it is about. -/
  refuses : c.state.bus.shutdown = true → ∀ i task a, tasks[i]? = some task → task.refusal? = some a →
    turns i moves = 0 → ∀ later, 0 < turns i later → (c.run (rules wiring) later).jobs[i]? = some (.done a)
  /-- Once listening has come to its end, every later publication fails, and does not wait for long. -/
  sealed : ∀ j : Nat, c.jobs[j]? = some (.done (.listened (.ok ()))) → ∀ i ctx e es,
    tasks[i]? = some (.publish ctx (e :: es)) → turns i moves = 0 → ∀ later,
      (∀ a, (c.run (rules wiring) later).jobs[i]? = some (.done a) → ∃ x, a = .published (e :: es) (.error x)) ∧
      (2 ≤ turns i later →
        ∃ x, (c.run (rules wiring) later).jobs[i]? = some (.done (.published (e :: es) (.error x))))
  answers : ∀ (i : Nat) ctx a, tasks[i]? = some (.listen ctx) → c.jobs[i]? = some (.done a) →
    a = .listened (.ok ()) ∨ Refused a
  /-- Of two that were called to listen one has been refused. -/
  single : ∀ (i j : Nat) ctx ctx', i ≠ j → tasks[i]? = some (.listen ctx) → tasks[j]? = some (.listen ctx') →
    0 < turns i moves → 0 < turns j moves →
      ∃ a, Refused a ∧ (c.jobs[i]? = some (.done a) ∨ c.jobs[j]? = some (.done a))
  /-- So at most one comes back from listening, and every other one has been refused. -/
  sole : ∀ (i j : Nat) ctx ctx', i ≠ j → tasks[i]? = some (.listen ctx) → tasks[j]? = some (.listen ctx') →
    c.jobs[i]? = some (.done (.listened (.ok ()))) → 0 < turns j moves → ∃ a, Refused a ∧ c.jobs[j]? = some (.done a)
  /-- Once one has been admitted to listen, there will be no other topics. -/
  settled : ∀ j ctx, tasks[j]? = some (.listen ctx) → 0 < turns j moves →
    (∀ a, Refused a → c.jobs[j]? ≠ some (.done a)) → ∀ later,
      (c.run (rules wiring) later).state.bus.topics.map Prod.fst = c.state.bus.topics.map Prod.fst
  /-- Until the bus is shut its topics take more handlers. -/
  takes : c.state.bus.shutdown = false → ∀ i name handlers, tasks[i]? = some (.subscribe name handlers) →
    turns i moves = 0 → (c.state.bus.topic? name).isSome →
      (c.step (rules wiring) (.job i)).jobs[i]? = some (.done (.subscribed (.ok ()))) ∧
      ∀ n, (c.step (rules wiring) (.job i)).state.bus.handlers n =
        c.state.bus.handlers n ++ if n = name then handlers else []
  /-- It is shut by closings, unless a handler shuts it. -/
  closings : Open wiring → c.state.bus.shutdown = true → ∃ j, tasks[j]? = some .close ∧ 0 < turns j moves
  /-- A subscription that is refused changes nothing. -/
  untouched : ∀ i name handlers e, tasks[i]? = some (.subscribe name handlers) → turns i moves = 0 →
    (c.step (rules wiring) (.job i)).jobs[i]? = some (.done (.subscribed (.error e))) →
      (c.step (rules wiring) (.job i)).state = c.state
  /-- No lane is handed out twice. -/
  once : (handedOut c.state.hired (c.history.map Prod.snd)).Nodup
  handed : c.state.bus.started = true → ∀ id, (c.state.bus.lane? id).isSome →
    id ∈ handedOut c.state.hired (c.history.map Prod.snd)

section Crowd

variable {bus : Bus H} {millis : Nat} {rest : X} {tasks : List (Task H)}
  {moves : List (Move (World H X → World H X))} {i : Nat} {task : Task H}

/-- Before its first turn a call is still to be made. -/
theorem uncalled (hi : tasks[i]? = some task) (h : turns i moves = 0) :
    ((crowd wiring bus millis rest tasks).run (rules wiring) moves).jobs[i]? = some (task.job wiring).rest := by
  refine Crowd.getElem?_run_of_turns ?_ h
  rw [crowd, Crowd.jobs_gather, List.map_map, List.getElem?_map, hi]
  rfl

theorem again_of_refused {a : Ending} (ha : Refused a) : (rules wiring).again a = none := by
  rcases ha with rfl | rfl
  · rfl
  · rfl

theorem again_of_refusal {a : Ending} (ha : task.refusal? = some a) : (rules wiring).again a = none := by
  cases task with
  | publish ctx events =>
    cases events with
    | nil => cases ha
    | cons e es =>
      cases ha
      rfl
  | close => cases ha
  | subscribe | listen =>
    cases ha
    rfl

variable {c : Crowd (World H X) Notice Ending}

section Called

variable (hc : (crowd wiring bus millis rest tasks).run (rules wiring) moves = c)
include hc

/-- When a call was made. -/
theorem called (hi : tasks[i]? = some task) (h : 0 < turns i moves) :
    ∃ past later c₀, moves = past ++ .job i :: later ∧ turns i past = 0 ∧
      (crowd wiring bus millis rest tasks).run (rules wiring) past = c₀ ∧
      (crowd wiring bus millis rest tasks).run (rules wiring) (past ++ [.job i]) =
        c₀.step (rules wiring) (.job i) ∧
      (c₀.step (rules wiring) (.job i)).run (rules wiring) later = c ∧
      c₀.jobs[i]? = some (task.job wiring).rest := by
  obtain ⟨past, later, rfl, hpast⟩ := exists_first_turn h
  refine ⟨past, later, _, rfl, hpast, rfl, Crowd.run_append .., ?_, uncalled hi hpast⟩
  rw [← hc, Crowd.run_append, Crowd.run_cons]

/-- What a call is told that comes when the bus is in such a state for good. -/
theorem told_later {P : World H X → Prop} {R : Ending → Prop} {n : Nat}
    {later : List (Move (World H X → World H X))} (hR : ∀ a, R a → (rules wiring).again a = none)
    (hP : ∀ k, P (c.run (rules wiring) (later.take k)).state) (hi : tasks[i]? = some task)
    (h : turns i moves = 0) (ht : (task.job wiring).EndsBy P R n) (hn : n ≤ turns i later) :
    ∃ a, (c.run (rules wiring) later).jobs[i]? = some (.done a) ∧ R a :=
  Crowd.ended_run hR hP (hc ▸ uncalled hi h) ht hn

/-- Listening comes back stopped, or was refused. -/
theorem answer_of_listen {ctx : Context} {a : Ending} (hi : tasks[i]? = some (.listen ctx))
    (ha : c.jobs[i]? = some (.done a)) : a = .listened (.ok ()) ∨ Refused a := by
  have hagain : ∀ a, a = .listened (.ok ()) ∨ Refused a → (rules wiring).again a = none := by
    rintro a (rfl | hrefused)
    · rfl
    · exact again_of_refused hrefused
  rw [← hc] at ha
  exact Crowd.yields_run hagain (c := crowd wiring bus millis rest tasks)
    (uncalled hi (show turns i [] = 0 from rfl)) (yields_listen ctx) ha

/-- Who has come back from a call has made it. -/
theorem turns_pos_of_listened {ctx : Context} {a : Ending} (hi : tasks[i]? = some (.listen ctx))
    (ha : c.jobs[i]? = some (.done a)) : 0 < turns i moves := by
  refine Nat.pos_of_ne_zero fun hzero => ?_
  rw [← hc, uncalled hi hzero] at ha
  cases ha

end Called

variable (hw : wiring.Courteous config seed)
  (hc : (crowd wiring (fresh config seed) millis rest tasks).run (rules wiring) moves = c)
include hw hc

/-- From any moment on a bus goes its course. -/
theorem later_of_run (later : List (Move (World H X → World H X))) :
    Later c.state.bus (c.run (rules wiring) later).state.bus :=
  hc ▸ later_run hw millis rest tasks moves later

theorem shut_of_closed (hi : tasks[i]? = some .close) (h : 0 < turns i moves) : c.state.bus.shutdown = true := by
  obtain ⟨past, later, c₀, -, -, -, hstep, rfl, hjob⟩ := called hc hi h
  apply (later_of_run hw hstep later).shutdown
  rw [(Crowd.step_act (rules wiring) hjob rfl).1]
  exact (later_beginClosing c₀.state.bus).2.2

/-- On a bus that is shut every later call is refused that can be. -/
theorem refused_of_shut (hs : c.state.bus.shutdown = true) {a : Ending} (hi : tasks[i]? = some task)
    (ha : task.refusal? = some a) (h : turns i moves = 0) {later : List (Move (World H X → World H X))}
    (hn : 0 < turns i later) : (c.run (rules wiring) later).jobs[i]? = some (.done a) := by
  have hagain : ∀ b, b = a → (rules wiring).again b = none := by
    rintro _ rfl
    exact again_of_refusal ha
  obtain ⟨_, hdone, rfl⟩ := told_later hc hagain
    (fun k => (later_of_run hw hc (later.take k)).shutdown hs) hi h (endsBy_refusal ha) hn
  exact hdone

/-- On a bus that listens or is shut, who is called to listen later is refused. -/
theorem refused_later (hb : c.state.bus.shutdown = true ∨ c.state.bus.started = true) {ctx : Context}
    (hi : tasks[i]? = some (.listen ctx)) (h : turns i moves = 0)
    {later : List (Move (World H X → World H X))} (hn : 0 < turns i later) :
    ∃ a, (c.run (rules wiring) later).jobs[i]? = some (.done a) ∧ Refused a := by
  refine told_later hc (fun _ => again_of_refused) (fun k => ?_) hi h (endsBy_refused ctx) hn
  have hl := later_of_run hw hc (later.take k)
  exact hb.imp hl.shutdown hl.started

/-- Whoever was called to listen has been refused, or the bus listens. -/
theorem called_listen {ctx : Context} (hi : tasks[i]? = some (.listen ctx)) (h : 0 < turns i moves) :
    (∃ a, c.jobs[i]? = some (.done a) ∧ Refused a) ∨
      c.state.bus.listening = true ∧ c.state.bus.started = true := by
  obtain ⟨past, later, c₀, -, hpast, hc₀, hstep, rfl, hjob⟩ := called hc hi h
  by_cases hb : c₀.state.bus.shutdown = true ∨ c₀.state.bus.started = true
  · left
    rw [← Crowd.run_cons]
    refine refused_later hw hc₀ hb hi hpast ?_
    rw [turns_cons, turns_job]
    exact Nat.le_add_right 1 _
  · right
    simp only [not_or, Bool.not_eq_true] at hb
    obtain ⟨_, -, hlistening, hstarted⟩ := beginListening_admitted hb.1 hb.2
    have hl := later_of_run hw hstep later
    have hstate := (Crowd.step_act (rules wiring) hjob rfl).1
    rw [hstate] at hl
    exact ⟨hl.listening hlistening, hl.started hstarted⟩

/-- If one was called to listen and another one after him, one of them has been refused. -/
theorem refused_of_two {j : Nat} {later : List (Move (World H X → World H X))} {ctx ctx' : Context}
    (hi : tasks[i]? = some (.listen ctx)) (hj : tasks[j]? = some (.listen ctx')) (h : 0 < turns i moves)
    (hj₀ : turns j moves = 0) (hn : 0 < turns j later) :
    ∃ a, Refused a ∧ ((c.run (rules wiring) later).jobs[i]? = some (.done a) ∨
      (c.run (rules wiring) later).jobs[j]? = some (.done a)) := by
  rcases called_listen hw hc hi h with ⟨a, ha, hrefused⟩ | ⟨-, hst⟩
  · exact ⟨a, hrefused, .inl (Crowd.getElem?_run_of_done ha (again_of_refused hrefused) later)⟩
  · obtain ⟨a, ha, hrefused⟩ := refused_later hw hc (.inr hst) hj hj₀ hn
    exact ⟨a, hrefused, .inr ha⟩

theorem single_listener {j : Nat} (hne : i ≠ j) {ctx ctx' : Context} (hi : tasks[i]? = some (.listen ctx))
    (hj : tasks[j]? = some (.listen ctx')) (h : 0 < turns i moves) (h' : 0 < turns j moves) :
    ∃ a, Refused a ∧ (c.jobs[i]? = some (.done a) ∨ c.jobs[j]? = some (.done a)) := by
  obtain ⟨past, later, c₀, rfl, hpast, hc₀, hstep, rfl, -⟩ := called hc hi h
  have hother : turns j [(.job i : Move (World H X → World H X))] = 0 :=
    turns_eq_zero_of_ne fun he => hne (Move.job.inj he)
  rw [turns_append, turns_cons, hother, Nat.zero_add] at h'
  -- which of them was called first
  rcases Nat.eq_zero_or_pos (turns j past) with hzero | hpos
  · rw [hzero, Nat.zero_add] at h'
    refine refused_of_two hw hstep hi hj ?_ ?_ h'
    · rw [turns_append, turns_job]
      exact Nat.le_add_left 1 _
    · rw [turns_append, hzero, hother]
  · rw [← Crowd.run_cons]
    have hnext : 0 < turns i (.job i :: later) := by
      rw [turns_cons, turns_job]
      exact Nat.le_add_right 1 _
    obtain ⟨a, hrefused, ha⟩ := refused_of_two hw hc₀ hj hi hpos hpast hnext
    exact ⟨a, hrefused, ha.symm⟩

/-- If one has come back from listening, every other one who was called has been refused. -/
theorem refused_of_listened {j : Nat} (hne : i ≠ j) {ctx ctx' : Context} (hi : tasks[i]? = some (.listen ctx))
    (hj : tasks[j]? = some (.listen ctx')) (hdone : c.jobs[i]? = some (.done (.listened (.ok ()))))
    (h : 0 < turns j moves) : ∃ a, Refused a ∧ c.jobs[j]? = some (.done a) := by
  obtain ⟨a, hrefused, ha | ha⟩ := single_listener hw hc hne hi hj (turns_pos_of_listened hc hi hdone) h
  · rw [hdone] at ha
    cases ha
    rcases hrefused with he | he
    · cases he
    · cases he
  · exact ⟨a, hrefused, ha⟩

/-- Whoever was admitted to listen has closed the list of topics. -/
theorem names_of_admitted {ctx : Context} (hi : tasks[i]? = some (.listen ctx)) (h : 0 < turns i moves)
    (hadmitted : ∀ a, Refused a → c.jobs[i]? ≠ some (.done a)) (later : List (Move (World H X → World H X))) :
    (c.run (rules wiring) later).state.bus.topics.map Prod.fst = c.state.bus.topics.map Prod.fst := by
  rcases called_listen hw hc hi h with ⟨a, ha, hrefused⟩ | ⟨hlistening, -⟩
  · exact absurd ha (hadmitted a hrefused)
  · exact (later_of_run hw hc later).names hlistening

/-- Once listening or closing has come to its end every lane is closed. -/
theorem sealed_of_drained (hd : .drained ∈ c.history.map Prod.snd) (later : List (Move (World H X → World H X))) :
    Sealed (c.run (rules wiring) later).state.bus := by
  intro id lane hl
  obtain ⟨more, hm⟩ := Crowd.history_run (rules wiring) c later
  have l := ledger_crowd hw millis rest tasks (moves ++ later)
    (c := c.run (rules wiring) later) (by rw [Crowd.run_append, hc])
  have hd' : .drained ∈ (c.run (rules wiring) later).history.map Prod.snd := by
    rw [hm, List.map_append]
    exact List.mem_append_left _ hd
  exact (l.ends.finished hl (l.ends.drained hd' hl)).1

/-- From then on every later publication fails, on its second turn at the latest. -/
theorem unpublished_of_drained (hd : .drained ∈ c.history.map Prod.snd) {ctx : Context} {e : Event} {es : List Event}
    (hi : tasks[i]? = some (.publish ctx (e :: es))) (h : turns i moves = 0)
    (later : List (Move (World H X → World H X))) :
    (∀ a, (c.run (rules wiring) later).jobs[i]? = some (.done a) → ∃ x, a = .published (e :: es) (.error x)) ∧
      (2 ≤ turns i later →
        ∃ x, (c.run (rules wiring) later).jobs[i]? = some (.done (.published (e :: es) (.error x)))) := by
  have hsealed := fun k => sealed_of_drained hw hc hd (later.take k)
  have hagain : ∀ a, (∃ x, a = .published (e :: es) (.error x)) → (rules wiring).again a = none := by
    rintro _ ⟨x, rfl⟩
    rfl
  constructor
  · exact fun a ha => Crowd.result_run hagain hsealed (hc ▸ uncalled hi h) (endsBy_sealed ctx e es) ha
  · intro hn
    obtain ⟨_, hdone, x, rfl⟩ := told_later hc hagain hsealed hi h (endsBy_sealed ctx e es) hn
    exact ⟨x, hdone⟩

end Crowd

section Subscribe

variable {c : Crowd (World H X) Notice Ending} {i : Nat} {name : String} {handlers : List H}
  (hi : c.jobs[i]? = some ((Task.subscribe name handlers).job wiring).rest)
include hi

theorem step_subscribe {bus' : Bus H} (h : c.state.bus.subscribe name handlers = .ok bus') :
    (c.step (rules wiring) (.job i)).jobs[i]? = some (.done (.subscribed (.ok ()))) ∧
      (c.step (rules wiring) (.job i)).state = { c.state with bus := bus' } := by
  obtain ⟨hstate, hjob⟩ := Crowd.step_act (rules wiring) hi rfl
  rw [hstate, hjob]
  simp only [h]
  exact ⟨rfl, trivial⟩

theorem step_refused {e : BusError} (h : c.state.bus.subscribe name handlers = .error e) :
    (c.step (rules wiring) (.job i)).jobs[i]? = some (.done (.subscribed (.error e))) ∧
      (c.step (rules wiring) (.job i)).state = c.state := by
  obtain ⟨hstate, hjob⟩ := Crowd.step_act (rules wiring) hi rfl
  rw [hstate, hjob]
  simp only [h]
  exact ⟨rfl, trivial⟩

/-- A subscription that comes back refused has changed nothing. -/
theorem state_of_refused {e : BusError}
    (h : (c.step (rules wiring) (.job i)).jobs[i]? = some (.done (.subscribed (.error e)))) :
    (c.step (rules wiring) (.job i)).state = c.state := by
  cases hs : c.state.bus.subscribe name handlers with
  | ok bus' =>
    rw [(step_subscribe hi hs).1] at h
    cases h
  | error e' => exact (step_refused hi hs).2

end Subscribe

/-- To a topic that exists handlers are added until the bus is shut, and to no other. -/
theorem subscribe_existing {bus : Bus H} {name : String} (handlers : List H) (hopen : bus.shutdown = false)
    (ht : (bus.topic? name).isSome) :
    ∃ bus', bus.subscribe name handlers = .ok bus' ∧
      ∀ n, bus'.handlers n = bus.handlers n ++ if n = name then handlers else [] := by
  refine ⟨_, by simp only [subscribe, hopen, ht]; rfl, ?_⟩
  intro n
  obtain ⟨t, hsome⟩ := Option.isSome_iff_exists.mp ht
  rw [topic?] at hsome
  simp only [Bus.handlers, topic?, lookup_modifyTopic]
  by_cases hn : n = name
  · simp [hn, hsome]
  · simp [hn]

/-- Whoever subscribes, publishes, listens and closes when, however often listening is cancelled and whatever the
handlers do: the bus goes through its life in this way. -/
theorem lifecycle {bus : Bus H} (hb : create? config seed = .ok bus) (hw : wiring.Courteous config seed)
    (millis : Nat) (rest : X) (tasks : List (Task H)) (moves : List (Move (World H X → World H X))) :
    Lifecycle wiring tasks moves ((crowd wiring bus millis rest tasks).run (rules wiring) moves) := by
  obtain ⟨-, rfl⟩ := create?_eq_ok_iff.mp hb
  generalize hc : (crowd wiring (fresh config seed) millis rest tasks).run (rules wiring) moves = c
  have allotted : Allotted config seed c.state.bus c.state.hired c.history :=
    hc ▸ (holds_crowd (upheld_allotted config seed) hw (.fresh config seed) millis rest tasks moves).inv
  have holds : (pact wiring (Ledger config seed)).Holds c :=
    hc ▸ holds_crowd (upheld_ledger config seed) hw (.fresh config seed) millis rest tasks moves
  exact {
    shut := fun j hj h => shut_of_closed hw hc hj h
    refuses := fun hs i task a hi ha h later hn => refused_of_shut hw hc hs hi ha h hn
    sealed := fun j hj i ctx e es hi h later =>
      unpublished_of_drained hw hc (drained_of_back holds (.inl hj)) hi h later
    answers := fun i ctx a hi ha => answer_of_listen hc hi ha
    single := fun i j _ _ hne hi hj h h' => single_listener hw hc hne hi hj h h'
    sole := fun i j _ _ hne hi hj hdone h => refused_of_listened hw hc hne hi hj hdone h
    settled := fun j _ hj h hadmitted later => names_of_admitted hw hc hj h hadmitted later
    takes := by
      intro hopen i name handlers hi h ht
      obtain ⟨bus', hs, hhandlers⟩ := subscribe_existing handlers hopen ht
      obtain ⟨hdone, hstate⟩ := step_subscribe (hc ▸ uncalled hi h) hs
      refine ⟨hdone, ?_⟩
      rw [hstate]
      exact hhandlers
    closings := by
      intro ho hs
      subst hc
      exact ho.exists_closing millis rest tasks moves hs
    untouched := fun i name handlers e hi h hdone => state_of_refused (hc ▸ uncalled hi h) hdone
    once := allotted.once
    handed := fun hst _ hid => allotted.mem_handedOut hst hid }

namespace Evening

def tasks : List (Task Unit) :=
  [.subscribe "order" [()], .listen (.ofSignal 0), .listen .background, .close,
    .subscribe "order" [()], .publish .background [Echo.event 1 "placed"]]

/-- Two listen, and the bus is closed. -/
def first : List (Move (World Unit Unit → World Unit Unit)) :=
  [.job 0, .job 1, .job 2, .job 3]

def crowd : Crowd (World Unit Unit) Notice Ending :=
  (Bus.crowd Echo.wiring (fresh ⟨2, 4⟩ 7) 0 () tasks).run (rules Echo.wiring) first

end Evening

/-- One of the two listeners is refused, and so is everybody who comes later. -/
theorem evening_lifecycle :
    create? ⟨2, 4⟩ 7 = .ok (fresh ⟨2, 4⟩ 7 : Bus Unit) ∧ Echo.wiring.Courteous ⟨2, 4⟩ 7 ∧
      (∃ a, Refused a ∧ (Evening.crowd.jobs[1]? = some (.done a) ∨ Evening.crowd.jobs[2]? = some (.done a))) ∧
      (Evening.crowd.run (rules Echo.wiring) [.job 4]).jobs[4]? = some (.done (.subscribed (.error .closed))) ∧
      (Evening.crowd.run (rules Echo.wiring) [.job 5]).jobs[5]? =
        some (.done (.published [Echo.event 1 "placed"] (.error .closed))) := by
  have hb : create? ⟨2, 4⟩ 7 = .ok (fresh ⟨2, 4⟩ 7 : Bus Unit) := rfl
  have hw := Echo.courteous ⟨2, 4⟩ 7
  have life : Lifecycle Echo.wiring Evening.tasks Evening.first Evening.crowd :=
    lifecycle hb hw 0 () Evening.tasks Evening.first
  have hshut := life.shut 3 rfl (by decide)
  exact ⟨hb, hw, life.single 1 2 _ _ (by decide) rfl rfl (by decide) (by decide),
    life.refuses hshut 4 _ _ rfl rfl rfl [.job 4] (by decide),
    life.refuses hshut 5 _ _ rfl rfl rfl [.job 5] (by decide)⟩

end EventJournal.Bus
