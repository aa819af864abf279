import EventJournal.Proofs.Bus.Ledger
import EventJournal.Proofs.Crowd.Accord
import EventJournal.Proofs.Crowd.Turns

/-!
The course of a bus. Whatever is done on it, the lanes that are served stay so, listening and closing are not taken
back, and the topics are settled once somebody listens. Only a closing shuts the bus.
-/
namespace EventJournal.Bus

open History Told

variable {H X α : Type} {config : BusConfig} {seed : UInt32}

/-- What a bus may have come to later. -/
structure Later (old new : Bus H) : Prop where
  started : old.started = true → new.started = true
  listening : old.listening = true → new.listening = true
  shutdown : old.shutdown = true → new.shutdown = true
  names : old.listening = true → new.topics.map Prod.fst = old.topics.map Prod.fst

/-- What it may have come to while nobody closes it. -/
structure Mild (old new : Bus H) : Prop extends Later old new where
  shutdown_eq : new.shutdown = old.shutdown

section Acts

variable {bus bus' bus'' : Bus H}

theorem Later.refl (bus : Bus H) : Later bus bus :=
  ⟨fun h => h, fun h => h, fun h => h, fun _ => rfl⟩

theorem Later.trans (h : Later bus bus') (h' : Later bus' bus'') : Later bus bus'' where
  started hs := h'.started (h.started hs)
  listening hl := h'.listening (h.listening hl)
  shutdown hs := h'.shutdown (h.shutdown hs)
  names hl := (h'.names (h.listening hl)).trans (h.names hl)

/-- The flags and the names of the topics are the same. -/
theorem Mild.of_eq (hstarted : bus'.started = bus.started) (hlistening : bus'.listening = bus.listening)
    (hshutdown : bus'.shutdown = bus.shutdown)
    (hnames : bus'.topics.map Prod.fst = bus.topics.map Prod.fst) : Mild bus bus' where
  started hs := hstarted.trans hs
  listening hl := hlistening.trans hl
  shutdown hs := hshutdown.trans hs
  names _ := hnames
  shutdown_eq := hshutdown

theorem Mild.refl (bus : Bus H) : Mild bus bus :=
  .of_eq rfl rfl rfl rfl

theorem mild_modifyLane (bus : Bus H) (id : LaneId) (f : Lane → Lane) : Mild bus (bus.modifyLane id f) :=
  .of_eq rfl rfl rfl (map_fst_modifyTopic _ _ _)

theorem Mild.settleOffer (h : Mild bus bus') (id : LaneId) (event : Event) (result : Except PublishError Unit) :
    Mild bus (bus'.settleOffer id event result) := by
  cases result with
  | error e => exact h
  | ok u =>
    have hpush := mild_modifyLane bus' id (·.push event)
    exact ⟨h.toLater.trans hpush.toLater, hpush.shutdown_eq.trans h.shutdown_eq⟩

theorem mild_offer (bus : Bus H) (id : LaneId) (event : Event) (cancelled : Bool) :
    Mild bus (bus.offer id event cancelled).2 := by
  unfold offer
  split
  · exact .refl bus
  · split
    · exact (Mild.refl bus).settleOffer ..
    · exact .of_eq rfl rfl rfl (map_fst_modifyTopic _ _ _)

theorem mild_claim (bus : Bus H) (id : LaneId) (ticket : Nat) (event : Event) (cancelled : Bool) :
    Mild bus (bus.claim id ticket event cancelled).2 :=
  (mild_modifyLane bus id (·.withdraw ticket)).settleOffer ..

/-- New topics are made only before anybody listens. -/
theorem mild_subscribe {name : String} {handlers : List H} (h : bus.subscribe name handlers = .ok bus') :
    Mild bus bus' := by
  unfold subscribe at h
  split at h
  · cases h
  · split at h
    · cases h
      exact .of_eq rfl rfl rfl (map_fst_modifyTopic _ _ _)
    · split at h
      · cases h
      next hl =>
        cases h
        exact ⟨⟨fun hs => hs, fun hl' => hl', fun hs => hs, fun hl' => absurd hl' hl⟩, rfl⟩

theorem mild_takeTurn (bus : Bus H) (id : LaneId) (cancelled : Bool) : Mild bus (bus.takeTurn id cancelled).2 := by
  unfold takeTurn
  split
  · exact .refl bus
  · split
    · exact mild_modifyLane ..
    · exact mild_modifyLane ..

theorem mild_drain (bus : Bus H) (id : LaneId) : Mild bus (bus.drain id).2 := by
  unfold drain
  split
  · exact mild_modifyLane ..
  · exact .refl bus

theorem map_fst_takeLanes (bus : Bus H) : bus.takeLanes.2.topics.map Prod.fst = bus.topics.map Prod.fst := by
  rw [takeLanes, List.map_map]
  rfl

theorem mild_beginListening (bus : Bus H) : Mild bus bus.beginListening.2 := by
  unfold beginListening
  split
  · exact .refl bus
  · split
    · exact .refl bus
    · exact ⟨⟨fun _ => rfl, fun _ => rfl, fun hs => hs, fun _ => map_fst_takeLanes _⟩, rfl⟩

theorem later_beginClosing (bus : Bus H) :
    Later bus bus.beginClosing.2 ∧ bus.beginClosing.2.started = true ∧ bus.beginClosing.2.shutdown = true := by
  unfold beginClosing
  split
  next hs => exact ⟨⟨fun h => h, fun h => h, fun _ => rfl, fun _ => rfl⟩, hs, rfl⟩
  · exact ⟨⟨fun _ => rfl, fun h => h, fun _ => rfl, fun _ => map_fst_takeLanes _⟩, rfl, rfl⟩

theorem later_visit (h : Visit config seed bus bus') : Later bus bus' := by
  cases h with
  | none => exact .refl bus
  | offer event cancelled => exact (mild_offer ..).toLater
  | claim ticket event cancelled => exact (mild_claim ..).toLater
  | subscribe name handlers taken => exact (mild_subscribe taken).toLater
  | close started => exact ⟨fun h => h, fun h => h, fun _ => rfl, fun _ => rfl⟩

end Acts

/-- Whatever the program finds, it only does what may be done while nobody closes the bus. -/
def Gentle (t : Fiber (World H X) α) : Prop :=
  t.Abides (fun _ => True) fun w w' => Mild w.bus w'.bus

section Programs

theorem gentle_await {ready : World H X → Bool} {f : World H X → α × World H X}
    (hf : ∀ w, Mild w.bus (f w).2.bus) : Gentle (Fiber.await ready f) :=
  Fiber.abides_await fun w _ _ => hf w

theorem gentle_note (message : String) (fields : List (String × Json)) (span : Option Span) :
    Gentle (note message fields span : Fiber (World H X) Unit) :=
  gentle_await fun w => .refl w.bus

theorem gentle_publisher (ctx : Context) (events : List Event) :
    Gentle (publisher ctx events : Fiber (World H X) (Except PublishError Unit)) := by
  induction events with
  | nil => exact Fiber.abides_pure _
  | cons event rest ih =>
    change Fiber.Abides _ _ ((send ctx event).run >>= _)
    rw [run_send]
    refine Fiber.Abides.bind (Fiber.Abides.bind (gentle_await fun w => .refl w.bus) ?_) ?_
    · intro routed
      cases routed with
      | error e => exact Fiber.abides_pure _
      | ok id =>
        refine Fiber.Abides.bind (gentle_await fun w => mild_offer w.bus id event _) ?_
        intro offer
        cases offer with
        | decided result => exact Fiber.abides_pure _
        | waits ticket => exact gentle_await fun w => mild_claim w.bus id ticket event _
    · intro result
      cases result with
      | error e => exact Fiber.abides_pure _
      | ok u => exact ih

theorem gentle_subscribeTo (topic : String) (handlers : List H) :
    Gentle (subscribeTo topic handlers : Fiber (World H X) (Except BusError Unit)) := by
  apply gentle_await
  intro w
  cases hs : w.bus.subscribe topic handlers with
  | ok bus => exact mild_subscribe (by simpa using hs)
  | error e => exact .refl w.bus

theorem gentle_listen (ctx : Context) :
    Gentle (listen ctx : Fiber (World H X) (Except BusError Unit)) := by
  refine Fiber.Abides.bind (gentle_await fun w => mild_beginListening w.bus) ?_
  intro begun
  cases begun with
  | error e => exact Fiber.abides_pure _
  | ok lanes =>
    have hend : Gentle (do
        Fiber.await (fun w => w.bus.isDrained) fun w => ((), w)
        note "event bus stopped" [] ctx.span
        Fiber.perform fun w => (.ok (), w.withBus stop) : Fiber (World H X) (Except BusError Unit)) := by
      refine Fiber.Abides.bind (gentle_await fun w => .refl w.bus) fun _ => ?_
      refine Fiber.Abides.bind (gentle_note _ _ _) fun _ => ?_
      exact gentle_await fun w => .of_eq rfl rfl rfl rfl
    refine Fiber.Abides.bind (gentle_await fun w => .refl w.bus) fun bus => ?_
    refine Fiber.Abides.bind (gentle_note _ _ _) fun _ => ?_
    dsimp only
    split
    · exact Fiber.Abides.bind (gentle_await fun w => .refl w.bus) fun _ => hend
    · exact hend

section Serving

-- who serves a lane goes by a rule, if the handlers do and gentle acts are within it
variable {P : World H X → Prop} {R : World H X → World H X → Prop} {wiring : Wiring H X}
  (hgentle : ∀ w w', Mild w.bus w'.bus → R w w')
  (hdeliver : ∀ topic ctx event, (deliver wiring topic ctx event).Abides P R)

theorem Gentle.abides {t : Fiber (World H X) α} (ht : Gentle t) (h : ∀ w w', Mild w.bus w'.bus → R w w') :
    t.Abides P R :=
  Fiber.Abides.mono ht (fun _ _ => trivial) fun w w' _ => h w w'

include hdeliver in
theorem abides_deliverAll (topic : String) (ctx : Context) (events : List Event) :
    (deliverAll wiring topic ctx events).Abides P R := by
  induction events with
  | nil => exact Fiber.abides_pure ()
  | cons event rest ih => exact (hdeliver topic ctx event).bind fun _ => ih

include hgentle hdeliver

theorem abides_finish (id : LaneId) (events : List Event) : (finish wiring id events).Abides P R := by
  refine (abides_deliverAll hdeliver _ _ _).bind fun _ => ?_
  exact (gentle_await fun w => mild_modifyLane w.bus id _).abides hgentle

theorem abides_turn (worker : Worker) : (turn wiring worker).Abides P R := by
  refine ((gentle_await fun w => mild_takeTurn w.bus worker.lane _).abides hgentle).bind ?_
  intro next
  cases next with
  | goOn events => exact (abides_deliverAll hdeliver _ _ _).bind fun _ => Fiber.abides_pure _
  | finish events => exact (abides_finish hgentle hdeliver _ _).bind fun _ => Fiber.abides_pure _

theorem abides_drainAll (ids : List LaneId) : (drainAll wiring ids).Abides P R := by
  induction ids with
  | nil => exact Fiber.abides_pure ()
  | cons id rest ih =>
    refine ((gentle_await fun w => mild_drain w.bus id).abides hgentle).bind fun events => ?_
    exact (abides_finish hgentle hdeliver _ _).bind fun _ => ih

end Serving

end Programs

/-- How those on a bus rely on its course. -/
def course (config : BusConfig) (seed : UInt32) (wiring : Wiring H X) :
    Accord (World H X) Notice Ending (World H X → World H X) where
  toRules := rules wiring
  known w h := Ledger config seed w.bus w.hired h
  inv _ _ := True
  rely _ w _ w' _ := Later w.bus w'.bus
  ended
    | _, .worked _ true, w, _ => w.bus.started = true
    | _, _, _, _ => True

section Accord

variable {wiring : Wiring H X} {i : Nat} {w : World H X} {h : List (Nat × Notice)}

/-- A program whose acts are within the course, if what it needs to know of the bus lasts. -/
theorem safe_of_abides {P : World H X → Prop} (hP : ∀ w w', Later w.bus w'.bus → P w → P w')
    {t : Noted H X α}
    (ht : t.erase.Abides (fun w => w.bus.Shaped config seed ∧ P w) fun w w' => Later w.bus w'.bus) (hw : P w) :
    (course config seed wiring).Safe i (fun _ w' _ => Later w.bus w'.bus) t w h := by
  induction t generalizing w h with
  | done a => exact .refl w.bus
  | note n rest ih => exact ih ht hw
  | act ready effect next ih =>
    refine fun _ => ⟨trivial, ?_⟩
    intro w' h' hk _ hr hready
    have hw' := hP w w' hr hw
    obtain ⟨hl, hn⟩ := ht w' ⟨hk.shaped, hw'⟩ hready
    refine ⟨fun _ _ => hl, (ih w' hn (hP w' _ hl hw')).mono ?_⟩
    exact fun _ _ _ hlater => hr.trans (hl.trans hlater)

theorem safe_gentle {t : Noted H X α} (ht : Gentle t.erase) :
    (course config seed wiring).Safe i (fun _ w' _ => Later w.bus w'.bus) t w h :=
  safe_of_abides (P := fun _ => True) (fun _ _ _ _ => trivial)
    (Fiber.Abides.mono ht (fun _ _ => trivial) fun _ _ _ hm => hm.toLater) trivial

theorem safe_served {t : Noted H X α}
    (ht : t.erase.Abides (fun w => w.bus.Shaped config seed ∧ w.bus.started = true)
      fun w w' => Later w.bus w'.bus) (hst : w.bus.started = true) :
    (course config seed wiring).Safe i (fun _ w' _ => Later w.bus w'.bus) t w h :=
  safe_of_abides (P := fun w => w.bus.started = true) (fun _ _ hl hs => hl.started hs) ht hst

variable (hw : wiring.Courteous config seed)
include hw

/-- So are the acts of the handlers, once the lanes are served. -/
theorem later_deliver (topic : String) (ctx : Context) (event : Event) :
    (deliver wiring topic ctx event).Abides
      (fun w => w.bus.Shaped config seed ∧ w.bus.started = true) fun w w' => Later w.bus w'.bus :=
  (Fiber.courteous_iff.mp (hw.deliver topic ctx event)).mono (fun _ hP => hP) fun _ _ _ hv => later_visit hv.1

theorem course_shift (worker : Worker) (hst : w.bus.started = true) :
    (course config seed wiring).Safe i ((course config seed wiring).Final i) (shift wiring worker) w h := by
  have hturn : (Noted.turn wiring worker).erase.Abides
      (fun w => w.bus.Shaped config seed ∧ w.bus.started = true) fun w w' => Later w.bus w'.bus := by
    rw [Noted.erase_turn]
    exact abides_turn (fun _ _ hm => hm.toLater) (later_deliver hw) worker
  refine Accord.Safe.bind ((safe_served hturn hst).mono ?_)
  intro more w' h' hl
  refine ⟨fun _ => trivial, ?_⟩
  cases more with
  | true => exact hl.started hst
  | false => trivial

/-- Once closing has begun the lanes are served, by whomever. -/
theorem course_close :
    (course config seed wiring).Safe i (fun _ w' _ => Later w.bus w'.bus) (Noted.close wiring) w h := by
  refine Accord.Safe.bind (fun _ => ⟨trivial, ?_⟩)
  intro w₁ h₁ _ _ hr _
  obtain ⟨hl, hst, -⟩ := later_beginClosing w₁.bus
  refine ⟨fun _ _ => hl, ?_⟩
  -- what is left, whether the lanes were claimed or not
  have hlast : ∀ {t : Noted H X Unit} {h'}, t.erase.Abides
      (fun w => w.bus.Shaped config seed ∧ w.bus.started = true) (fun w w' => Later w.bus w'.bus) →
      (course config seed wiring).Safe i (fun _ w' _ => Later w.bus w'.bus) t
        { w₁ with bus := w₁.bus.beginClosing.2 } h' :=
    fun ht => (safe_served ht hst).mono fun _ _ _ hlater => hr.trans (hl.trans hlater)
  dsimp only [World.onBus]
  cases w₁.bus.beginClosing.1 with
  | none =>
    apply hlast
    simp only [bind_eq, erase_bind, erase_ofFiber]
    refine ((gentle_await fun w => .refl w.bus).abides fun _ _ hm => hm.toLater).bind fun _ => ?_
    exact Fiber.abides_pure ()
  | some lanes =>
    apply hlast
    simp only [bind_eq, erase_bind, erase_ofFiber, Noted.erase_tell, Noted.erase_drainAll, Fiber.bind_done]
    refine (abides_drainAll (fun _ _ hm => hm.toLater) (later_deliver hw) lanes).bind fun _ => ?_
    refine ((gentle_note _ _ _).abides fun _ _ hm => hm.toLater).bind fun _ => ?_
    exact (gentle_await fun w => .of_eq rfl rfl rfl rfl).abides fun _ _ hm => hm.toLater

theorem course_job (task : Task H) :
    (course config seed wiring).Safe i ((course config seed wiring).Final i) (task.job wiring) w h := by
  have hfinal : ∀ {a : Ending} {w' : World H X} {h'}, (∀ worker more, a ≠ .worked worker more) →
      (course config seed wiring).Final i a w' h' := by
    intro a w' h' ha
    refine ⟨fun _ => trivial, ?_⟩
    cases a with
    | worked worker more => exact absurd rfl (ha worker more)
    | _ => trivial
  cases task with
  | publish ctx events =>
    refine Accord.Safe.bind ((safe_gentle ?_).mono fun _ _ _ _ => hfinal nofun)
    rw [erase_ofFiber]
    exact gentle_publisher ctx events
  | subscribe topic handlers =>
    refine Accord.Safe.bind ((safe_gentle ?_).mono fun _ _ _ _ => hfinal nofun)
    rw [erase_ofFiber]
    exact gentle_subscribeTo topic handlers
  | listen ctx =>
    refine Accord.Safe.bind ((safe_gentle ?_).mono fun _ _ _ _ => hfinal nofun)
    rw [Noted.erase_listen]
    exact gentle_listen ctx
  | close => exact Accord.Safe.bind ((course_close hw).mono fun _ _ _ _ => hfinal nofun)

theorem lawful_course : (course config seed wiring).Lawful where
  refl _ w _ := .refl w.bus
  trans _ _ _ _ _ _ _ h h' := h.trans h'
  note _ _ _ w _ _ := .refl w.bus
  stable _ a _ _ _ _ he hr := by
    cases a with
    | worked worker more =>
      cases more with
      | true => exact hr.started he
      | false => trivial
    | _ => trivial
  outside _ w _ _ := ⟨trivial, fun _ => .refl w.bus⟩
  call w h t w' hk _ hcall := by
    cases hhired : w.hired with
    | nil =>
      simp only [course, rules, hhired] at hcall
      cases hcall
    | cons worker rest =>
      simp only [course, rules, hhired] at hcall
      cases hcall
      have hst : w.bus.started = true := by
        cases hst : w.bus.started with
        | true => rfl
        | false =>
          have hnone := (hk.staffed.unserved hst).2.1
          rw [hhired] at hnone
          cases hnone
      exact ⟨fun _ => .refl w.bus, fun _ _ => course_shift hw worker hst⟩
  again a t ha _ _ _ _ _ he := by
    cases a with
    | worked worker more =>
      cases more with
      | true =>
        cases ha
        exact course_shift hw worker he
      | false => cases ha
    | published | subscribed | listened | closed => cases ha

end Accord

section Crowd

variable {wiring : Wiring H X} (hw : wiring.Courteous config seed) (millis : Nat) (rest : X)
  (tasks : List (Task H))
include hw

theorem ledger_crowd (moves : List (Move (World H X → World H X))) {c : Crowd (World H X) Notice Ending}
    (hc : (crowd wiring (fresh config seed) millis rest tasks).run (rules wiring) moves = c) :
    Ledger config seed c.state.bus c.state.hired c.history :=
  hc ▸ (holds_crowd (upheld_ledger config seed) hw (.fresh config seed) millis rest tasks moves).inv

/-- Everybody on a bus relies on its course. -/
theorem holds_course (moves : List (Move (World H X → World H X))) :
    (course config seed wiring).Holds
      ((crowd wiring (fresh config seed) millis rest tasks).run (rules wiring) moves) := by
  have hlawful := lawful_course hw
  have hknown : ∀ k, (course config seed wiring).known (World.create (fresh config seed) millis rest)
      (Crowd.gather (World.create (fresh config seed) millis rest)
        ((tasks.map (Task.job wiring)).take k)).history := by
    intro k
    have hl := ledger_crowd hw millis rest (tasks.take k) [] rfl
    simp only [Crowd.run_nil, crowd, Crowd.state_gather, List.map_take] at hl
    exact hl
  have hstart : (course config seed wiring).Holds (crowd wiring (fresh config seed) millis rest tasks) := by
    refine Accord.Holds.gather hlawful trivial hknown ?_
    intro i t ht h _ _ _
    obtain ⟨task, -, rfl⟩ := List.mem_map.mp (List.mem_of_getElem? ht)
    exact course_job hw task
  exact hstart.run hlawful moves fun k => ledger_crowd hw millis rest tasks (moves.take k) rfl

/-- From any moment on a bus goes its course. -/
theorem later_run (moves later : List (Move (World H X → World H X))) :
    let c := (crowd wiring (fresh config seed) millis rest tasks).run (rules wiring) moves
    Later c.state.bus (c.run (rules wiring) later).state.bus := by
  have hknown := fun k => ledger_crowd hw millis rest tasks (moves ++ later.take k) (Crowd.run_append ..)
  exact (holds_course hw millis rest tasks moves).run_keeps (lawful_course hw)
    (R := fun w w' => Later w.bus w'.bus) (fun _ _ _ _ _ hr => hr) (fun _ _ _ h h' => h.trans h') later hknown

end Crowd

end EventJournal.Bus
