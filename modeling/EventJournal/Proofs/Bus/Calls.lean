import EventJournal.Proofs.Bus.Course
import EventJournal.Proofs.Crowd.Progress

/-!
Calls on a bus. What somebody is told on his first turns depends on how far the bus has come: closing refuses all that
is new, listening is begun once, and a drained bus takes no events. Only a closing shuts the bus.
-/
namespace EventJournal.Bus

open History Told

variable {H X α : Type} {config : BusConfig} {seed : UInt32} {wiring : Wiring H X}

/-- What a call is told on a bus that is shut, if it is refused. -/
def Task.refusal? : Task H → Option Ending
  | .publish _ [] => none
  | .publish _ (e :: es) => some (.published (e :: es) (.error .closed))
  | .subscribe _ _ => some (.subscribed (.error .closed))
  | .listen _ => some (.listened (.error .closed))
  | .close => none

/-- A listener that was refused. -/
def Refused (a : Ending) : Prop :=
  a = .listened (.error .alreadyListening) ∨ a = .listened (.error .closed)

/-- Closed lanes take no events. -/
def Sealed (bus : Bus H) : Prop :=
  ∀ id lane, bus.lane? id = some lane → lane.closed = true

section Answers

theorem beginListening_refused {bus : Bus H} (h : bus.shutdown = true ∨ bus.started = true) :
    ∃ e, bus.beginListening = (.error e, bus) ∧ (e = .alreadyListening ∨ e = .closed) := by
  unfold beginListening
  split
  · exact ⟨_, rfl, .inr rfl⟩
  · split
    · exact ⟨_, rfl, .inl rfl⟩
    · simp_all

theorem beginListening_admitted {bus : Bus H} (hshut : bus.shutdown = false) (hst : bus.started = false) :
    ∃ ids, bus.beginListening.1 = .ok ids ∧ bus.beginListening.2.listening = true ∧
      bus.beginListening.2.started = true := by
  simp only [beginListening, hshut, hst]
  exact ⟨_, rfl, rfl, rfl⟩

variable (wiring) in
/-- If the first event cannot be sent the publication fails. -/
theorem endsBy_publish {P : World H X → Prop} {R : Except PublishError Unit → Prop} {n : Nat} {ctx : Context}
    {e : Event} (es : List Event) (hs : (ofFiber (send ctx e).run : Noted H X _).EndsBy P R n)
    (hR : ∀ r, R r → ∃ x, r = .error x) :
    ((Task.publish ctx (e :: es) : Task H).job wiring).EndsBy P
      (fun a => ∃ r, R r ∧ a = .published (e :: es) r) n := by
  change EndsBy P _ (Told.bind _ (ofFiber (Fiber.bind _ (send ctx e).run))) n
  rw [ofFiber_bind, bind_assoc]
  refine hs.bind fun r n hr => ?_
  obtain ⟨x, rfl⟩ := hR r hr
  exact ⟨_, hr, rfl⟩

/-- On a bus that is shut a call is refused on its first turn. -/
theorem endsBy_refusal {task : Task H} {a : Ending} (ha : task.refusal? = some a) :
    (task.job wiring).EndsBy (fun w => w.bus.shutdown = true) (· = a) 1 := by
  cases task with
  | close => cases ha
  | publish ctx events =>
    cases events with
    | nil => cases ha
    | cons e es =>
      cases ha
      have hsend : (ofFiber (send ctx e).run : Noted H X _).EndsBy (fun w => w.bus.shutdown = true)
          (· = .error .closed) 1 := by
        rw [run_send]
        refine endsBy_perform_bind fun w hw => ?_
        rw [show w.bus.route e = .error .closed from if_pos hw]
        rfl
      refine (endsBy_publish wiring es hsend fun r hr => ⟨_, hr⟩).mono ?_
      rintro _ ⟨r, rfl, rfl⟩
      rfl
  | subscribe name handlers =>
    cases ha
    refine (endsBy_perform (R := (· = .error .closed)) fun w hw => ?_).bind fun r n hr => congrArg _ hr
    rw [show w.bus.subscribe name handlers = .error .closed from if_pos hw]
  | listen ctx =>
    cases ha
    intro w hw
    refine ⟨rfl, ?_⟩
    simp only [show w.bus.beginListening = (.error .closed, w.bus) from if_pos hw]
    rfl

theorem endsBy_refused (ctx : Context) :
    ((Task.listen ctx : Task H).job wiring).EndsBy
      (fun w => w.bus.shutdown = true ∨ w.bus.started = true) Refused 1 := by
  intro w hw
  refine ⟨rfl, ?_⟩
  obtain ⟨e, he, rfl | rfl⟩ := beginListening_refused hw
  · simp only [he]
    exact .inl rfl
  · simp only [he]
    exact .inr rfl

/-- Listening comes to its end, or else is refused. -/
theorem yields_listen (ctx : Context) :
    ((Task.listen ctx : Task H).job wiring).Yields fun a => a = .listened (.ok ()) ∨ Refused a := by
  have hend : ∀ span, (do
      ofFiber <| Fiber.await (fun w => w.bus.isDrained) fun w => ((), w)
      tell .drained
      ofFiber <| note "event bus stopped" [] span
      ofFiber <| Fiber.perform fun w => (.ok (), w.withBus stop) :
        Noted H X (Except BusError Unit)).Yields (· = .ok ()) :=
    fun _ => yields_bind _ fun _ => yields_bind _ fun _ => yields_bind _ fun _ _ => rfl
  have hlisten : (Noted.listen ctx : Noted H X _).Yields
      fun r => r = .ok () ∨ Refused (.listened r) := by
    intro w
    dsimp only
    cases hb : w.bus.beginListening.1 with
    | error e =>
      by_cases h : w.bus.shutdown = true ∨ w.bus.started = true
      · obtain ⟨_, he, hrefused⟩ := beginListening_refused h
        rw [he] at hb
        cases hb
        exact .inr (hrefused.imp (congrArg _ <| congrArg _ ·) (congrArg _ <| congrArg _ ·))
      · simp only [not_or, Bool.not_eq_true] at h
        obtain ⟨ids, hok, -⟩ := beginListening_admitted h.1 h.2
        rw [hok] at hb
        cases hb
    | ok lanes =>
      refine yields_bind (tell .opened) fun _ => yields_bind _ fun _ => yields_bind _ fun _ => ?_
      split
      · exact yields_bind _ fun _ => (hend ctx.span).mono fun _ => .inl
      · exact (hend ctx.span).mono fun _ => .inl
  refine hlisten.bind fun r hr => ?_
  rcases hr with rfl | hr
  · exact .inl rfl
  · exact .inr hr

/-- Where all lanes are closed a publication fails, on its second turn at the latest. -/
theorem endsBy_sealed (ctx : Context) (e : Event) (es : List Event) :
    ((Task.publish ctx (e :: es) : Task H).job wiring).EndsBy (fun w => Sealed w.bus)
      (fun a => ∃ x, a = .published (e :: es) (.error x)) 2 := by
  have hsend : (ofFiber (send ctx e).run : Noted H X _).EndsBy (fun w => Sealed w.bus)
      (fun r => ∃ x, r = .error x) 2 := by
    rw [run_send]
    refine endsBy_perform_bind fun w _ => ?_
    cases w.bus.route e with
    | error x => exact ⟨x, rfl⟩
    | ok id =>
      refine endsBy_perform_bind fun w hw => ?_
      have ho : w.bus.offer id e (w.isCancelled ctx) = (.decided (.error .closed), w.bus) := by
        unfold offer
        cases hl : w.bus.lane? id with
        | none => rfl
        | some lane => simp only [verdict?, hw id lane hl, if_true, settleOffer]
      simp only [World.onBus, ho]
      exact ⟨_, rfl⟩
  refine (endsBy_publish wiring es hsend fun r hr => hr).mono ?_
  rintro _ ⟨_, ⟨x, rfl⟩, rfl⟩
  exact ⟨x, rfl⟩

end Answers

section Open

/-- The program does not shut the bus. -/
def LeavesOpen (t : Fiber (World H X) α) : Prop :=
  t.Abides (fun _ => True) fun w w' => w'.bus.shutdown = w.bus.shutdown

/-- Neither the handlers nor the observer of their failures shut the bus. -/
structure Open (wiring : Wiring H X) : Prop where
  handle : ∀ name ctx event, LeavesOpen ((wiring.handler name).handle ctx event)
  rollback : ∀ name ctx event, LeavesOpen ((wiring.handler name).rollback ctx event)
  observe : ∀ e, LeavesOpen (wiring.observe e)

variable {wiring : Wiring H X}

theorem Gentle.leavesOpen {t : Fiber (World H X) α} (ht : Gentle t) : LeavesOpen t :=
  ht.abides fun _ _ hm => hm.shutdown_eq

theorem Open.shift (ho : Open wiring) (worker : Worker) : LeavesOpen (shift wiring worker).erase := by
  have hdeliver : ∀ topic ctx event, LeavesOpen (deliver wiring topic ctx event) := by
    intro topic ctx event
    refine Fiber.Abides.bind (gentle_await fun w => .refl w.bus).leavesOpen fun handlers => ?_
    refine abides_dispatch ho.observe fun h hh => ?_
    obtain ⟨name, -, rfl⟩ := List.mem_map.mp hh
    exact ⟨ho.handle name ctx event, ho.rollback name ctx event⟩
  have hturn : LeavesOpen (turn wiring worker) := abides_turn (fun _ _ hm => hm.shutdown_eq) hdeliver worker
  simp only [Bus.shift, bind_eq, erase_bind, Noted.erase_turn]
  exact hturn.bind fun _ => Fiber.abides_pure _

theorem leavesOpen_job (task : Task H) (ht : task ≠ .close) : LeavesOpen (task.job wiring).erase := by
  cases task with
  | publish ctx events =>
    simp only [Task.job, bind_eq, erase_bind, erase_ofFiber]
    exact Fiber.Abides.bind (gentle_publisher ctx events).leavesOpen fun _ => Fiber.abides_pure _
  | subscribe topic handlers =>
    simp only [Task.job, bind_eq, erase_bind, erase_ofFiber]
    exact Fiber.Abides.bind (gentle_subscribeTo topic handlers).leavesOpen fun _ => Fiber.abides_pure _
  | listen ctx =>
    simp only [Task.job, bind_eq, erase_bind, Noted.erase_listen]
    exact Fiber.Abides.bind (gentle_listen ctx).leavesOpen fun _ => Fiber.abides_pure _
  | close => exact absurd rfl ht

/-- Unless a handler does it, the bus is shut by closings only. -/
theorem Open.exists_closing (ho : Open wiring) (millis : Nat) (rest : X) (tasks : List (Task H))
    (moves : List (Move (World H X → World H X)))
    (hs : ((crowd wiring (fresh config seed) millis rest tasks).run (rules wiring) moves).state.bus.shutdown =
      true) : ∃ j, tasks[j]? = some .close ∧ 0 < Move.turns j moves := by
  refine Classical.byContradiction fun hnone => ?_
  have hjobs : (crowd wiring (fresh config seed) millis rest tasks).Abiding (fun i => tasks[i]? ≠ some .close)
      fun w w' => w'.bus.shutdown = w.bus.shutdown := by
    intro i t ht hi
    rw [crowd, Crowd.jobs_gather, List.map_map, List.getElem?_map, Option.map_eq_some_iff] at ht
    obtain ⟨task, htask, rfl⟩ := ht
    rw [Function.comp, erase_rest]
    exact leavesOpen_job task fun hc => hi (hc ▸ htask)
  have hcall : ∀ (w : World H X) t w', (rules wiring).call w = some (t, w') →
      w'.bus.shutdown = w.bus.shutdown ∧ LeavesOpen t.erase := by
    intro w t w' hcall
    cases hhired : w.hired with
    | nil =>
      simp only [rules, hhired] at hcall
      cases hcall
    | cons worker others =>
      simp only [rules, hhired] at hcall
      cases hcall
      exact ⟨rfl, ho.shift worker⟩
  have hagain : ∀ a t, (rules wiring).again a = some t → LeavesOpen t.erase := by
    intro a t ha
    cases a with
    | worked worker more =>
      cases more with
      | true =>
        cases ha
        exact ho.shift worker
      | false => cases ha
    | published | subscribed | listened | closed => cases ha
  have htrans : ∀ w w' w'' : World H X, w'.bus.shutdown = w.bus.shutdown →
      w''.bus.shutdown = w'.bus.shutdown → w''.bus.shutdown = w.bus.shutdown :=
    fun _ _ _ h h' => h'.trans h
  have hsame := hjobs.run (R := fun (w w' : World H X) => w'.bus.shutdown = w.bus.shutdown) (fun _ => rfl)
    (fun _ _ => rfl) hcall hagain htrans fun i (hi : 0 < Move.turns i moves) hc => hnone ⟨i, hc, hi⟩
  rw [hs, crowd, Crowd.state_gather] at hsame
  cases hsame

end Open

end EventJournal.Bus
