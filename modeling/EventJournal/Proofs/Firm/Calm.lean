import EventJournal.Proofs.Firm.Diaries

/-!
Every operation of the bus of a firm is calm: it starts and ends with no dispatch under way, and dispatches one event at
a time in between. So all jobs on the bus are lawful under the accord on the memory of the handlers
(`Firm.Sound.lawful`), and each event is noted there as it should be, as long as the handlers of the topic stay the same
and no two events have one id.
-/
namespace EventJournal

open History Bus Told

variable {H Y S α : Type} {config : BusConfig} {seed : UInt32}

namespace Firm

variable [DecidableEq H] {firm : Firm H Y}

section Deliver

variable {i : Nat} {w : Office H Y} {h : List (Nat × Notice)} {lane : LaneId} {event : Event}

/-- A walk through a program of one who is busy with an event from a lane of the topic. Meanwhile the pages of
that event are his alone. -/
theorem safe_writes {wrote : α → Pages H → Prop} {post : α → Office H Y → List (Nat × Notice) → Prop}
    {t : Fiber (Office H Y) α} {v : Pages H} (ht : t.Writes firm.handlers event wrote v)
    (hi : (firm.accord config seed).known w h → (firm.accord config seed).inv w h)
    (hb : BusyWith lane event (own i h)) (hv : ∀ k ∈ firm.handlers, (w.diaries k).page event.id = v k)
    (hp : ∀ a w' h' v', wrote a v' →
      ((firm.accord config seed).known w' h' → (firm.accord config seed).inv w' h') →
      BusyWith lane event (own i h') → (∀ k ∈ firm.handlers, (w'.diaries k).page event.id = v' k) →
      post a w' h') :
    (firm.accord config seed).Safe i post (ofFiber t) w h := by
  induction t generalizing w h v with
  | done a => exact hp a w h v ht hi hb hv
  | act ready effect next ih =>
    refine fun hk => ⟨hi hk, ?_⟩
    intro w' h' hk' hi' hr hready
    have o : Orderly config seed h' := hk'.2.2
    have hb' : BusyWith lane event (own i h') := hr.1 ▸ hb
    have hv' : ∀ k ∈ firm.handlers, (w'.diaries k).page event.id = v k :=
      fun k hks => (hr.2 lane event hb.1 k hks).trans (hv k hks)
    obtain ⟨hapart, v', hv'', hstep, hn⟩ := ht w' hv' hready
    have hkept : firm.Kept (effect w').diaries (h'.map Prod.snd) := by
      refine hi'.write o (o.busy_of_own hb'.1) hapart fun _ k hks => ?_
      rw [hv'' k hks, hv' k hks]
      exact hstep k hks
    refine ⟨rely_of_apart o hb'.1 hapart, ih w' hn ?_ ?_ hv''⟩
    · exact fun _ => hkept.arrived i _ _
    · rw [own_append, own_told]
      exact hb'.append (unattended_arrived _ _).plain

variable (hf : firm.Sound config seed)
include hf

variable (lane) in
/-- One dispatch, after which the pages of its event are settled, and complete with those who take it. -/
theorem Sound.safe_deliver (ctx : Context) {post : Unit → Office H Y → List (Nat × Notice) → Prop}
    (hi : (firm.accord config seed).known w h → (firm.accord config seed).inv w h)
    (hb : BusyWith lane event (own i h))
    (hv : (firm.accord config seed).known w h → lane.topic = firm.topic → ∀ k ∈ firm.handlers,
      Diary.Settled event ((w.diaries k).page event.id))
    (hp : ∀ w' h', ((firm.accord config seed).known w' h' → (firm.accord config seed).inv w' h') →
      BusyWith lane event (own i h') →
      (lane.topic = firm.topic → ∀ k ∈ firm.handlers, Diary.Settled event ((w'.diaries k).page event.id) ∧
        ((firm.inner k).accepts event = true → (w'.diaries k).page event.id = Diary.complete event)) →
      post () w' h') :
    (firm.accord config seed).Safe i post (ofFiber (Bus.deliver firm.wiring lane.topic ctx event)) w h := by
  by_cases ht : lane.topic = firm.topic
  · refine fun hk => ⟨hi hk, ?_⟩
    intro w' h' hk' hi' hr _
    have hpages : ∀ k ∈ firm.handlers, (w'.diaries k).page event.id = (w.diaries k).page event.id :=
      hr.2 lane event hb.1
    have hsettled : ∀ k ∈ firm.handlers, Diary.Settled event ((w'.diaries k).page event.id) := by
      intro k hks
      rw [hpages k hks]
      exact hv hk ht k hks
    have hnone : h' ++ told i ((firm.accord config seed).watch w' w') = h' := by
      rw [show (firm.accord config seed).watch w' w' = arrived w'.bus w'.bus from rfl, arrived_self,
        append_told_nil]
    refine ⟨fun j _ => ⟨rfl, fun _ _ _ _ _ => rfl⟩, ?_⟩
    rw [hnone]
    change (firm.accord config seed).Safe i post (ofFiber (dispatch
      ((w'.bus.handlers lane.topic).map firm.wiring.handler) firm.observe ctx event)) w' h'
    rw [ht, hk'.2.1]
    refine safe_writes (hf.writes_dispatch (v := fun k => (w'.diaries k).page event.id) hsettled) (fun _ => hi')
      (hr.1 ▸ hb) (fun _ _ => rfl) ?_
    intro _ w'' h'' v hwrote hi'' hb'' hv''
    apply hp w'' h'' hi'' hb''
    intro _ k hks
    rw [hv'' k hks]
    exact hwrote k hks
  · have hloose : (Bus.deliver firm.wiring lane.topic ctx event).Abides (fun _ => True)
        fun w w' : Office H Y => ∀ k, Diary.Apart event.id (w.diaries k) (w'.diaries k) :=
      (Fiber.abides_perform fun _ _ _ _ _ => rfl).bind fun ks => hf.abides_dispatch ks
    refine safe_ofFiber hloose (fun _ _ hn hm => hn.append hm.plain) ?_ hi hb ?_
    · intro w h w' o hk hb' hapart
      exact ⟨hk.write o (o.busy_of_own hb'.1) hapart fun hl => absurd hl ht, rely_of_apart o hb'.1 hapart⟩
    · exact fun _ w' h' hi' hb' => hp w' h' hi' hb' fun hl => absurd hl ht

theorem Sound.calm_deliver (lane : LaneId) (ctx : Context) (event : Event) :
    firm.Calm config seed (Noted.deliver firm.wiring lane ctx event) := by
  rintro i w h ⟨hi, hidle⟩
  have hbefore : ∀ {w : Office H Y}, (firm.accord config seed).known w (h ++ [(i, .begun lane event)]) →
      (firm.accord config seed).known w h := fun hk => ⟨hk.1, hk.2.1, hk.2.2.before⟩
  have hfree : Orderly config seed (h ++ [(i, .begun lane event)]) →
      (hands lane (h.map Prod.snd)).busy = none := by
    intro o
    rw [← o.hands_before]
    exact hidle lane
  refine Accord.Safe.bind ?_
  change (firm.accord config seed).Safe i _ ((ofFiber (Bus.deliver firm.wiring lane.topic ctx event)).bind
    fun _ => tell (.ended lane event)) w (h ++ [(i, .begun lane event)])
  refine Accord.Safe.bind (hf.safe_deliver lane ctx ?_ ?_ ?_ ?_)
  · intro hk
    change firm.Kept w.diaries ((h ++ [(i, Notice.begun lane event)]).map Prod.snd)
    rw [List.map_append]
    exact (hi (hbefore hk)).begin hk.2.2 (hfree hk.2.2)
  · rw [own_concat]
    exact hidle.begun
  · exact fun hk ht k hks => (hi (hbefore hk)).settled_begun hk.2.2 (hfree hk.2.2) ht hks
  · intro w' h' hi' hb' hdone
    constructor
    · intro hk
      have o : Orderly config seed h' := hk.2.2.before
      change firm.Kept w'.diaries ((h' ++ [(i, Notice.ended lane event)]).map Prod.snd)
      rw [List.map_append]
      exact (hi' ⟨hk.1, hk.2.1, o⟩).finish (o.busy_of_own hb'.1) hdone
    · rw [own_concat]
      exact hb'.ended

end Deliver

section Programs

omit [DecidableEq H] in
theorem discreet_publisher (ctx : Context) (events : List Event) :
    (publisher ctx events : Fiber (Office H Y) (Except PublishError Unit)).Abides (fun _ => True)
      fun w w' : Office H Y => w'.diaries = w.diaries := by
  induction events with
  | nil => exact Fiber.abides_pure _
  | cons event rest ih =>
    change Fiber.Abides _ _ ((send ctx event).run >>= _)
    rw [run_send]
    have hact : ∀ {β : Type} {ready : Office H Y → Bool} {f : Office H Y → β × Office H Y},
        (∀ w, (f w).2.diaries = w.diaries) → (Fiber.await ready f).Abides (fun _ => True)
          fun w w' : Office H Y => w'.diaries = w.diaries :=
      fun hf => Fiber.abides_await fun w _ _ => hf w
    refine Fiber.Abides.bind ((hact fun _ => rfl).bind ?_) ?_
    · intro routed
      cases routed with
      | error e => exact Fiber.abides_pure _
      | ok id =>
        refine Fiber.Abides.bind (hact fun _ => rfl) ?_
        intro offer
        cases offer with
        | decided result => exact Fiber.abides_pure _
        | waits ticket => exact hact fun _ => rfl
    · intro result
      cases result with
      | error e => exact Fiber.abides_pure _
      | ok u => exact ih

theorem calm_note (message : String) (fields : List (String × Json)) (span : Option Span) :
    firm.Calm config seed (ofFiber (note message fields span)) :=
  calm_await fun _ => rfl

theorem calm_listen (ctx : Context) :
    firm.Calm config seed (Noted.listen ctx : Noted H (Diaries H × Y) (Except BusError Unit)) := by
  have hwait : firm.Calm config seed (do
      ofFiber <| Fiber.await (fun w => w.bus.isDrained) fun w => ((), w)
      tell .drained
      ofFiber <| note "event bus stopped" [] ctx.span
      ofFiber <| Fiber.perform fun w => (.ok (), w.withBus stop) :
        Noted H (Diaries H × Y) (Except BusError Unit)) :=
    (calm_await fun _ => rfl).bind fun _ => (calm_tell (n := .drained) rfl).bind fun _ =>
      (calm_note _ _ _).bind fun _ => calm_await fun _ => rfl
  refine Calm.bind (calm_await fun _ => rfl) ?_
  intro begun
  cases begun with
  | error e => exact calm_pure _
  | ok lanes =>
    refine (calm_tell (n := .opened) rfl).bind fun _ => (calm_await fun _ => rfl).bind fun bus =>
      (calm_note _ _ _).bind fun _ => ?_
    split
    · exact (calm_await fun _ => rfl).bind fun _ => hwait
    · exact hwait

variable (hf : firm.Sound config seed)
include hf

theorem Sound.calm_deliverAll (lane : LaneId) (ctx : Context) (events : List Event) :
    firm.Calm config seed (Noted.deliverAll firm.wiring lane ctx events) := by
  induction events with
  | nil => exact calm_pure ()
  | cons event rest ih => exact (hf.calm_deliver lane ctx event).bind fun _ => ih

theorem Sound.calm_finish (lane : LaneId) (events : List Event) :
    firm.Calm config seed (Noted.finish firm.wiring lane events) :=
  (hf.calm_deliverAll lane .background events).bind fun _ => (calm_await fun _ => rfl).bind fun _ =>
    calm_tell (n := .finished lane) rfl

theorem Sound.calm_drainAll (lanes : List LaneId) :
    firm.Calm config seed (Noted.drainAll firm.wiring lanes) := by
  induction lanes with
  | nil => exact calm_pure ()
  | cons lane rest ih =>
    exact (calm_await fun _ => rfl).bind fun events =>
      (calm_tell (n := .took lane events true) rfl).bind fun _ => (hf.calm_finish lane events).bind fun _ => ih

theorem Sound.calm_close : firm.Calm config seed (Noted.close firm.wiring) := by
  refine Calm.bind (calm_await fun _ => rfl) ?_
  intro claimed
  cases claimed with
  | none => exact (calm_await fun _ => rfl).bind fun _ => calm_tell (n := .drained) rfl
  | some lanes =>
    exact (calm_tell (n := .claimed lanes) rfl).bind fun _ => (hf.calm_drainAll lanes).bind fun _ =>
      (calm_tell (n := .drained) rfl).bind fun _ => (calm_note _ _ _).bind fun _ => calm_await fun _ => rfl

theorem Sound.calm_shift (worker : Worker) : firm.Calm config seed (shift firm.wiring worker) := by
  have hturn : firm.Calm config seed (Noted.turn firm.wiring worker) := by
    refine Calm.bind (calm_await fun _ => rfl) ?_
    intro next
    cases next with
    | goOn events =>
      exact (calm_tell (n := .took worker.lane events false) rfl).bind fun _ =>
        (hf.calm_deliverAll worker.lane worker.context events).bind fun _ => calm_pure true
    | finish events =>
      exact (calm_tell (n := .took worker.lane events true) rfl).bind fun _ =>
        (hf.calm_finish worker.lane events).bind fun _ => calm_pure false
  exact hturn.bind fun _ => calm_pure _

theorem Sound.calm_job (task : Bus.Task H) : firm.Calm config seed (task.job firm.wiring) := by
  cases task with
  | publish ctx events => exact (calm_ofFiber (discreet_publisher ctx events)).bind fun _ => calm_pure _
  | subscribe topic handlers =>
    refine Calm.bind (calm_await fun w => ?_) fun _ => calm_pure _
    split <;> rfl
  | listen ctx => exact (calm_listen ctx).bind fun _ => calm_pure _
  | close => exact hf.calm_close.bind fun _ => calm_pure _

theorem Sound.lawful : (firm.accord config seed).Lawful where
  refl _ _ _ := ⟨rfl, fun _ _ _ _ _ => rfl⟩
  trans _ _ _ _ _ _ _ hr hr' :=
    ⟨hr'.1.trans hr.1, fun lane event hb k hks =>
      (hr'.2 lane event (hr.1.symm ▸ hb) k hks).trans (hr.2 lane event hb k hks)⟩
  note i j n w h hj := by
    refine ⟨?_, fun _ _ _ _ _ => rfl⟩
    rw [own_append, show own i [(j, n)] = [] from own_told_other hj.symm [n], List.append_nil]
  stable i r w h w' h' he hr := by
    change Idle (own i h')
    rw [hr.1]
    exact he
  outside _ _ _ hi := ⟨hi, fun _ => ⟨rfl, fun _ _ _ _ _ => rfl⟩⟩
  call w h t w' hk hi hc := by
    cases hhired : w.hired with
    | nil =>
      simp only [accord, rules, Bus.rules, hhired] at hc
      cases hc
    | cons worker rest =>
      simp only [accord, rules, Bus.rules, hhired] at hc
      cases hc
      refine ⟨fun _ => ⟨rfl, fun _ _ _ _ _ => rfl⟩, fun i hn => ?_⟩
      have hcalm : firm.Calm config seed (tell (.serves worker.lane) >>= fun _ => shift firm.wiring worker) :=
        (calm_tell (n := .serves worker.lane) rfl).bind fun _ => hf.calm_shift worker
      exact hcalm i _ h ⟨fun _ => hi, hn ▸ idle_nil⟩
  again r t hr i w h _ hi he := by
    cases r with
    | worked worker more =>
      cases more with
      | true =>
        cases hr
        exact hf.calm_shift worker i w h ⟨fun _ => hi, he⟩
      | false => cases hr
    | published | subscribed | listened | closed => cases hr

end Programs

/-- Visits are nothing to the diaries. -/
theorem hospitable_accord : Hospitable config seed (firm.accord config seed) where
  watch _ _ := rfl
  shaped hk _ := hk.1
  visit i w w' h _ hi _ _ hd := by
    refine ⟨?_, fun j _ => ⟨rfl, fun _ _ _ k _ => by rw [hd]⟩⟩
    change firm.Kept w'.diaries ((h ++ told i (arrived w.bus w'.bus)).map Prod.snd)
    rw [hd]
    exact Kept.arrived hi i _ _
  own hr := hr.1

end Firm

end EventJournal
