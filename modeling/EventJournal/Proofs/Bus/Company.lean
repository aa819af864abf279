import EventJournal.Proofs.Bus.Work

/-!
Everybody on a bus goes by the conduct. Of a publication it is known at its end which events of its batch
were accepted, and of listening and closing that every lane was finished.
-/
namespace EventJournal.Bus

open History Told

variable {H X : Type} {config : BusConfig} {seed : UInt32} {wiring : Wiring H X}
  {inv : Bus H → List Worker → List (Nat × Notice) → Prop} {i : Nat} {w : World H X}
  {h : List (Nat × Notice)}

section Publish

variable (hu : Upheld config seed inv)
include hu

theorem Upheld.accepted (i : Nat) {event : Event} {bus' : Bus H} (hi : inv w.bus w.hired h)
    (hb : Brings config seed w.bus event bus') :
    let h' := h ++ told i (arrived w.bus bus')
    inv bus' w.hired h' ∧ own i h' = own i h ++ [.accepted (home config seed event) event] := by
  intro h'
  have ha : arrived w.bus bus' = [.accepted (home config seed event) event] := by
    rw [arrived, hb.gains_eq]
    rfl
  simp only [h', ha]
  refine ⟨hu.does i hi (.brought hb), ?_⟩
  rw [own_append, own_told]

theorem Upheld.declined (i : Nat) {bus' : Bus H} (hi : inv w.bus w.hired h) (hq : Quiet w.bus bus')
    (hs : bus'.Shaped config seed) :
    let h' := h ++ told i (arrived w.bus bus')
    inv bus' w.hired h' ∧ own i h' = own i h := by
  intro h'
  have he : h' = h := by simp only [h', arrived_eq_nil hq.gains_eq, append_told_nil]
  rw [he]
  refine ⟨?_, rfl⟩
  rw [← append_told_nil i h]
  exact hu.does i hi (.quiet hq hs)

/-- One event is accepted, or the publisher is told why not. -/
theorem safe_send (ctx : Context) (event : Event)
    {post : Except PublishError Unit → World H X → List (Nat × Notice) → Prop}
    (hi : inv w.bus w.hired h)
    (hok : ∀ w' h' id, inv w'.bus w'.hired h' → own i h' = own i h ++ [.accepted id event] →
      post (.ok ()) w' h')
    (herror : ∀ e w' h', inv w'.bus w'.hired h' → own i h' = own i h → post (.error e) w' h') :
    (pact wiring inv).Safe i post (ofFiber (send ctx event).run) w h := by
  rw [run_send, ofFiber_bind]
  refine Pact.Safe.bind (safe_look (fun _ => rfl) (fun _ => rfl) hi ?_)
  intro w₁ h₁ hi₁ ho₁ _
  cases hr : w₁.bus.route event with
  | error e => exact herror e w₁ h₁ hi₁ ho₁
  | ok id =>
    dsimp only
    rw [ofFiber_bind]
    refine Pact.Safe.bind (safe_await hi₁ ?_)
    intro w₂ h₂ hi₂ ho₂ _
    have hs₂ := hu.shaped hi₂
    rw [(hu.shaped hi₁).route_eq hr]
    obtain ⟨he, hb⟩ | ⟨⟨e, he⟩ | ⟨ticket, he⟩, hq, hs⟩ := offer_cases hs₂ event (w₂.isCancelled ctx)
    · simp only [World.onBus, he]
      obtain ⟨hi₃, ho₃⟩ := hu.accepted i hi₂ hb
      apply hok _ _ _ hi₃
      rw [ho₃, ho₂, ho₁]
    · simp only [World.onBus, he]
      obtain ⟨hi₃, ho₃⟩ := hu.declined i hi₂ hq hs
      apply herror e _ _ hi₃
      rw [ho₃, ho₂, ho₁]
    · simp only [World.onBus, he]
      obtain ⟨hi₃, ho₃⟩ := hu.declined i hi₂ hq hs
      refine safe_await hi₃ ?_
      intro w₄ h₄ hi₄ ho₄ _
      obtain ⟨he', hb⟩ | ⟨⟨e, he'⟩, hq, hs⟩ :=
        claim_cases (hu.shaped hi₄) ticket event (w₄.isCancelled ctx)
      · obtain ⟨hi₅, ho₅⟩ := hu.accepted i hi₄ hb
        simp only [he']
        apply hok _ _ _ hi₅
        rw [ho₅, ho₄, ho₃, ho₂, ho₁]
      · obtain ⟨hi₅, ho₅⟩ := hu.declined i hi₄ hq hs
        simp only [he']
        apply herror e _ _ hi₅
        rw [ho₅, ho₄, ho₃, ho₂, ho₁]

/-- Of a batch a first part is accepted, all of it unless the publisher is told otherwise. -/
theorem safe_publisher (ctx : Context) (events : List Event)
    {post : Except PublishError Unit → World H X → List (Nat × Notice) → Prop}
    (hi : inv w.bus w.hired h)
    (hp : ∀ r w' h' ns, inv w'.bus w'.hired h' → Unattended ns → own i h' = own i h ++ ns →
      arrivals ns <+: events → (r = .ok () → arrivals ns = events) → post r w' h') :
    (pact wiring inv).Safe i post (ofFiber (publisher ctx events)) w h := by
  induction events generalizing w h with
  | nil =>
    exact hp (.ok ()) w h [] hi (fun _ hn => by cases hn) (List.append_nil _).symm
      (List.prefix_refl _) fun _ => rfl
  | cons event rest ih =>
    change (pact wiring inv).Safe i post (ofFiber ((send ctx event).run.bind _)) w h
    rw [ofFiber_bind]
    refine Pact.Safe.bind (safe_send hu ctx event hi ?_ ?_)
    · intro w₁ h₁ id hi₁ ho₁
      apply ih hi₁
      intro r w₂ h₂ ns hi₂ hns ho₂ hes hr
      apply hp r w₂ h₂ (.accepted id event :: ns) hi₂
      · intro n hn
        rcases List.mem_cons.mp hn with rfl | hn
        · exact ⟨id, event, rfl⟩
        · exact hns n hn
      · rw [ho₂, ho₁, List.append_assoc]
        rfl
      · exact List.cons_prefix_cons.mpr ⟨rfl, hes⟩
      · intro hok
        change event :: arrivals ns = event :: rest
        rw [hr hok]
    · intro e w₁ h₁ hi₁ ho₁
      apply hp (.error e) w₁ h₁ [] hi₁ (fun _ hn => by cases hn)
      · rw [ho₁, List.append_nil]
      · exact List.nil_prefix
      · exact fun hr => by cases hr

end Publish

section Serve

variable (hu : Upheld config seed inv)
include hu

/-- Once every lane is finished, whoever saw to it records that and stops the bus. -/
theorem safe_conclude {α : Type} {post : α → World H X → List (Nat × Notice) → Prop} (message : String)
    (fields : List (String × Json)) (span : Option Span) (a : α) (hi : inv w.bus w.hired h)
    (hd : .drained ∈ own i h)
    (hp : ∀ w' h', inv w'.bus w'.hired h' → .drained ∈ own i h' → post a w' h') :
    (pact wiring inv).Safe i post ((ofFiber (note message fields span)).bind fun _ =>
      ofFiber (Fiber.perform fun w => (a, w.withBus stop))) w h := by
  refine Pact.Safe.bind (safe_note message fields span hi ?_)
  intro w₁ h₁ hi₁ ho₁
  apply safe_await hi₁
  intro w₂ h₂ hi₂ ho₂ _
  have hd₂ : .drained ∈ own i h₂ := by
    rw [ho₂, ho₁]
    exact hd
  have hnone : arrived w₂.bus w₂.bus.stop = [] := arrived_eq_nil (gains_eq_nil fun _ => Nat.le_refl _)
  change post a (w₂.withBus stop) (h₂ ++ told i (arrived w₂.bus w₂.bus.stop))
  rw [hnone]
  apply hp
  · exact hu.does i hi₂ (.stopped hd₂)
  · rw [append_told_nil]
    exact hd₂

/-- Whoever sees that every lane is finished gives notice of it. -/
theorem Upheld.drained (i : Nat) (hi : inv w.bus w.hired h) (hd : w.bus.stopped = true ∨
      .opened ∈ own i h ∧ w.bus.isDrained = true ∨
      ∃ ids, .claimed ids ∈ own i h ∧ ∀ id ∈ ids, .finished id ∈ own i h) :
    inv w.bus w.hired (h ++ told i [.drained]) ∧ .drained ∈ own i (h ++ told i [.drained]) :=
  ⟨hu.does i hi (.drained hd), mem_own_concat i h _⟩

theorem safe_listen (ctx : Context) {post : Except BusError Unit → World H X → List (Nat × Notice) → Prop}
    (hi : inv w.bus w.hired h)
    (hok : ∀ w' h', inv w'.bus w'.hired h' → .drained ∈ own i h' → post (.ok ()) w' h')
    (herror : ∀ e w' h', inv w'.bus w'.hired h' → own i h' = own i h → post (.error e) w' h') :
    (pact wiring inv).Safe i post (Noted.listen ctx) w h := by
  refine Pact.Safe.bind (safe_await hi ?_)
  intro w₁ h₁ hi₁ ho₁ _
  obtain ⟨e, he⟩ | ⟨he, ho⟩ := beginListening_cases (hu.shaped hi₁)
  · simp only [he, arrived_self, append_told_nil, Except.toOption, Option.getD_none, List.map_nil,
      List.append_nil]
    exact herror e _ h₁ hi₁ ho₁
  · simp only [he, arrived_eq_nil ho.gains_eq, append_told_nil, Except.toOption, Option.getD_some]
    have hi₂ := hu.does i hi₁ (.opened ho { ctx with span := none })
    have hm : .opened ∈ own i (h₁ ++ told i [.opened]) := mem_own_concat i h₁ _
    -- the workers do the rest
    have hwait : ∀ w h, inv w.bus w.hired h → .opened ∈ own i h →
        (pact wiring inv).Safe i post (do
          ofFiber <| Fiber.await (fun w => w.bus.isDrained) fun w => ((), w)
          tell .drained
          ofFiber <| note "event bus stopped" [] ctx.span
          ofFiber <| Fiber.perform fun w => (.ok (), w.withBus stop)) w h := by
      intro w h hi hm
      refine Pact.Safe.bind (safe_look (fun _ => rfl) (fun _ => rfl) hi ?_)
      intro w' h' hi' ho' hr
      rw [← ho'] at hm
      obtain ⟨hi'', hd⟩ := hu.drained i hi' (.inr (.inl ⟨hm, hr⟩))
      refine Pact.Safe.bind ?_
      exact safe_conclude hu _ _ _ _ hi'' hd hok
    refine Pact.Safe.bind ?_
    refine Pact.Safe.bind (safe_look (fun _ => rfl) (fun _ => rfl) hi₂ ?_)
    intro w₃ h₃ hi₃ ho₃ _
    refine Pact.Safe.bind (safe_note _ _ _ hi₃ ?_)
    intro w₄ h₄ hi₄ ho₄
    have hm₄ : .opened ∈ own i h₄ := by
      rw [ho₄, ho₃]
      exact hm
    split
    · refine Pact.Safe.bind (safe_look (fun _ => rfl) (fun _ => rfl) hi₄ ?_)
      intro w₅ h₅ hi₅ ho₅ _
      exact hwait w₅ h₅ hi₅ (ho₅ ▸ hm₄)
    · exact hwait w₄ h₄ hi₄ hm₄

variable (hw : wiring.Courteous config seed)
include hw

theorem safe_close {post : Unit → World H X → List (Nat × Notice) → Prop} (hi : inv w.bus w.hired h)
    (hn : own i h = []) (hp : ∀ w' h', inv w'.bus w'.hired h' → .drained ∈ own i h' → post () w' h') :
    (pact wiring inv).Safe i post (Noted.close wiring) w h := by
  refine Pact.Safe.bind (safe_await hi ?_)
  intro w₁ h₁ hi₁ ho₁ _
  obtain ⟨he, hstarted⟩ | ⟨he, ho⟩ := beginClosing_cases (hu.shaped hi₁)
  · simp only [World.onBus, he]
    have hi₂ := hu.visit i hi₁ (.close hstarted)
    refine Pact.Safe.bind (safe_look (fun _ => rfl) (fun _ => rfl) hi₂ ?_)
    intro w₃ h₃ hi₃ _ hr
    obtain ⟨hi₄, hd⟩ := hu.drained i hi₃ (.inl hr)
    exact hp _ _ hi₄ hd
  · simp only [World.onBus, he, arrived_eq_nil ho.gains_eq, append_told_nil]
    have hi₂ := hu.does i hi₁ (.claimed ho)
    have hown : own i (h₁ ++ told i [.claimed w₁.bus.laneIds]) = [.claimed w₁.bus.laneIds] := by
      rw [own_append, own_told, ho₁, hn, List.nil_append]
    have hclaimed : .claimed w₁.bus.laneIds ∈ own i (h₁ ++ told i [.claimed w₁.bus.laneIds]) :=
      mem_own_concat i h₁ _
    refine Pact.Safe.bind ?_
    refine Pact.Safe.bind (safe_drainAll hu hw _ hi₂ ?_ ?_ ?_)
    · exact fun id hid => .inr ⟨_, hclaimed, hid⟩
    · exact fun id _ => congrArg (hands id) hown
    · intro w₃ h₃ hi₃ hkept hfinished
      obtain ⟨hi₄, hd⟩ := hu.drained i hi₃ (.inr (.inr ⟨_, hkept _ hclaimed, hfinished⟩))
      refine Pact.Safe.bind ?_
      exact safe_conclude hu _ _ _ _ hi₄ hd hp

end Serve

section Crowd

variable (hu : Upheld config seed inv)
include hu

theorem safe_subscribeTo (topic : String) (handlers : List H)
    {post : Except BusError Unit → World H X → List (Nat × Notice) → Prop} (hi : inv w.bus w.hired h)
    (hp : ∀ r w' h' ns, inv w'.bus w'.hired h' → Unattended ns → own i h' = own i h ++ ns → post r w' h') :
    (pact wiring inv).Safe i post (ofFiber (subscribeTo topic handlers)) w h := by
  apply safe_await hi
  intro w₁ h₁ hi₁ ho₁ _
  have hvisit : ∀ r bus, Visit config seed w₁.bus bus →
      post r { w₁ with bus } (h₁ ++ told i (arrived w₁.bus bus)) := by
    intro r bus hv
    apply hp r { w₁ with bus } _ (arrived w₁.bus bus) (hu.visit i hi₁ hv) (unattended_arrived _ _)
    rw [own_append, own_told, ho₁]
  cases hs : w₁.bus.subscribe topic handlers with
  | ok bus => exact hvisit (.ok ()) bus (.subscribe topic handlers hs)
  | error e => exact hvisit (.error e) w₁.bus .none

variable (hw : wiring.Courteous config seed)
include hw

theorem safe_job (task : Task H) (hi : inv w.bus w.hired h) (hn : own i h = []) :
    (pact wiring inv).Safe i ((pact wiring inv).Final i) (task.job wiring) w h := by
  cases task with
  | publish ctx events =>
    refine Pact.Safe.bind (safe_publisher hu ctx events hi ?_)
    intro r w' h' ns hi' hns ho hes hr
    rw [hn, List.nil_append] at ho
    subst ho
    exact ⟨hi', hes, hr, hns⟩
  | subscribe topic handlers =>
    refine Pact.Safe.bind (safe_subscribeTo hu topic handlers hi ?_)
    intro r w' h' ns hi' hns ho
    rw [hn, List.nil_append] at ho
    subst ho
    exact ⟨hi', hns⟩
  | listen ctx =>
    refine Pact.Safe.bind (safe_listen hu ctx hi ?_ ?_)
    · exact fun w' h' hi' hd => ⟨hi', hd⟩
    · intro e w' h' hi' ho
      refine ⟨hi', ?_⟩
      rw [hn] at ho
      change Unattended (own i h')
      rw [ho]
      exact fun _ hm => by cases hm
  | close =>
    refine Pact.Safe.bind (safe_close hu hw hi hn ?_)
    exact fun _ _ hi' hd => ⟨hi', hd⟩

theorem safe_shift (worker : Worker) (hi : inv w.bus w.hired h) (hc : Charged worker.lane (own i h))
    (hh : hands worker.lane (own i h) = .free) (hall : ∀ id, Charged id (own i h) → id = worker.lane) :
    (pact wiring inv).Safe i ((pact wiring inv).Final i) (shift wiring worker) w h := by
  refine Pact.Safe.bind (safe_turn hu hw worker hi hc hh ?_)
  intro more w' h' hi' hs hh' hf
  have hall' : ∀ id, Charged id (own i h') → id = worker.lane := fun id hc' => hall id (hs.charged id hc')
  cases more with
  | true => exact ⟨hi', hc.mono hs.kept, hh', hall'⟩
  | false =>
    refine ⟨hi', ?_⟩
    intro id hc'
    rw [hall' id hc']
    exact hf rfl

theorem lawful : (pact wiring inv).Lawful where
  outside _ _ _ hi := hi
  call w h t w' hi hcall i hn := by
    cases hhired : w.hired with
    | nil =>
      simp only [pact, rules, hhired] at hcall
      cases hcall
    | cons worker rest =>
      simp only [pact, rules, hhired] at hcall
      cases hcall
      have hi' := hu.does i hi (.served hhired)
      have hown : own i (h ++ [(i, .serves worker.lane)]) = [.serves worker.lane] := by
        rw [own_concat, hn, List.nil_append]
      refine Pact.Safe.bind ?_
      refine safe_shift hu hw worker hi' ?_ ?_ ?_
      · rw [hown]
        exact .inl (List.mem_singleton.mpr rfl)
      · rw [hown]
        rfl
      · rw [hown]
        rintro id (hs | ⟨ids, hc, -⟩)
        · cases List.mem_singleton.mp hs
          rfl
        · cases List.mem_singleton.mp hc
  again a t ha i w h hi hk := by
    cases a with
    | worked worker more =>
      cases more with
      | true =>
        cases ha
        exact safe_shift hu hw worker hi hk.1 hk.2.1 hk.2.2
      | false => cases ha
    | published | subscribed | listened | closed => cases ha

/-- What is upheld holds of any number of tasks on one bus, wherever each of them has come to. -/
theorem holds_crowd {bus : Bus H} (hi : inv bus [] []) (millis : Nat) (rest : X) (tasks : List (Task H))
    (moves : List (Move (World H X → World H X))) :
    (pact wiring inv).Holds ((crowd wiring bus millis rest tasks).run (rules wiring) moves) := by
  have hstart : (pact wiring inv).inv (World.create bus millis rest) [] := hi
  refine Pact.Holds.run (lawful hu hw) (Pact.Holds.gather hstart ?_) moves
  intro t ht i w h hi hn
  obtain ⟨task, -, rfl⟩ := List.mem_map.mp ht
  exact safe_job hu hw task hi hn

end Crowd

end EventJournal.Bus
