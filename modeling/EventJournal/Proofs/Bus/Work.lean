import EventJournal.Proofs.Bus.Tasks

/-!
Workers and closers go by the conduct: whoever is in charge of a lane takes out its events, dispatches them
one after the other, and finishes the lane once it is closed and nothing is left in hand.
-/
namespace EventJournal.Bus

open History Told

variable {H X : Type} {config : BusConfig} {seed : UInt32} {wiring : Wiring H X}
  {inv : Bus H → List Worker → List (Nat × Notice) → Prop} {i : Nat} {w : World H X}
  {h : List (Nat × Notice)} {id : LaneId}

/-- A notice on one lane is about no other. -/
theorem not_concerns {n : Notice} (hn : n.concerns id = true) (j : LaneId) (hj : j ≠ id) :
    n.concerns j = false := by
  cases n with
  | took k events last | begun k event | ended k event =>
    have hk : k = id := eq_of_beq hn
    exact beq_false_of_ne (hk ▸ hj.symm)
  | _ => rfl

theorem Since.concat_of_concerns {n : Notice} (hn : n.concerns id = true) (mine : List Notice) :
    Since id mine (mine ++ [n]) := by
  refine .concat (not_concerns hn) ?_
  rintro j (hs | ⟨ids, hs, -⟩)
  · cases List.mem_singleton.mp hs
    cases hn
  · cases List.mem_singleton.mp hs
    cases hn

theorem arrived_finishLane (bus : Bus H) (id : LaneId) : arrived bus (bus.finishLane id) = [] :=
  arrived_eq_nil (gains_eq_nil fun j => Nat.le_of_eq (congrArg _ (queue_finishLane bus id j)))

/-- Events are taken out by whoever is in charge of the lane and has nothing in hand. Then they are in his
hands. -/
theorem Upheld.took (hu : Upheld config seed inv) {events : List Event} {last : Bool} {bus' : Bus H}
    (hi : inv w.bus w.hired h) (hc : Charged id (own i h)) (hh : hands id (own i h) = .free)
    (ht : Takes config seed id events last w.bus bus') :
    let h' := h ++ told i (arrived w.bus bus') ++ told i [.took id events last]
    inv bus' w.hired h' ∧ Charged id (own i h') ∧ hands id (own i h') = ⟨none, events⟩ ∧
      Since id (own i h) (own i h') ∧ .took id events last ∈ own i h' := by
  intro h'
  have hb : (Notice.took id events last).concerns id = true := beq_self_eq_true id
  have he : h' = h ++ told i [.took id events last] := by
    simp only [h', arrived_eq_nil ht.gains_eq, append_told_nil]
  have ho : own i h' = own i h ++ [.took id events last] := by
    rw [he, own_append, own_told]
  have hi' : inv bus' w.hired h' := by
    rw [he]
    exact hu.does i hi (.took hc hh ht)
  have hs : Since id (own i h) (own i h') := by
    rw [ho]
    exact .concat_of_concerns hb _
  have hh' : hands id (own i h') = ⟨none, events⟩ := by
    rw [ho, hands_concat_of_concerns hb, hh]
    rfl
  have hm : .took id events last ∈ own i h' := mem_own_concat i _ _
  exact ⟨hi', hc.mono hs.kept, hh', hs, hm⟩

section Work

variable (hu : Upheld config seed inv) (hw : wiring.Courteous config seed)
include hu hw

/-- The dispatch of one event, which was the next in hand. -/
theorem safe_deliver {event : Event} {rest : List Event} (ctx : Context)
    {post : Unit → World H X → List (Nat × Notice) → Prop} (hi : inv w.bus w.hired h)
    (hc : Charged id (own i h)) (hh : hands id (own i h) = ⟨none, event :: rest⟩)
    (hp : ∀ w' h', inv w'.bus w'.hired h' → Since id (own i h) (own i h') →
      hands id (own i h') = ⟨none, rest⟩ → post () w' h') :
    (pact wiring inv).Safe i post (Noted.deliver wiring id ctx event) w h := by
  let h₁ := h ++ told i [.begun id event]
  have ho₁ : own i h₁ = own i h ++ [.begun id event] := own_concat i h _
  have hb : (Notice.begun id event).concerns id = true := beq_self_eq_true id
  have he : (Notice.ended id event).concerns id = true := beq_self_eq_true id
  have hc₁ : Charged id (own i h₁) := by
    rw [ho₁]
    exact hc.mono fun n hn => List.mem_append_left _ hn
  have hh₁ : hands id (own i h₁) = ⟨some event, rest⟩ := by
    rw [ho₁, hands_concat_of_concerns hb, hh]
    rfl
  have hi₁ : inv w.bus w.hired h₁ := hu.does i hi (.begun hc hh)
  refine Pact.Safe.bind ?_
  change (pact wiring inv).Safe i post
    ((ofFiber (Bus.deliver wiring id.topic ctx event)).bind fun _ => tell (.ended id event)) w h₁
  refine Pact.Safe.bind (safe_courteous hu (hw.deliver id.topic ctx event) hi₁ hc₁ ?_)
  intro _ w' h' ns hi' hns ho'
  have hmid : Since id (own i h₁) (own i h') := ho' ▸ .append hns
  have hhands : hands id (own i h') = ⟨some event, rest⟩ := by
    rw [ho', hands_append_of_unattended hns, hh₁]
  apply hp
  · exact hu.does i hi' (.ended (hc₁.mono hmid.kept) hhands)
  · rw [own_concat]
    rw [ho₁] at hmid
    exact ((Since.concat_of_concerns hb _).trans hmid).trans (.concat_of_concerns he _)
  · rw [own_concat, hands_concat_of_concerns he, hhands]
    rfl

/-- All that is in hand is dispatched. -/
theorem safe_deliverAll (ctx : Context) (events : List Event)
    {post : Unit → World H X → List (Nat × Notice) → Prop} (hi : inv w.bus w.hired h)
    (hc : Charged id (own i h)) (hh : hands id (own i h) = ⟨none, events⟩)
    (hp : ∀ w' h', inv w'.bus w'.hired h' → Since id (own i h) (own i h') →
      hands id (own i h') = .free → post () w' h') :
    (pact wiring inv).Safe i post (Noted.deliverAll wiring id ctx events) w h := by
  induction events generalizing w h with
  | nil => exact hp w h hi (.refl id _) hh
  | cons event rest ih =>
    refine Pact.Safe.bind (safe_deliver hu hw ctx hi hc hh ?_)
    intro w₁ h₁ hi₁ hs₁ hh₁
    apply ih hi₁ (hc.mono hs₁.kept) hh₁
    intro w₂ h₂ hi₂ hs₂ hh₂
    exact hp w₂ h₂ hi₂ (hs₁.trans hs₂) hh₂

/-- After its last events a lane is finished. -/
theorem safe_finish (events : List Event) {post : Unit → World H X → List (Nat × Notice) → Prop}
    (hi : inv w.bus w.hired h) (hc : Charged id (own i h)) (hh : hands id (own i h) = ⟨none, events⟩)
    (ht : .took id events true ∈ own i h)
    (hp : ∀ w' h', inv w'.bus w'.hired h' → Since id (own i h) (own i h') →
      hands id (own i h') = .free → .finished id ∈ own i h' → post () w' h') :
    (pact wiring inv).Safe i post (Noted.finish wiring id events) w h := by
  refine Pact.Safe.bind (safe_deliverAll hu hw .background events hi hc hh ?_)
  intro w₁ h₁ hi₁ hs₁ hh₁
  refine Pact.Safe.bind (safe_await hi₁ ?_)
  intro w₂ h₂ hi₂ ho₂ _
  have hs₂ : Since id (own i h) (own i h₂) := by
    rw [ho₂]
    exact hs₁
  have hh₂ : hands id (own i h₂) = .free := by
    rw [ho₂]
    exact hh₁
  change post () _ (h₂ ++ told i (arrived w₂.bus (w₂.bus.finishLane id)) ++ told i [.finished id])
  rw [arrived_finishLane, append_told_nil]
  apply hp
  · exact hu.does i hi₂ (.finished (hc.mono hs₂.kept) hh₂ (hs₂.kept _ ht))
  · rw [own_append, own_told]
    exact hs₂.trans (.concat (fun _ _ => rfl) (by simp [Charged]))
  · rw [own_append, own_told, hands_concat_of_not rfl]
    exact hh₂
  · exact mem_own_concat i h₂ _

/-- A worker that comes back from a turn has nothing in hand, and ends only with a finished lane. -/
theorem safe_turn (worker : Worker) {post : Bool → World H X → List (Nat × Notice) → Prop}
    (hi : inv w.bus w.hired h) (hc : Charged worker.lane (own i h))
    (hh : hands worker.lane (own i h) = .free)
    (hp : ∀ more w' h', inv w'.bus w'.hired h' → Since worker.lane (own i h) (own i h') →
      hands worker.lane (own i h') = .free → (more = false → .finished worker.lane ∈ own i h') →
      post more w' h') :
    (pact wiring inv).Safe i post (Noted.turn wiring worker) w h := by
  refine Pact.Safe.bind (safe_await hi ?_)
  intro w₁ h₁ hi₁ ho₁ _
  rw [← ho₁] at hc hh hp
  obtain ⟨events, he, ht⟩ | ⟨events, he, ht⟩ :=
    takeTurn_takes (hu.shaped hi₁) worker.lane (w₁.isCancelled worker.context)
  · obtain ⟨hi₂, hc₂, hh₂, hs₂, -⟩ := hu.took hi₁ hc hh ht
    simp only [World.onBus, he]
    refine Pact.Safe.bind (Pact.Safe.bind (safe_deliverAll hu hw _ events hi₂ hc₂ hh₂ ?_))
    intro w₃ h₃ hi₃ hs₃ hh₃
    exact hp true w₃ h₃ hi₃ (hs₂.trans hs₃) hh₃ fun hf => by cases hf
  · obtain ⟨hi₂, hc₂, hh₂, hs₂, hm⟩ := hu.took hi₁ hc hh ht
    simp only [World.onBus, he]
    refine Pact.Safe.bind (Pact.Safe.bind (safe_finish hu hw events hi₂ hc₂ hh₂ hm ?_))
    intro w₃ h₃ hi₃ hs₃ hh₃ hf
    exact hp false w₃ h₃ hi₃ (hs₂.trans hs₃) hh₃ fun _ => hf

/-- Whoever is in charge of several lanes finishes one after the other. -/
theorem safe_drainAll (ids : List LaneId) {post : Unit → World H X → List (Nat × Notice) → Prop}
    (hi : inv w.bus w.hired h) (hc : ∀ id ∈ ids, Charged id (own i h))
    (hh : ∀ id ∈ ids, hands id (own i h) = .free)
    (hp : ∀ w' h', inv w'.bus w'.hired h' → (∀ n ∈ own i h, n ∈ own i h') →
      (∀ id ∈ ids, .finished id ∈ own i h') → post () w' h') :
    (pact wiring inv).Safe i post (Noted.drainAll wiring ids) w h := by
  induction ids generalizing w h with
  | nil => exact hp w h hi (fun _ hn => hn) fun _ hid => by cases hid
  | cons id rest ih =>
    refine Pact.Safe.bind (safe_await hi ?_)
    intro w₁ h₁ hi₁ ho₁ _
    rw [← ho₁] at hc hh hp
    have hmem : id ∈ id :: rest := List.mem_cons_self
    have ht := drain_takes (hu.shaped hi₁) id
    obtain ⟨hi₂, hc₂, hh₂, hs₂, hm⟩ := hu.took hi₁ (hc id hmem) (hh id hmem) ht
    refine Pact.Safe.bind (Pact.Safe.bind (safe_finish hu hw _ hi₂ hc₂ hh₂ hm ?_))
    intro w₃ h₃ hi₃ hs₃ hh₃ hf
    have hs := hs₂.trans hs₃
    apply ih hi₃
    · intro j hj
      exact (hc j (List.mem_cons_of_mem _ hj)).mono hs.kept
    · intro j hj
      by_cases he : j = id
      · rw [he]
        exact hh₃
      · rw [hs.other j he]
        exact hh j (List.mem_cons_of_mem _ hj)
    · intro w₄ h₄ hi₄ hkept hrest
      apply hp w₄ h₄ hi₄
      · exact fun n hn => hkept n (hs.kept n hn)
      · intro j hj
        rcases List.mem_cons.mp hj with rfl | hj
        · exact hkept _ hf
        · exact hrest j hj

end Work

end EventJournal.Bus
