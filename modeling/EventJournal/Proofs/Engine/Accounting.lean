import EventJournal.Proofs.Engine.Books
import EventJournal.Proofs.Engine.Closing

/-!
At least once. However engines and relays interleave on one store, and whatever fails of publishing and of
setting aside, no stored event is forgotten, and nothing reaches a publisher that is not stored.
-/
namespace EventJournal

open History

variable {W S α : Type}

/-- Where a stored event is to be found in a crowd of calls. -/
inductive Place (c : Crowd (Store S × W) Deed Outcome) (e : Event) : Prop where
  /-- Somebody published it. -/
  | published (i : Nat) (es : List Event) (told : (i, .published es) ∈ c.history) (mem : e ∈ es)
  | pending (b : PendingBatch) (kept : b ∈ c.state.1.outbox.batches) (mem : e ∈ b.events)
  /-- A call under way has stored it, and its publishing or setting aside is not through. -/
  | underway (i : Nat) (t : Errand W S Outcome) (p : Parcel) (job : c.jobs[i]? = some t)
      (busy : t.result? = none) (owes : phase (own i c.history) = .owes p) (mem : e ∈ p.events)
  /-- It could not be set aside by a call, which says so when it comes back. -/
  | lost (i : Nat) (t : Errand W S Outcome) (p : Parcel) (job : c.jobs[i]? = some t)
      (told : (i, .lost p) ∈ c.history) (confessed : ∀ o, t.result? = some o → o.compensation? ≠ none)
      (mem : e ∈ p.events)

/-- What is kept if controllers are tidy is kept, if they are. -/
theorem Call.Keeps.of_imp {tidy : Prop} {P : Stream S → Prop} {call : Call W S}
    (hc : tidy → call.Keeps P) : call.Keeps fun s => tidy → P s := by
  cases call with
  | command staff ctx command =>
    refine ⟨?_, ?_⟩
    · exact fun n c hm ctx command => .of_imp fun ht => (hc ht).commands n c hm ctx command
    · exact fun n c hm ctx event => .of_imp fun ht => (hc ht).events n c hm ctx event
  | event staff ctx event =>
    refine ⟨?_, ?_⟩
    · exact fun n c hm ctx command => .of_imp fun ht => (hc ht).commands n c hm ctx command
    · exact fun n c hm ctx event => .of_imp fun ht => (hc ht).events n c hm ctx event
  | pass publisher config ctx => trivial

/-- Whatever the books account for is in its place. -/
theorem Accounted.place {tidy : Prop} {c : Crowd (Store S × W) Deed Outcome}
    (hc : (Errand.pact (Books tidy) Errand.Done : Pact (Store S × W) Deed Outcome (W → W)).Holds c)
    {e : Event} (ha : Accounted c.state.1 c.history e) : Place c e := by
  rcases ha with ⟨i, es, hi, hes⟩ | ⟨b, hk, hbe⟩ | ⟨i, p, hp, hpe⟩ | ⟨i, p, hp, hpe⟩
  · exact .published i es hi hes
  · exact .pending b hk hbe
  · -- a job without deeds owes nothing, so this is one of the crowd
    have hlt : i < c.jobs.length := by
      apply Nat.lt_of_not_le
      intro hle
      rw [hc.own_eq_nil hle] at hp
      cases hp
    obtain ⟨t, ht⟩ : ∃ t, c.jobs[i]? = some t := ⟨_, List.getElem?_eq_getElem hlt⟩
    have hbusy : t.result? = none := by
      cases t with
      | done o =>
        have hrest := (hc.ended ht).1
        rw [hp] at hrest
        exact hrest.elim
      | act ready effect next => rfl
      | note n rest => rfl
    exact .underway i t p ht hbusy hp hpe
  · obtain ⟨t, ht⟩ : ∃ t, c.jobs[i]? = some t := ⟨_, List.getElem?_eq_getElem (hc.authors _ hp)⟩
    have hsays : ∀ o, t.result? = some o → o.compensation? ≠ none := by
      intro o ho
      cases t with
      | done o' =>
        cases ho
        exact (hc.ended ht).2 ⟨p, mem_own.mpr hp⟩
      | act ready effect next => cases ho
      | note n rest => cases ho
    exact .lost i t p ht hp hsays hpe

theorem Books.upheld [State S] (tidy : Prop) (name : String) (policy : VersionPolicy) :
    Errand.Upheld (fun s : Stream S => tidy → s.Own) name policy (Books tidy) where
  does hb hd := hb.does hd
  load _ hs _ e he := by
    rw [(Store.load_eq_ok hs).2] at he
    cases he
  blank _ _ _ _ e he := by cases he

/-- However many calls of engines and passes of relays interleave on one store that starts empty, and
whatever publications and settings aside fail: every stored event was published, is pending, is in the
hands of a call under way, or was lost by a call that says so. Whatever a call handed to a publisher it had
stored, or it was told that it was pending, and it stood in the journal of the stream; its events are that
stream's own if controllers add no events of others. And every pending batch is a block of its journal that
ends at its version. -/
theorem at_least_once [Ambient (Fiber W)] [State S] (name : String) (codec : Codec)
    (policy : VersionPolicy) (w : W) (calls : List (Call W S)) (moves : List (Move (W → W))) :
    let c := (Call.crowd name codec policy w calls).run Errand.rules moves
    (∀ id, ∀ e ∈ c.state.1.journal id, Place c e) ∧
    (∀ i es, (i, .handed es) ∈ c.history →
        ∃ p, p.events = es ∧ Handled p (own i c.history) ∧ es <:+: c.state.1.journal p.id ∧
          ((∀ call ∈ calls, call.Keeps Stream.Own) → ∀ e ∈ es, e.streamId = p.id)) ∧
    (∀ b ∈ c.state.1.outbox.batches, ∃ before after,
        c.state.1.journal b.streamId = before ++ b.events ++ after ∧
          (before ++ b.events).length = b.version) := by
  intro c
  have hkeeps : ∀ call ∈ calls,
      call.Keeps fun s : Stream S => (∀ call ∈ calls, call.Keeps Stream.Own) → s.Own :=
    fun call hcall => Call.Keeps.of_imp fun hk => hk call hcall
  have hc : (Errand.pact (Books (∀ call ∈ calls, call.Keeps Stream.Own)) Errand.Done).Holds c :=
    Errand.holds_crowd (Books.upheld _ name policy) hkeeps (Books.fresh name codec policy) w moves
  have hb : Books (∀ call ∈ calls, call.Keeps Stream.Own) c.state.1 c.history := hc.inv
  refine ⟨?_, ?_, ?_⟩
  · intro id e he
    exact (hb.accounted id e he).place hc
  · intro i es hes
    obtain ⟨p, hp, hhandled, hin⟩ := hb.handed i es hes
    refine ⟨p, hp, hhandled, hin, ?_⟩
    intro hk e he
    exact hb.filed hk p.id e (hin.subset he)
  · intro b hk
    exact (hb.pending b hk).lies

end EventJournal
