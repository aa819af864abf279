import EventJournal.Proofs.Crowd.Accord
import EventJournal.Proofs.Crowd.Composition
import EventJournal.Proofs.Crowd.Pact

/-!
Safety of one kind of jobs, lifted to a composition of two kinds. An accord is a rely-guarantee specification. If the
jobs on the part `b` of a state `a × b` are safe under an accord, they are so beside jobs on the whole state too
(`Accord.safe_host`), as long as these keep to the accord themselves. A pact is the accord that relies on an invariant
and on a job's own notes alone (`Accord.ofPact`).
-/
namespace EventJournal

open History

variable {a b ν μ κ l τ : Type}

namespace Accord

section Pact

variable {σ τ' : Type} {p : Pact σ ν κ τ} {outside : τ' → σ → σ}

/-- A pact is an accord of jobs that rely on their own notes only. Other things may happen from outside. -/
def ofPact (p : Pact σ ν κ τ) (outside : τ' → σ → σ) : Accord σ ν κ τ' where
  call := p.call
  again := p.again
  watch := p.watch
  outside := outside
  known _ _ := True
  inv := p.inv
  rely i _ h _ h' := own i h' = own i h
  ended i r _ h := p.ended (own i h) r

theorem safe_ofPact {i : Nat} {post : κ → σ → List (Nat × ν) → Prop} {t : Told σ ν κ} {s : σ}
    {h : List (Nat × ν)} (ht : p.Safe i post t s h) : (ofPact p outside).Safe i post t s h := by
  induction t generalizing s h with
  | done r => exact ht
  | note n rest ih => exact ih ht
  | act ready effect next ih =>
    obtain ⟨hi, hn⟩ := ht
    refine fun _ => ⟨hi, ?_⟩
    intro s' h' _ hi' ho hr
    exact ⟨fun _ _ => rfl, ih s' (hn s' h' hi' ho hr)⟩

theorem final_ofPact {i : Nat} {t : Told σ ν κ} {s : σ} {h : List (Nat × ν)}
    (ht : p.Safe i (p.Final i) t s h) :
    (ofPact p outside).Safe i ((ofPact p outside).Final i) t s h :=
  (safe_ofPact ht).mono fun _ _ _ ⟨hi, he⟩ => ⟨fun _ => hi, he⟩

theorem lawful_ofPact (hp : p.Lawful) (houtside : ∀ t s h, p.inv s h → p.inv (outside t s) h) :
    (ofPact p outside).Lawful where
  refl _ _ _ := rfl
  trans _ _ _ _ _ _ _ ho ho' := ho'.trans ho
  note i j n s h hj := by
    have hnone : own i [(j, n)] = [] := own_told_other (Ne.symm hj) [n]
    simp only [ofPact, own_append, hnone, List.append_nil]
  stable i r s h s' h' he ho := by
    simp only [ofPact] at he ho ⊢
    rwa [ho]
  outside t s h hi := ⟨houtside t s h hi, fun _ => rfl⟩
  call s h t s' _ hi hc := ⟨fun _ => rfl, fun i hn => final_ofPact (hp.call s h t s' hi hc i hn)⟩
  again r t hr i s h _ hi he := final_ofPact (hp.again r t hr i s h hi he)

end Pact

variable {p : Accord b μ l τ} {look : a → a → List ν} {extra : List (Nat × (ν ⊕ μ)) → Prop}

/-- The accord of a house is that of the hosts. There may be an extra that is true of what was told. -/
def house (p : Accord b μ l τ) (look : a → a → List ν) (extra : List (Nat × (ν ⊕ μ)) → Prop) :
    Accord (a × b) (ν ⊕ μ) (κ ⊕ l) τ where
  toRules := .house look p.toRules
  known s h := p.known s.2 (rights h)
  inv s h := p.inv s.2 (rights h) ∧ extra h
  rely i s h s' h' := p.rely i s.2 (rights h) s'.2 (rights h')
  ended i r s h := ∀ r', r = .inr r' → p.ended i r' s.2 (rights h)

section House

variable (hlook : ∀ x, look x x = [])
  (hextra : ∀ i h (ns : List μ), extra h → extra (h ++ told i (ns.map .inr)))
include hlook hextra

/-- Hosts mind no more than their own accord. -/
theorem safe_host {i : Nat} {post : l → b → List (Nat × μ) → Prop} {t : Told b μ l} {s : a × b}
    {h : List (Nat × (ν ⊕ μ))} (hx : extra h) (ht : p.Safe i post t s.2 (rights h)) :
    (p.house look extra : Accord (a × b) (ν ⊕ μ) (κ ⊕ l) τ).Safe i
      (fun (r : κ ⊕ l) s h => extra h ∧ ∃ r', r = .inr r' ∧ post r' s.2 (rights h)) t.host s h := by
  induction t generalizing s h with
  | done r => exact ⟨hx, r, rfl, ht⟩
  | note n rest ih =>
    have hrights : rights (h ++ told i [.inr n]) = rights h ++ [(i, n)] := by
      rw [rights_append]
      exact congrArg _ (rights_told_inr [n])
    exact ih (hextra i h [n] hx) (hrights ▸ ht)
  | act ready effect next ih =>
    intro hk
    obtain ⟨hi, hn⟩ := ht hk
    refine ⟨⟨hi, hx⟩, ?_⟩
    intro s' h' hk' hi' hr hready
    obtain ⟨hothers, hnext⟩ := hn s'.2 (rights h') hk' hi'.1 hr hready
    refine ⟨hothers, ?_⟩
    simp only [house, Rules.house, hlook, List.map_nil, List.nil_append]
    apply ih s'.2 (hextra i h' _ hi'.2)
    rw [rights_append, rights_told_inr]
    exact hnext

theorem final_host {i : Nat} {t : Told b μ l} {s : a × b} {h : List (Nat × (ν ⊕ μ))} (hx : extra h)
    (ht : p.Safe i (p.Final i) t s.2 (rights h)) :
    let q : Accord (a × b) (ν ⊕ μ) (κ ⊕ l) τ := p.house look extra
    q.Safe i (q.Final i) t.host s h := by
  intro q
  refine (safe_host hlook hextra hx ht).mono ?_
  rintro _ s' h' ⟨hx', r, rfl, hi, he⟩
  refine ⟨fun hk => ⟨hi hk, hx'⟩, ?_⟩
  rintro _ ⟨⟩
  exact he

theorem Lawful.house (hp : p.Lawful) :
    (p.house look extra : Accord (a × b) (ν ⊕ μ) (κ ⊕ l) τ).Lawful where
  refl i s h := hp.refl i s.2 (rights h)
  trans i s h s' h' s'' h'' := hp.trans i s.2 (rights h) s'.2 (rights h') s''.2 (rights h'')
  note i j n s h hj := by
    simp only [Accord.house, rights_append]
    cases n with
    | inl n => exact hp.notes hj s.2 (rights h) []
    | inr n => exact hp.note i j n s.2 (rights h) hj
  stable i r s h s' h' he hr r' hr' := hp.stable i r' s.2 _ s'.2 _ (he r' hr') hr
  outside t s h hi := by
    obtain ⟨hi', hr⟩ := hp.outside t s.2 (rights h) hi.1
    exact ⟨⟨hi', hi.2⟩, hr⟩
  call s h t s' hk hi hc := by
    obtain ⟨⟨u, y⟩, hu, he⟩ := Option.map_eq_some_iff.mp hc
    cases he
    obtain ⟨hr, ht⟩ := hp.call s.2 (rights h) u y hk hi.1 hu
    refine ⟨hr, fun i hn => final_host hlook hextra hi.2 (ht i ?_)⟩
    rw [own_rights, hn]
    rfl
  again r t hr i s h hk hi he := by
    cases r with
    | inl r => cases hr
    | inr r =>
      obtain ⟨u, hu, rfl⟩ := Option.map_eq_some_iff.mp hr
      exact final_host hlook hextra hi.2 (hp.again r u hu i s.2 (rights h) hk hi.1 (he r rfl))

end House

end Accord

end EventJournal
