import EventJournal.Proofs.Crowd.Run

/-!
Composition of two kinds of jobs on one state `a × b`. Jobs of the first kind, here called guests, use the whole state;
jobs of the second kind, the hosts, use the part `b` only. `Rules.house` are the rules of both together, and a history
of both falls apart into what the ones and the others told (`lefts`, `rights`). As the hosts leave `a` alone, a run of
both is, as to the guests, a run of the guests alone in which `b` may change from outside: `Mirrors` ties the one run to
the other, and `Mirrors.run` finds the run of the guests.
-/
namespace EventJournal

variable {a b ν μ κ l τ : Type}

namespace History

/-- What was told of one kind. -/
def only (f : ν → Option μ) (history : List (Nat × ν)) : List (Nat × μ) :=
  history.filterMap fun n => (f n.2).map (n.1, ·)

section Only

variable {f : ν → Option μ} {i : Nat} {h k : List (Nat × ν)}

theorem only_append : only f (h ++ k) = only f h ++ only f k :=
  List.filterMap_append ..

theorem only_told (ns : List ν) : only f (told i ns) = told i (ns.filterMap f) := by
  rw [only, told, told, List.filterMap_map, List.map_filterMap]
  rfl

theorem mem_only {m : μ} : (i, m) ∈ only f h ↔ ∃ n, (i, n) ∈ h ∧ f n = some m := by
  simp only [only, List.mem_filterMap, Option.map_eq_some_iff]
  constructor
  · rintro ⟨⟨j, n⟩, hn, _, hm, he⟩
    cases he
    exact ⟨n, hn, hm⟩
  · rintro ⟨n, hn, hm⟩
    exact ⟨(i, n), hn, m, hm, rfl⟩

theorem own_only (i : Nat) (h : List (Nat × ν)) : own i (only f h) = (own i h).filterMap f := by
  induction h with
  | nil => rfl
  | cons n rest ih =>
    obtain ⟨j, n⟩ := n
    rw [show (j, n) :: rest = told j [n] ++ rest from rfl, only_append, only_told, own_append, own_append, ih,
      List.filterMap_append]
    refine congrArg (· ++ _) ?_
    by_cases hj : i = j
    · rw [hj, own_told, own_told]
    · rw [own_told_other hj, own_told_other hj]
      rfl

end Only

/-- What the guests have told. -/
def lefts (history : List (Nat × (ν ⊕ μ))) : List (Nat × ν) :=
  only Sum.getLeft? history

/-- What the hosts have told. -/
def rights (history : List (Nat × (ν ⊕ μ))) : List (Nat × μ) :=
  only Sum.getRight? history

variable {i : Nat} {h k : List (Nat × (ν ⊕ μ))}

@[simp] theorem lefts_append : lefts (h ++ k) = lefts h ++ lefts k :=
  only_append

@[simp] theorem rights_append : rights (h ++ k) = rights h ++ rights k :=
  only_append

theorem told_append (i : Nat) (ns ms : List ν) : told i (ns ++ ms) = told i ns ++ told i ms :=
  List.map_append

@[simp] theorem lefts_told_inl (ns : List ν) : lefts (told i (ns.map (.inl : ν → ν ⊕ μ))) = told i ns := by
  simp [lefts, only_told, List.filterMap_map, Function.comp_def]

@[simp] theorem lefts_told_inr (ns : List μ) : lefts (told i (ns.map (.inr : μ → ν ⊕ μ))) = [] := by
  rw [lefts, only_told, List.filterMap_eq_nil_iff.mpr (by simp)]
  rfl

@[simp] theorem rights_told_inl (ns : List ν) : rights (told i (ns.map (.inl : ν → ν ⊕ μ))) = [] := by
  rw [rights, only_told, List.filterMap_eq_nil_iff.mpr (by simp)]
  rfl

@[simp] theorem rights_told_inr (ns : List μ) : rights (told i (ns.map (.inr : μ → ν ⊕ μ))) = told i ns := by
  simp [rights, only_told, List.filterMap_map, Function.comp_def]

theorem mem_lefts {n : ν} : (i, n) ∈ lefts h ↔ (i, .inl n) ∈ h := by
  simp [lefts, mem_only, Sum.getLeft?_eq_some_iff]

theorem mem_rights {n : μ} : (i, n) ∈ rights h ↔ (i, .inr n) ∈ h := by
  simp [rights, mem_only, Sum.getRight?_eq_some_iff]

theorem own_lefts (i : Nat) (h : List (Nat × (ν ⊕ μ))) :
    own i (lefts h) = (own i h).filterMap Sum.getLeft? :=
  own_only i h

theorem own_rights (i : Nat) (h : List (Nat × (ν ⊕ μ))) :
    own i (rights h) = (own i h).filterMap Sum.getRight? :=
  own_only i h

end History

open History

namespace Told

/-- What a guest does in a house. -/
def guest {σ : Type} : Told σ ν κ → Told σ (ν ⊕ μ) (κ ⊕ l)
  | done r => done (.inl r)
  | act ready effect next => act ready effect fun s => (next s).guest
  | note n rest => note (.inl n) rest.guest

/-- What a host does in a house. -/
def host : Told b μ l → Told (a × b) (ν ⊕ μ) (κ ⊕ l)
  | done r => done (.inr r)
  | act ready effect next =>
    act (fun s => ready s.2) (fun s => (s.1, effect s.2)) fun s => (next s.2).host
  | note n rest => note (.inr n) rest.host

@[simp] theorem heard_guest {σ : Type} (t : Told σ ν κ) :
    (t.guest : Told σ (ν ⊕ μ) (κ ⊕ l)).heard = t.heard.map .inl := by
  induction t with
  | done r => rfl
  | act ready effect next => rfl
  | note n rest ih => exact congrArg (.inl n :: ·) ih

@[simp] theorem rest_guest {σ : Type} (t : Told σ ν κ) :
    (t.guest : Told σ (ν ⊕ μ) (κ ⊕ l)).rest = t.rest.guest := by
  induction t with
  | done r => rfl
  | act ready effect next => rfl
  | note n rest ih => exact ih

@[simp] theorem heard_host (t : Told b μ l) :
    (t.host : Told (a × b) (ν ⊕ μ) (κ ⊕ l)).heard = t.heard.map .inr := by
  induction t with
  | done r => rfl
  | act ready effect next => rfl
  | note n rest ih => exact congrArg (.inr n :: ·) ih

@[simp] theorem rest_host (t : Told b μ l) :
    (t.host : Told (a × b) (ν ⊕ μ) (κ ⊕ l)).rest = t.rest.host := by
  induction t with
  | done r => rfl
  | act ready effect next => rfl
  | note n rest ih => exact ih

end Told

namespace Rules

/-- The guests by themselves. They do not call for others, and tell only of their own state by looking on. -/
def guests (look : a → a → List ν) : Rules (a × b) ν κ (b → b) where
  call _ := none
  again _ := none
  watch s t := look s.1 t.1
  outside f s := (s.1, f s.2)

/-- The hosts with their guests. -/
def house (look : a → a → List ν) (hosts : Rules b μ l τ) : Rules (a × b) (ν ⊕ μ) (κ ⊕ l) τ where
  call s := (hosts.call s.2).map fun (t, y) => (t.host, (s.1, y))
  again
    | .inl _ => none
    | .inr r => (hosts.again r).map Told.host
  watch s t := (look s.1 t.1).map .inl ++ (hosts.watch s.2 t.2).map .inr
  outside f s := (s.1, hosts.outside f s.2)

end Rules

namespace Crowd

/-- The guests of a house as a crowd of their own. -/
structure Mirrors (c : Crowd (a × b) (ν ⊕ μ) (κ ⊕ l)) (g : Crowd (a × b) ν κ) : Prop where
  state : g.state = c.state
  history : g.history = lefts c.history
  guests : ∀ (i : Nat) (t : Told (a × b) ν κ), g.jobs[i]? = some t → c.jobs[i]? = some t.guest
  hosts : ∀ (i : Nat) u, g.jobs.length ≤ i → c.jobs[i]? = some u → ∃ t : Told b μ l, u = t.host

namespace Mirrors

variable {c : Crowd (a × b) (ν ⊕ μ) (κ ⊕ l)} {g : Crowd (a × b) ν κ} (m : Mirrors c g)
include m

theorem length_le : g.jobs.length ≤ c.jobs.length := by
  cases hg : g.jobs.length with
  | zero => exact Nat.zero_le _
  | succ n =>
    have hlast : g.jobs[n]? = some g.jobs[n] := List.getElem?_eq_getElem (by omega)
    obtain ⟨hlt, -⟩ := List.getElem?_eq_some_iff.mp (m.guests n _ hlast)
    omega

/-- A guest goes on in both. -/
theorem proceed {i : Nat} (hi : i < g.jobs.length) (t : Told (a × b) ν κ) :
    Mirrors (c.proceed i t.guest) (g.proceed i t) where
  state := m.state
  history := by simp [Crowd.proceed, m.history]
  guests j u hj := by
    have hle := m.length_le
    simp only [Crowd.proceed] at hj ⊢
    by_cases he : j = i
    · subst he
      rw [List.getElem?_set_self hi] at hj
      cases hj
      rw [List.getElem?_set_self (by omega), Told.rest_guest]
    · rw [List.getElem?_set_ne (Ne.symm he)] at hj ⊢
      exact m.guests j u hj
  hosts j u hle hj := by
    simp only [Crowd.proceed, List.length_set] at hle hj
    rw [List.getElem?_set_ne (by omega)] at hj
    exact m.hosts j u hle hj

/-- A host goes on. -/
theorem proceed_host {i : Nat} (hi : g.jobs.length ≤ i) (t : Told b μ l) :
    Mirrors (c.proceed i t.host) g where
  state := m.state
  history := by simp [Crowd.proceed, m.history]
  guests j u hj := by
    have hlt : j < g.jobs.length := (List.getElem?_eq_some_iff.mp hj).1
    simp only [Crowd.proceed]
    rw [List.getElem?_set_ne (by omega)]
    exact m.guests j u hj
  hosts j u hle hj := by
    simp only [Crowd.proceed] at hj
    by_cases he : j = i
    · subst he
      obtain ⟨hlt, -⟩ := List.getElem?_eq_some_iff.mp hj
      rw [List.length_set] at hlt
      rw [List.getElem?_set_self hlt, Told.rest_host] at hj
      exact ⟨t.rest, (Option.some.inj hj).symm⟩
    · rw [List.getElem?_set_ne (Ne.symm he)] at hj
      exact m.hosts j u hle hj

/-- Another host joins. -/
theorem join_host (t : Told b μ l) : Mirrors (c.join t.host) g where
  state := m.state
  history := by simp [Crowd.join, m.history]
  guests j u hj := by
    have hc := m.guests j u hj
    simp only [Crowd.join]
    rwa [List.getElem?_append_left (List.getElem?_eq_some_iff.mp hc).1]
  hosts j u hle hj := by
    simp only [Crowd.join] at hj
    by_cases hlt : j < c.jobs.length
    · rw [List.getElem?_append_left hlt] at hj
      exact m.hosts j u hle hj
    · rw [List.getElem?_append_right (by omega), List.getElem?_singleton] at hj
      split at hj
      · rw [Told.rest_host] at hj
        exact ⟨t.rest, (Option.some.inj hj).symm⟩
      · cases hj

/-- Before any host has joined, another guest joins in both. -/
theorem join (hl : g.jobs.length = c.jobs.length) (t : Told (a × b) ν κ) :
    Mirrors (c.join t.guest) (g.join t) where
  state := m.state
  history := by simp [Crowd.join, m.history, hl]
  guests j u hj := by
    simp only [Crowd.join] at hj ⊢
    by_cases hlt : j < g.jobs.length
    · rw [List.getElem?_append_left hlt] at hj
      rw [List.getElem?_append_left (by omega)]
      exact m.guests j u hj
    · rw [List.getElem?_append_right (by omega)] at hj
      rw [List.getElem?_append_right (by omega), ← hl, Told.rest_guest]
      rw [List.getElem?_singleton] at hj ⊢
      split at hj
      next h0 =>
        cases hj
        rw [if_pos h0]
      · cases hj
  hosts j u hle hj := by
    simp only [Crowd.join, List.length_append, List.length_singleton] at hle hj
    rw [List.getElem?_eq_none (by simp; omega)] at hj
    cases hj

/-- The state changes in both, of which something is told. -/
theorem see (s : a × b) (i : Nat) (ns : List ν) (ms : List μ) :
    Mirrors { c with state := s, history := c.history ++ told i (ns.map .inl ++ ms.map .inr) }
      { g with state := s, history := g.history ++ told i ns } where
  state := rfl
  history := by simp [told_append, m.history]
  guests := m.guests
  hosts := m.hosts

end Mirrors

section Run

variable {look : a → a → List ν} (hlook : ∀ x, look x x = []) {hosts : Rules b μ l τ}
  {c : Crowd (a × b) (ν ⊕ μ) (κ ⊕ l)} {g : Crowd (a × b) ν κ}
include hlook

/-- Whatever a house does is, to its guests, something that they could do or that could happen to them. -/
theorem Mirrors.step (m : Mirrors c g) (move : Move τ) :
    ∃ moves, Mirrors (c.step (.house look hosts) move) (g.run (.guests look) moves) := by
  have hsame : ∃ moves, Mirrors c (g.run (.guests look) moves) := ⟨[], m⟩
  -- a host may do anything with the state that is shared
  have hshared : ∀ y i (ms : List μ), ∃ moves, Mirrors { c with
      state := (c.state.1, y), history := c.history ++ told i (ms.map .inr) } (g.run (.guests look) moves) := by
    intro y i ms
    refine ⟨[.outside fun _ => y], ?_⟩
    have hsee := m.see (g.state.1, y) i [] ms
    rw [append_told_nil, m.state] at hsee
    rw [run_cons, run_nil, Crowd.step, Rules.guests, m.state]
    exact hsee
  have hquiet : ∀ y, ∃ moves, Mirrors { c with state := (c.state.1, y) } (g.run (.guests look) moves) := by
    intro y
    have h := hshared y 0 []
    rwa [List.map_nil, append_told_nil] at h
  cases move with
  | outside t => exact hquiet _
  | call =>
    simp only [Crowd.step, Rules.house]
    cases hosts.call c.state.2 with
    | none => exact hsame
    | some call =>
      obtain ⟨t, y⟩ := call
      obtain ⟨moves, m'⟩ := hquiet y
      exact ⟨moves, m'.join_host t⟩
  | job i =>
    simp only [Crowd.step]
    cases hu : c.jobs[i]? with
    | none => exact hsame
    | some u =>
      dsimp only
      by_cases hi : i < g.jobs.length
      · have hg : g.jobs[i]? = some g.jobs[i] := List.getElem?_eq_getElem hi
        have hc := m.guests i _ hg
        rw [hu] at hc
        cases hc
        refine ⟨[.job i], ?_⟩
        simp only [run_cons, run_nil, Crowd.step, hg]
        cases g.jobs[i] with
        | done r => exact m
        | note n rest => exact m.proceed hi (.note n rest)
        | act ready effect next =>
          simp only [Told.guest, turn, Rules.guests, Rules.house, m.state]
          split
          · have hseen := m.see (effect c.state) i (look c.state.1 (effect c.state).1)
              (hosts.watch c.state.2 (effect c.state).2)
            exact hseen.proceed hi (next c.state)
          · exact m
      · obtain ⟨t, rfl⟩ := m.hosts i u (Nat.le_of_not_lt hi) hu
        have hi' := Nat.le_of_not_lt hi
        cases t with
        | done r =>
          simp only [Told.host, turn, Rules.house]
          cases hosts.again r with
          | none => exact hsame
          | some t => exact ⟨[], m.proceed_host hi' t⟩
        | note n rest => exact ⟨[], m.proceed_host hi' (.note n rest)⟩
        | act ready effect next =>
          simp only [Told.host, turn, Rules.house]
          split
          · rw [hlook, List.map_nil, List.nil_append]
            obtain ⟨moves, m'⟩ := hshared (effect c.state.2) i (hosts.watch c.state.2 (effect c.state.2))
            have hi'' : (g.run (.guests look) moves).jobs.length ≤ i := by
              rwa [length_jobs_run fun _ => rfl]
            exact ⟨moves, m'.proceed_host hi'' (next c.state.2)⟩
          · exact hsame

theorem Mirrors.run (m : Mirrors c g) (moves : List (Move τ)) :
    ∃ moves', Mirrors (c.run (.house look hosts) moves) (g.run (.guests look) moves') := by
  induction moves generalizing c g with
  | nil => exact ⟨[], m⟩
  | cons move rest ih =>
    obtain ⟨first, m₁⟩ := m.step hlook move
    obtain ⟨later, m₂⟩ := ih m₁
    refine ⟨first ++ later, ?_⟩
    rw [run_append]
    exact m₂

end Run

/-- Guests and hosts gather, the guests first. -/
theorem mirrors_gather (state : a × b) (guests : List (Told (a × b) ν κ)) (hosts : List (Told b μ l)) :
    Mirrors (.gather state (guests.map Told.guest ++ hosts.map Told.host)) (.gather state guests) := by
  rw [gather, gather, List.foldl_append]
  have hguests : ∀ (c : Crowd (a × b) (ν ⊕ μ) (κ ⊕ l)) (g : Crowd (a × b) ν κ), Mirrors c g →
      g.jobs.length = c.jobs.length →
      Mirrors ((guests.map Told.guest).foldl join c) (guests.foldl join g) := by
    induction guests with
    | nil => exact fun _ _ m _ => m
    | cons t rest ih => exact fun c g m hl => ih _ _ (m.join hl t) (by simp [join, hl])
  have hhosts : ∀ (c : Crowd (a × b) (ν ⊕ μ) (κ ⊕ l)) (g : Crowd (a × b) ν κ), Mirrors c g →
      Mirrors ((hosts.map Told.host).foldl join c) g := by
    induction hosts with
    | nil => exact fun _ _ m => m
    | cons t rest ih => exact fun c g m => ih _ _ (m.join_host t)
  apply hhosts
  apply hguests
  · exact ⟨rfl, rfl, by simp, by simp⟩
  · rfl

end Crowd

end EventJournal
