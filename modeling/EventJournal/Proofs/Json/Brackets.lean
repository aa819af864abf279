import EventJournal.Proofs.Json.Tokens

/-!
Reading back written lists and objects. An item or a field is read from what was written of it, and the reading
goes on behind it; what the reading of a part leads to is left open.
-/
namespace EventJournal.Json

open Text (Symbol)

section Except

variable {ε α β : Type}

@[simp] theorem toOption_ok (a : α) : (.ok a : Except ε α).toOption = some a := rfl

@[simp] theorem toOption_error (e : ε) : (.error e : Except ε α).toOption = none := rfl

theorem toOption_eq_some_iff {x : Except ε α} {a : α} : x.toOption = some a ↔ x = .ok a := by
  cases x <;> simp

theorem toOption_bind (x : Except ε α) (f : α → Except ε β) :
    (x >>= f).toOption = x.toOption.bind fun a => (f a).toOption := by
  cases x <;> rfl

theorem toOption_map (f : α → β) (x : Except ε α) : (x.map f).toOption = x.toOption.map f := by
  cases x <;> rfl

theorem toOption_mapError {ε' : Type} (f : ε → ε') (x : Except ε α) : (x.mapError f).toOption = x.toOption := by
  cases x <;> rfl

end Except

section Printer

variable (layout : Layout) (level : Nat)

/-- The parts between two brackets, each behind a comma but the first, and the closing bracket. -/
def listed (close : Char) : Bool → List (List Char) → List Char
  | first, [] => (if first then [] else newline layout level) ++ [close]
  | first, p :: ps =>
    (if first then [] else [',']) ++ newline layout (level + 1) ++ p ++ listed close false ps

def fieldChars (f : String × Json) : List Char :=
  textChars f.1 ++ colon layout ++ write layout (level + 1) f.2

theorem writeItems_eq (js : List Json) :
    writeItems layout level js = listed layout level ']' false (js.map (write layout (level + 1))) := by
  induction js with
  | nil => simp [writeItems, listed]
  | cons j rest ih => simp [writeItems, listed, ih]

theorem writeFields_eq (fs : List (String × Json)) :
    writeFields layout level fs = listed layout level '}' false (fs.map (fieldChars layout level)) := by
  induction fs with
  | nil => simp [writeFields, listed]
  | cons f rest ih => simp [writeFields, listed, fieldChars, ih]

theorem write_list {α : Type} (f : α → Json) (vs : List α) : write layout level (.list (vs.map f)) =
    '[' :: listed layout level ']' true (vs.map fun v => write layout (level + 1) (f v)) := by
  cases vs with
  | nil => simp [write, listed]
  | cons v rest => simp [write, listed, writeItems_eq, Function.comp_def]

theorem write_object (fs : List (String × Json)) : write layout level (.object fs) =
    '{' :: listed layout level '}' true (fs.map (fieldChars layout level)) := by
  cases fs with
  | nil => simp [write, listed]
  | cons f rest => simp [write, listed, fieldChars, writeFields_eq]

end Printer

namespace Scan

variable {layout : Layout} {level : Nat} {rest s : List Symbol} {first : Bool}

/-- How a part may begin. -/
structure Opens (p : List Char) (c : Char) (cs : List Char) : Prop where
  eq : p = c :: cs
  not_space : isSpace (some c) = false
  not_end : c ≠ ']'

theorem Opens.skipSpaces_front {p : List Char} {c : Char} {cs : List Char} (h : Opens p c cs) (rest : List Symbol) :
    skipSpaces (front p rest) = front p rest := by
  rw [h.eq, front_cons]
  exact skipSpaces_of_not h.not_space _

section Listed

variable {close : Char} {p : List Char} {ps : List (List Char)} {c : Char} {cs : List Char}

theorem skipSpaces_listed_nil (hclose : isSpace (some close) = false) (first : Bool) (rest : List Symbol) :
    skipSpaces (front (listed layout level close first []) rest) = some close :: rest := by
  cases first with
  | true => exact skipSpaces_of_not hclose rest
  | false =>
    change skipSpaces (front (newline layout level ++ [close]) rest) = _
    rw [front_append, skipSpaces_newline]
    exact skipSpaces_of_not hclose rest

theorem skipSpaces_listed_first (hp : Opens p c cs) (ps : List (List Char)) (rest : List Symbol) :
    skipSpaces (front (listed layout level close true (p :: ps)) rest) =
      some c :: front cs (front (listed layout level close false ps) rest) := by
  rw [listed, if_pos rfl, List.nil_append, List.append_assoc, front_append, skipSpaces_newline, hp.eq]
  rw [front_append, front_cons, skipSpaces_of_not hp.not_space]

theorem skipSpaces_listed_next (hp : Opens p c cs) (ps : List (List Char)) (rest : List Symbol) :
    ∃ r, skipSpaces (front (listed layout level close false (p :: ps)) rest) = some ',' :: r ∧
      skipSpaces r = some c :: front cs (front (listed layout level close false ps) rest) := by
  refine ⟨front (listed layout level close true (p :: ps)) rest, ?_, skipSpaces_listed_first hp ps rest⟩
  simp only [listed, Bool.false_eq_true, if_false, if_true, List.nil_append, List.append_assoc,
    List.cons_append, front_cons]
  exact skipSpaces_of_not rfl _

/-- Behind a part, a comma or the end comes next. -/
theorem stops_listed (hclose : close = ']' ∨ close = '}') (ps : List (List Char)) (rest : List Symbol) :
    Stops (front (listed layout level close false ps) rest) := by
  intro x r he
  cases ps with
  | nil =>
    cases layout with
    | compact =>
      cases he
      rcases hclose with rfl | rfl
      · exact .inr (.inl rfl)
      · exact .inr (.inr (.inl rfl))
    | pretty =>
      cases he
      exact .inr (.inr (.inr rfl))
  | cons p ps =>
    simp only [listed, Bool.false_eq_true, if_false, List.cons_append, List.nil_append, front_cons] at he
    cases he
    exact .inl rfl

theorem length_lt_listed (hps : ∀ p ∈ ps, p ≠ []) (first : Bool) :
    ps.length < (listed layout level close first ps).length := by
  induction ps generalizing first with
  | nil => simp [listed]
  | cons p ps ih =>
    have hp := List.length_pos_iff.mpr (hps p List.mem_cons_self)
    have hrest := ih (fun q hq => hps q (List.mem_cons_of_mem p hq)) false
    simp only [listed, List.length_append, List.length_cons]
    omega

/-- There are more symbols than parts. -/
theorem length_lt_front_listed (hps : ∀ p ∈ ps, p ≠ []) :
    ps.length < (front (listed layout level close first ps) rest).length := by
  have hlength : ps.length < (listed layout level close first ps).length := length_lt_listed hps first
  simp only [front, List.length_append, List.length_map]
  omega

end Listed

section Steps

variable {p : List Char} {ps : List (List Char)} {c : Char} {cs : List Char}

theorem nextItem_nil (hs : skipSpaces s = skipSpaces (front (listed layout level ']' first []) rest)) :
    nextItem first s = .ok (false, some ']' :: rest) := by
  rw [skipSpaces_listed_nil rfl] at hs
  simp only [nextItem, hs]

/-- Before the next item. -/
theorem nextItem_cons (hp : Opens p c cs)
    (hs : skipSpaces s = skipSpaces (front (listed layout level ']' first (p :: ps)) rest)) :
    nextItem first s = .ok (true, front p (front (listed layout level ']' false ps) rest)) := by
  rw [hp.eq, front_cons]
  cases first with
  | true =>
    rw [skipSpaces_listed_first hp] at hs
    simp [nextItem, hs, hp.not_end]
  | false =>
    obtain ⟨r, hr, hskip⟩ := skipSpaces_listed_next hp ps rest
    rw [hr] at hs
    simp [nextItem, hs, hskip, hp.not_end]

theorem nextName_nil (hs : skipSpaces s = skipSpaces (front (listed layout level '}' first []) rest)) :
    nextName first s = .ok (false, some '}' :: rest) := by
  rw [skipSpaces_listed_nil rfl] at hs
  simp only [nextName, hs]

/-- Behind the opening quote of the next name. -/
theorem nextName_cons
    (hs : skipSpaces s = skipSpaces (front (listed layout level '}' first (('"' :: cs) :: ps)) rest)) :
    nextName first s = .ok (true, front cs (front (listed layout level '}' false ps) rest)) := by
  have hp : Opens ('"' :: cs) '"' cs := ⟨rfl, rfl, by decide⟩
  cases first with
  | true =>
    rw [skipSpaces_listed_first hp] at hs
    simp [nextName, hs]
  | false =>
    obtain ⟨r, hr, hskip⟩ := skipSpaces_listed_next hp ps rest
    rw [hr] at hs
    simp [nextName, hs, hskip]

end Steps

section Loops

variable {α β γ : Type} {fuel : Nat}

/-- A written list is read item by item. -/
theorem toOption_items {item : Scan α} {part : β → List Char} {g : β → Option α} {vs : List β}
    (hopens : ∀ v ∈ vs, ∃ c cs, Opens (part v) c cs)
    (hitem : ∀ v ∈ vs, ∀ r, Stops r → (item (front (part v) r)).toOption = (g v).map (·, r))
    (hf : vs.length < fuel)
    (hs : skipSpaces s = skipSpaces (front (listed layout level ']' first (vs.map part)) rest)) :
    (items item fuel first s).toOption = (vs.mapM g).map (·, some ']' :: rest) := by
  induction vs generalizing fuel first s with
  | nil =>
    cases fuel with
    | zero => cases hf
    | succ fuel =>
      simp only [items, nextItem_nil hs, bind, Except.bind]
      rfl
  | cons v vs ih =>
    cases fuel with
    | zero => cases hf
    | succ fuel =>
      obtain ⟨c, cs, hp⟩ := hopens v List.mem_cons_self
      have hstops : Stops (front (listed layout level ']' false (vs.map part)) rest) := stops_listed (.inl rfl) _ _
      have hrest : (items item fuel false (front (listed layout level ']' false (vs.map part)) rest)).toOption =
          (vs.mapM g).map (·, some ']' :: rest) :=
        ih (fun w hw => hopens w (List.mem_cons_of_mem v hw))
          (fun w hw => hitem w (List.mem_cons_of_mem v hw)) (Nat.lt_of_succ_lt_succ hf) rfl
      have hnext : items item (fuel + 1) first s =
          item (front (part v) (front (listed layout level ']' false (vs.map part)) rest)) >>= fun a =>
            items item fuel false a.2 >>= fun as => .ok (a.1 :: as.1, as.2) := by
        simp only [items, nextItem_cons hp hs]
        rfl
      rw [hnext, toOption_bind, hitem v List.mem_cons_self _ hstops, List.mapM_cons]
      cases g v with
      | none => rfl
      | some a =>
        simp only [Option.map_some, Option.bind_some, toOption_bind, hrest]
        cases vs.mapM g <;> rfl

theorem fields_nil (field : String → β → Scan β) (gathered : β)
    (hs : skipSpaces s = skipSpaces (front (listed layout level '}' first []) rest)) :
    fields field (fuel + 1) first gathered s = .ok (gathered, some '}' :: rest) := by
  simp only [fields, nextName_nil hs, bind, Except.bind]
  rfl

/-- A written field is read from its colon on, and then the ones behind it. -/
theorem fields_cons (field : String → β → Scan β) (gathered : β) {f : String × Json} {fs : List (String × Json)}
    (hs : skipSpaces s =
      skipSpaces (front (listed layout level '}' first ((f :: fs).map (fieldChars layout level))) rest)) :
    fields field (fuel + 1) first gathered s = (do
      let (gathered, r) ← field f.1 gathered (front (colon layout) (front (write layout (level + 1) f.2)
        (front (listed layout level '}' false (fs.map (fieldChars layout level))) rest)))
      fields field fuel false gathered r) := by
  have hpart : fieldChars layout level f = '"' :: (f.1.toList.flatMap escapedChar ++
      ('"' :: (colon layout ++ write layout (level + 1) f.2))) := by
    simp [fieldChars, textChars]
  rw [List.map_cons, hpart] at hs
  simp only [fields, nextName_cons hs, front_append, front_cons, text_escaped, bind, Except.bind]

end Loops

end Scan

end EventJournal.Json
