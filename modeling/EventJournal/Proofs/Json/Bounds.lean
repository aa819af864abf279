import EventJournal.Proofs.Json.Rereading

/-!
Values whose numbers keep to the limits of their shapes. Only such values are read out of JSON, and those without
a point in time are read back as they were written.
-/
namespace EventJournal

open Json

def AllOf {α : Type} (P : α → Prop) (as : List α) : Prop :=
  ∀ a ∈ as, P a

mutual
/-- All numbers in the value keep to their limits. -/
def Shape.Bounded : (shape : Shape) → shape.Val → Prop
  | .nat limit _, n => Nat.le n limit
  | .int, z => (long z).isSome
  | .option _, none => True
  | .option inner, some v => inner.Bounded v
  | .list item, vs => AllOf item.Bounded vs
  | .record _ _ fields, v => fields.Bounded v
  | _, _ => True

def Fields.Bounded : (fields : Fields) → fields.Val → Prop
  | .nil, () => True
  | .cons _ shape _ rest, (v, vs) => shape.Bounded v ∧ rest.Bounded vs
end

/-- So do the values of the fields that have been read. -/
def Fields.BoundedSoFar : (fields : Fields) → fields.Slots → Prop
  | .nil, () => True
  | .cons _ shape _ rest, (v, vs) => (∀ w, v = some w → shape.Bounded w) ∧ rest.BoundedSoFar vs

theorem Fields.boundedSoFar_empty : (fields : Fields) → fields.BoundedSoFar fields.empty
  | .nil => trivial
  | .cons _ _ _ rest => And.intro nofun rest.boundedSoFar_empty

section Reading

variable {ε α β : Type}

theorem foldlM_keeps {P : β → Prop} {f : β → α → Except ε β} {as : List α} (hf : ∀ b a c, P b → f b a = .ok c → P c)
    {b c : β} (hb : P b) (h : as.foldlM f b = .ok c) : P c := by
  induction as generalizing b with
  | nil =>
    cases h
    exact hb
  | cons a as ih =>
    rw [List.foldlM_cons] at h
    cases ha : f b a with
    | error e =>
      rw [ha] at h
      cases h
    | ok d =>
      rw [ha] at h
      exact ih (hf b a d hb ha) h

theorem allOf_of_mapM {P : β → Prop} {f : α → Except ε β} (hf : ∀ a b, f a = .ok b → P b) {as : List α} {bs : List β}
    (h : as.mapM f = .ok bs) : AllOf P bs := by
  induction as generalizing bs with
  | nil =>
    cases h
    exact nofun
  | cons a as ih =>
    rw [List.mapM_cons] at h
    cases ha : f a with
    | error e =>
      rw [ha] at h
      cases h
    | ok b =>
      cases has : as.mapM f with
      | error e =>
        rw [ha, has] at h
        cases h
      | ok cs =>
        rw [ha, has] at h
        cases h
        intro c hc
        rcases List.mem_cons.mp hc with rfl | hc
        · exact hf a c ha
        · exact ih has c hc

theorem bind_eq_ok {x : Except ε α} {f : α → Except ε β} {b : β} (h : (x >>= f) = .ok b) :
    ∃ a, x = .ok a ∧ f a = .ok b := by
  cases x with
  | error e => cases h
  | ok a => exact ⟨a, rfl, h⟩

theorem map_eq_ok {x : Except ε α} {f : α → β} {b : β} (h : x.map f = .ok b) : ∃ a, x = .ok a ∧ f a = b := by
  cases x with
  | error e => cases h
  | ok a =>
    cases h
    exact ⟨a, rfl, rfl⟩

end Reading

section Parts

variable {inner item : Shape} {fields : Fields} {name : String} {lenient : Bool} {j : Json}

theorem le_of_ofJson_nat {limit n : Nat} {width : String} (h : (Shape.nat limit width).ofJson j = .ok n) :
    Nat.le n limit := by
  cases j with
  | int z =>
    have h : (if 0 ≤ z ∧ z.toNat ≤ limit then .ok z.toNat else .error (.outOfRange z width)) =
        (.ok n : Except Reason Nat) := h
    split at h
    next hz =>
      cases h
      exact hz.2
    · cases h
  | _ => cases h

theorem long_of_ofJson_int {z : Int} (h : Shape.int.ofJson j = .ok z) : (long z).isSome := by
  cases j with
  | int y =>
    have h : (if -Int.pow 2 63 ≤ y ∧ y < Int.pow 2 63 then .ok y else .error (.outOfRange y "i64")) =
        (.ok z : Except Reason Int) := h
    split at h
    next hz =>
      cases h
      rw [long, if_pos hz]
      rfl
    · cases h
  | _ => cases h

theorem ofJson_of_option {v : inner.Val} (h : (Shape.option inner).ofJson j = .ok (some v)) :
    inner.ofJson j = .ok v := by
  have hmap : (inner.ofJson j).map some = .ok (some v) → inner.ofJson j = .ok v := by
    intro h
    obtain ⟨w, hw, he⟩ := map_eq_ok h
    cases he
    exact hw
  cases j with
  | null => cases h
  | _ => exact hmap h

theorem mapM_of_ofJson_list {vs : List item.Val} (h : (Shape.list item).ofJson j = .ok vs) :
    ∃ js : List Json, js.mapM item.ofJson = .ok vs := by
  cases j with
  | list js => exact ⟨js, h⟩
  | _ => cases h

/-- A record is read from the fields of an object or from the items of a list. -/
theorem read_of_ofJson_record {v : fields.Val} (h : (Shape.record name lenient fields).ofJson j = .ok v) :
    (∃ (members : List (String × Json)) (slots : fields.Slots),
      members.foldlM (fun read (n, v) => fields.putJson n v read) fields.empty = .ok slots ∧
        fields.close slots = .ok v) ∨
    ∃ js, fields.ofItems name lenient fields.count 0 js = .ok v := by
  cases j with
  | object members =>
    obtain ⟨slots, hfold, hclose⟩ := bind_eq_ok h
    exact .inl ⟨members, slots, hfold, hclose⟩
  | list js =>
    obtain ⟨w, hw, h⟩ := bind_eq_ok h
    split at h
    · cases h
    · cases h
      exact .inr ⟨js, hw⟩
  | _ => cases h

variable {absent : Option Json} {others : Fields} {name' : String} {total done : Nat}

/-- The field is put, or one of the others. -/
theorem Fields.putJson_cases {n : String} {v : Option item.Val} {slots : others.Slots}
    {slots' : Option item.Val × others.Slots}
    (h : Fields.putJson n j (.cons name item absent others) (v, slots) = .ok slots') :
    (∃ w, item.ofJson j = .ok w ∧ slots' = (some w, slots)) ∨
      ∃ ws, Fields.putJson n j others slots = .ok ws ∧ slots' = (v, ws) := by
  have h : (if name = n then do return (some (← item.ofJson j), slots)
      else do return (v, ← Fields.putJson n j others slots)) =
        (.ok slots' : Except Reason (Option item.Val × others.Slots)) := h
  split at h
  · obtain ⟨w, hw, h⟩ := bind_eq_ok h
    cases h
    exact .inl ⟨w, hw, rfl⟩
  · obtain ⟨ws, hws, h⟩ := bind_eq_ok h
    cases h
    exact .inr ⟨ws, hws, rfl⟩

/-- Each field is read from an item, or stands in for one that is left out. -/
theorem Fields.ofItems_cases {js : List Json} {v : item.Val × others.Val}
    (h : Fields.ofItems name' lenient total done (.cons name item absent others) js = .ok v) :
    (∃ j, item.ofJson j = .ok v.1) ∧
      ∃ js, Fields.ofItems name' lenient total (done + 1) others js = .ok v.2 := by
  have hread : ∀ (read : Except Reason item.Val) (rest : Except Reason others.Val),
      (do return (← read, ← rest)) = .ok v → read = .ok v.1 ∧ rest = .ok v.2 := by
    intro read rest h
    obtain ⟨w, hw, h⟩ := bind_eq_ok h
    obtain ⟨ws, hws, h⟩ := bind_eq_ok h
    cases h
    exact ⟨hw, hws⟩
  cases js with
  | cons j js =>
    obtain ⟨h, h'⟩ := hread (item.ofJson j) (Fields.ofItems name' lenient total (done + 1) others js) h
    exact ⟨⟨j, h⟩, js, h'⟩
  | nil =>
    cases lenient with
    | false => cases h
    | true =>
      cases absent with
      | none => cases h
      | some j =>
        obtain ⟨h, h'⟩ := hread (item.ofJson j) (Fields.ofItems name' true total (done + 1) others []) h
        exact ⟨⟨j, h⟩, [], h'⟩

theorem Fields.close_cases {slot : Option item.Val} {slots : others.Slots} {v : item.Val × others.Val}
    (h : Fields.close (.cons name item absent others) (slot, slots) = .ok v) :
    (slot = some v.1 ∨ ∃ j, item.ofJson j = .ok v.1) ∧ others.close slots = .ok v.2 := by
  have hread : ∀ read : Except Reason item.Val, (do return (← read, ← others.close slots)) = .ok v →
      read = .ok v.1 ∧ others.close slots = .ok v.2 := by
    intro read h
    obtain ⟨w, hw, h⟩ := bind_eq_ok h
    obtain ⟨ws, hws, h⟩ := bind_eq_ok h
    cases h
    exact ⟨hw, hws⟩
  cases slot with
  | some u =>
    obtain ⟨hu, h⟩ := hread (.ok u) h
    exact ⟨.inl (congrArg some (Except.ok.inj hu)), h⟩
  | none =>
    cases absent with
    | some j =>
      obtain ⟨hj, h⟩ := hread (item.ofJson j) h
      exact ⟨.inr ⟨j, hj⟩, h⟩
    | none => cases h

end Parts

mutual
/-- What is read keeps to its limits. -/
theorem Shape.bounded_of_ofJson : (shape : Shape) → ∀ {j : Json} {v : shape.Val}, shape.ofJson j = .ok v →
    shape.Bounded v
  | .bool, _, _, _ | .text, _, _, _ | .uuid, _, _, _ | .time, _, _, _ | .json, _, _, _ | .choice _, _, _, _ => trivial
  | .nat _ _, _, _, h => le_of_ofJson_nat h
  | .int, _, _, h => long_of_ofJson_int h
  | .option _, _, none, _ => trivial
  | .option inner, _, some _, h => Shape.bounded_of_ofJson inner (ofJson_of_option h)
  | .list item, _, _, h =>
    have ⟨_, hjs⟩ := mapM_of_ofJson_list h
    allOf_of_mapM (fun _ _ h => Shape.bounded_of_ofJson item h) hjs
  | .record _ _ fields, _, _, h =>
    match read_of_ofJson_record h with
    | .inl ⟨_, _, hfold, hclose⟩ =>
      Fields.bounded_of_close fields
        (foldlM_keeps (fun _ _ _ hs h => Fields.boundedSoFar_putJson fields hs h) fields.boundedSoFar_empty hfold)
        hclose
    | .inr ⟨_, hitems⟩ => Fields.bounded_of_ofItems fields hitems

theorem Fields.boundedSoFar_putJson : (fields : Fields) → ∀ {n : String} {j : Json} {slots slots' : fields.Slots},
    fields.BoundedSoFar slots → Fields.putJson n j fields slots = .ok slots' → fields.BoundedSoFar slots'
  | .nil, _, _, _, _, _, _ => trivial
  | .cons _ shape _ rest, _, _, (_, _), _, hs, h =>
    match Fields.putJson_cases h with
    | .inl ⟨w, hw, he⟩ => by
      cases he
      refine And.intro ?_ hs.2
      rintro u ⟨⟩
      exact Shape.bounded_of_ofJson shape hw
    | .inr ⟨ws, hws, he⟩ => by
      cases he
      exact And.intro hs.1 (Fields.boundedSoFar_putJson rest hs.2 hws)

theorem Fields.bounded_of_ofItems : (fields : Fields) → ∀ {name : String} {lenient : Bool} {total done : Nat}
    {js : List Json} {v : fields.Val}, Fields.ofItems name lenient total done fields js = .ok v → fields.Bounded v
  | .nil, _, _, _, _, _, _, _ => trivial
  | .cons _ shape _ rest, _, _, _, _, _, _, h =>
    have ⟨⟨_, hv⟩, _, hvs⟩ := Fields.ofItems_cases h
    And.intro (Shape.bounded_of_ofJson shape hv) (Fields.bounded_of_ofItems rest hvs)

theorem Fields.bounded_of_close : (fields : Fields) → ∀ {slots : fields.Slots} {v : fields.Val},
    fields.BoundedSoFar slots → fields.close slots = .ok v → fields.Bounded v
  | .nil, _, _, _, _ => trivial
  | .cons _ shape _ rest, (_, _), _, hs, h =>
    match Fields.close_cases h with
    | ⟨.inl he, hvs⟩ => And.intro (hs.1 _ he) (Fields.bounded_of_close rest hs.2 hvs)
    | ⟨.inr ⟨_, hv⟩, hvs⟩ => And.intro (Shape.bounded_of_ofJson shape hv) (Fields.bounded_of_close rest hs.2 hvs)
end

mutual
/-- How deep the brackets of written values may nest. -/
def Shape.height : Shape → Nat
  | .option inner => inner.height
  | .list item => item.height + 1
  | .record _ _ fields => fields.height + 1
  | _ => 0

def Fields.height : Fields → Nat
  | .nil => 0
  | .cons _ shape _ rest => max shape.height rest.height
end

theorem mapM_eq_some {α : Type} {f : α → Option α} {as : List α} (h : ∀ a ∈ as, f a = some a) :
    as.mapM f = some as := by
  induction as with
  | nil => rfl
  | cons a as ih =>
    rw [List.mapM_cons, h a List.mem_cons_self, ih fun b hb => h b (List.mem_cons_of_mem a hb)]
    rfl

mutual
/-- Bounded values without a point in time in them are read back. -/
theorem Shape.reread_of_bounded : (shape : Shape) → shape.timeless → ∀ {depth : Nat} {v : shape.Val},
    shape.height ≤ depth → shape.Bounded v → shape.reread depth v = some v
  | .bool, _, _, _, _, _ | .text, _, _, _, _, _ | .uuid, _, _, _, _, _ | .choice _, _, _, _, _, _ => rfl
  | .nat limit _, _, _, v, _, hb => if_pos ⟨Int.natCast_nonneg v, hb⟩
  | .int, _, _, v, _, hb => by
    obtain ⟨z, hz⟩ := Option.isSome_iff_exists.mp hb
    exact hz.trans (congrArg some (eq_of_long hz))
  | .time, ht, _, _, _, _ => absurd ht Bool.false_ne_true
  | .json, ht, _, _, _, _ => absurd ht Bool.false_ne_true
  | .option _, _, _, none, _, _ => rfl
  | .option inner, ht, _, some _, hd, hb => congrArg (Option.map some) (Shape.reread_of_bounded inner ht hd hb)
  | .list item, ht, _ + 1, _, hd, hb =>
    mapM_eq_some fun _ hv => Shape.reread_of_bounded item ht (Nat.le_of_succ_le_succ hd) (hb _ hv)
  | .record _ _ fields, ht, _ + 1, _, hd, hb =>
    Fields.reread_of_bounded fields ht (Nat.le_of_succ_le_succ hd) hb

theorem Fields.reread_of_bounded : (fields : Fields) → fields.timeless → ∀ {depth : Nat} {v : fields.Val},
    fields.height ≤ depth → fields.Bounded v → fields.reread depth v = some v
  | .nil, _, _, _, _, _ => rfl
  | .cons _ shape _ rest, ht, depth, (v, vs), hd, hb => by
    rw [Fields.timeless, Bool.and_eq_true] at ht
    have hv := Shape.reread_of_bounded shape ht.1 (Nat.le_trans (Nat.le_max_left _ _) hd) hb.1
    have hvs := Fields.reread_of_bounded rest ht.2 (Nat.le_trans (Nat.le_max_right _ _) hd) hb.2
    rw [Fields.reread, hv, hvs]
    rfl
end

end EventJournal
