import EventJournal.Proofs.Json.Bounds

/-!
Reading back plain JSON values. A value without floats, whose whole numbers have 64 bits and whose objects have their
names in rising order, is read from its text as it was, if there is room for its brackets.
-/
namespace EventJournal

open Json Json.Scan Text

namespace Json

/-- Values that their texts tell exactly. -/
inductive Exact : Json → Prop where
  | null : Exact .null
  | bool (b : Bool) : Exact (.bool b)
  | int {z : Int} : Scan.Fits z → Exact (.int z)
  | text (s : String) : Exact (.text s)
  | list {items : List Json} : (∀ j ∈ items, Exact j) → Exact (.list items)
  | object {fields : List (String × Json)} : (fields.map Prod.fst).Pairwise (· < ·) → (∀ f ∈ fields, Exact f.2) →
      Exact (.object fields)

theorem Exact.ne_float {j : Json} (h : j.Exact) (x : Binary64) : j ≠ .float x := by
  rintro rfl
  cases h

mutual
/-- How deep the brackets of a value nest. -/
def brackets : Json → Nat
  | .list items => bracketsOfItems items + 1
  | .object fields => bracketsOfFields fields + 1
  | _ => 0

def bracketsOfItems : List Json → Nat
  | [] => 0
  | j :: rest => max j.brackets (bracketsOfItems rest)

def bracketsOfFields : List (String × Json) → Nat
  | [] => 0
  | (_, v) :: rest => max v.brackets (bracketsOfFields rest)
end

theorem brackets_le_of_mem_items {j : Json} {items : List Json} (h : j ∈ items) :
    j.brackets ≤ bracketsOfItems items := by
  induction items with
  | nil => cases h
  | cons i rest ih =>
    rw [bracketsOfItems]
    rcases List.mem_cons.mp h with rfl | h
    · exact Nat.le_max_left _ _
    · exact Nat.le_trans (ih h) (Nat.le_max_right _ _)

theorem brackets_le_of_mem_fields {f : String × Json} {fields : List (String × Json)} (h : f ∈ fields) :
    f.2.brackets ≤ bracketsOfFields fields := by
  induction fields with
  | nil => cases h
  | cons g rest ih =>
    rw [bracketsOfFields]
    rcases List.mem_cons.mp h with rfl | h
    · exact Nat.le_max_left _ _
    · exact Nat.le_trans (ih h) (Nat.le_max_right _ _)

section Plain

variable {name : String} {j : Json} {fields before : List (String × Json)}

/-- A field behind all others of its object. -/
theorem insertField_last (h : ∀ n ∈ before.map Prod.fst, n < name) :
    insertField name j before = before ++ [(name, j)] := by
  induction before with
  | nil => rfl
  | cons f rest ih =>
    obtain ⟨n, v⟩ := f
    have hn : n < name := h n List.mem_cons_self
    have hne : name ≠ n := by
      rintro rfl
      exact String.lt_irrefl name hn
    rw [insertField, if_neg (String.lt_asymm hn), if_neg hne, ih fun m hm => h m (List.mem_cons_of_mem n hm)]
    rfl

/-- Among rising names, those before a field are less than its own. -/
theorem lt_of_rising (h : ((before ++ (name, j) :: fields).map Prod.fst).Pairwise (· < ·)) :
    ∀ n ∈ before.map Prod.fst, n < name := by
  rw [List.map_append, List.pairwise_append] at h
  exact fun n hn => h.2.2 n hn name List.mem_cons_self

theorem plainItems_of_plain {items : List Json} (h : ∀ j ∈ items, j.plain = j) : plainItems items = items := by
  induction items with
  | nil => rfl
  | cons j rest ih => rw [plainItems, h j List.mem_cons_self, ih fun i hi => h i (List.mem_cons_of_mem j hi)]

theorem plainFields_of_rising (before : List (String × Json))
    (hrising : ((before ++ fields).map Prod.fst).Pairwise (· < ·))
    (h : ∀ f ∈ fields, f.2.plain = f.2) : plainFields fields before = before ++ fields := by
  induction fields generalizing before with
  | nil => rw [plainFields, List.append_nil]
  | cons f rest ih =>
    obtain ⟨n, v⟩ := f
    have hv : v.plain = v := h (n, v) List.mem_cons_self
    rw [plainFields, hv, insertField_last (lt_of_rising hrising), ih, List.append_assoc, List.singleton_append]
    · rw [List.append_assoc]
      exact hrising
    · exact fun f hf => h f (List.mem_cons_of_mem _ hf)

/-- Such values are in their plain form. -/
theorem Exact.plain_eq (h : j.Exact) : j.plain = j := by
  induction h with
  | list _ ih => rw [plain, plainItems_of_plain ih]
  | object hrising _ ih => rw [plain, plainFields_of_rising [] hrising ih, List.nil_append]
  | _ => rw [plain]; all_goals exact nofun

end Plain

end Json

namespace Scan

variable {layout : Layout} {level depth fuel : Nat} {first : Bool} {rest s : List Symbol}

theorem value_null (hs : skipSpaces s = front (write layout level .null) rest) :
    value depth s = .ok (.null, rest) := by
  have hs : skipSpaces s = some 'n' :: front "ull".toList rest := by
    rw [hs, write]
    rfl
  rw [value]
  simp only [hs, if_true, word_front, Except.map]

theorem value_bool {b : Bool} (hs : skipSpaces s = front (write layout level (.bool b)) rest) :
    value depth s = .ok (.bool b, rest) := by
  cases b with
  | false =>
    have hs : skipSpaces s = some 'f' :: front "alse".toList rest := by
      rw [hs, write]
      rfl
    have hn : ('f' : Char) ≠ 'n' := by decide
    have ht : ('f' : Char) ≠ 't' := by decide
    rw [value]
    simp only [hs, if_neg hn, if_neg ht, if_true, word_front, Except.map]
  | true =>
    have hs : skipSpaces s = some 't' :: front "rue".toList rest := by
      rw [hs, write]
      rfl
    have hn : ('t' : Char) ≠ 'n' := by decide
    rw [value]
    simp only [hs, if_neg hn, if_true, word_front, Except.map]

theorem value_text {t : String} (hs : skipSpaces s = front (textChars t) rest) :
    value depth s = .ok (.text t, rest) := by
  rw [front_textChars] at hs
  rw [value]
  simp [hs, isDigit, text_escaped, Except.map]

/-- What begins like a number is read as one. -/
theorem value_eq_number (wanted : String) {z : Int} (hs : skipSpaces s = front (intChars z) rest) :
    value depth s = (number wanted s).map fun (n, r) => (value.number n, r) := by
  by_cases hz : z < 0
  · rw [intChars, if_pos hz, front_cons] at hs
    rw [value]
    simp [number, hs]
  · obtain ⟨c, cs, hcs, hc⟩ := exists_first_digit z.natAbs
    have hne : ∀ d : Char, isDigit (some d) = false → c ≠ d := fun _ => ne_of_isDigit hc
    rw [intChars, if_neg hz, hcs, front_cons] at hs
    rw [value]
    simp only [number, hs, if_neg (hne 'n' (by decide)), if_neg (hne 't' (by decide)), if_neg (hne 'f' (by decide)),
      if_neg (hne '-' (by decide)), if_pos hc]

theorem value_int {z : Int} (hz : Fits z) (hs : skipSpaces s = front (intChars z) rest) (hrest : Stops rest) :
    value depth s = .ok (.int z, rest) := by
  rw [value_eq_number "" hs, number_of_fits "" hs hrest hz]
  rfl

/-- A bracket opens a list of values. -/
theorem value_bracket {r : List Symbol} (hs : skipSpaces s = some '[' :: r) :
    value (depth + 1) s = (listOf value (depth + 1) s).map fun (js, r) => (.list js, r) := by
  have hvalue : value (depth + 1) s =
      items (value depth) (r.length + 1) true r >>= fun p => endList p.2 >>= fun r => .ok (.list p.1, r) := by
    rw [value]
    simp [hs, isDigit]
    rfl
  have hlist : listOf value (depth + 1) s =
      items (value depth) (r.length + 1) true r >>= fun p => endList p.2 >>= fun r => .ok (p.1, r) := by
    simp only [listOf, hs]
    rfl
  rw [hvalue, hlist]
  cases items (value depth) (r.length + 1) true r with
  | error e => rfl
  | ok p =>
    change (endList p.2 >>= fun r => .ok (Json.list p.1, r)) =
      (endList p.2 >>= fun r => .ok (p.1, r)).map fun (js, r) => (.list js, r)
    cases endList p.2 <;> rfl

/-- A brace opens the fields of an object. -/
theorem value_brace {r : List Symbol} (hs : skipSpaces s = some '{' :: r) :
    value (depth + 1) s = Json.Scan.fields (value.member (value depth)) (r.length + 1) true [] r >>= fun p =>
      endObject p.2 >>= fun r => .ok (.object p.1, r) := by
  rw [value]
  simp [hs, isDigit]
  rfl

section Parts

variable {items : List Json} {members before : List (String × Json)}

theorem toOption_value_list (hfloat : ∀ j ∈ items, ∀ x, j ≠ .float x)
    (hitem : ∀ j ∈ items, ∀ s r, skipSpaces s = front (write layout (level + 1) j) r → Stops r →
      (value depth s).toOption = some (j, r))
    (hs : skipSpaces s = front (write layout level (.list items)) rest) :
    (value (depth + 1) s).toOption = some (.list items, rest) := by
  have hitems : items.map id = items := List.map_id items
  rw [← hitems] at hs
  have hbracket := hs
  rw [write_list, front_cons] at hbracket
  have hopens : ∀ j ∈ items, ∃ c cs, Opens (write layout (level + 1) (id j)) c cs := by
    intro j hj
    obtain ⟨c, cs, hc, -⟩ := Json.opens_write layout (level + 1) (hfloat j hj)
    exact ⟨c, cs, hc⟩
  have hread := toOption_listOf_succ value hs depth (g := some) hopens hitem
  rw [mapM_eq_some fun _ _ => rfl] at hread
  rw [value_bracket hbracket, toOption_map, hread]
  rfl

/-- A field behind all others of its object is read from its colon on. -/
theorem toOption_member {name : String} {j : Json} (hlast : ∀ n ∈ before.map Prod.fst, n < name)
    (hfloat : ∀ x, j ≠ .float x)
    (hvalue : ∀ s, skipSpaces s = front (write layout level j) rest → (value depth s).toOption = some (j, rest)) :
    (value.member (value depth) name before (front (colon layout) (front (write layout level j) rest))).toOption =
      some (before ++ [(name, j)], rest) := by
  obtain ⟨c, cs, hc, -⟩ := Json.opens_write layout level hfloat
  obtain ⟨r, hr, hskip⟩ := colonSign_colon layout (front (write layout level j) rest)
  have hread := hvalue r (hskip.trans (hc.skipSpaces_front rest))
  rw [value.member, toOption_bind, hr, toOption_ok, Option.bind_some, toOption_bind, hread, Option.bind_some,
    ← insertField_last hlast]
  rfl

/-- One field after the other is put behind those that have been read. -/
theorem toOption_members (before : List (String × Json)) (first : Bool)
    (hrising : ((before ++ members).map Prod.fst).Pairwise (· < ·))
    (hfloat : ∀ f ∈ members, ∀ x, f.2 ≠ .float x)
    (hvalue : ∀ f ∈ members, ∀ s r, skipSpaces s = front (write layout (level + 1) f.2) r → Stops r →
      (value depth s).toOption = some (f.2, r))
    (hf : members.length < fuel)
    (hs : skipSpaces s =
      skipSpaces (front (listed layout level '}' first (members.map (fieldChars layout level))) rest)) :
    (Json.Scan.fields (value.member (value depth)) fuel first before s).toOption =
      some (before ++ members, some '}' :: rest) := by
  induction members generalizing before fuel first s with
  | nil =>
    cases fuel with
    | zero => cases hf
    | succ fuel =>
      rw [fields_nil _ _ hs, List.append_nil]
      rfl
  | cons f others ih =>
    cases fuel with
    | zero => cases hf
    | succ fuel =>
      have hstops : Stops (front (listed layout level '}' false (others.map (fieldChars layout level))) rest) :=
        stops_listed (.inr rfl) _ _
      have hmember := toOption_member (lt_of_rising hrising) (hfloat f List.mem_cons_self)
        fun s hs => hvalue f List.mem_cons_self s _ hs hstops
      have hothers := ih (before ++ [f]) false (by rw [List.append_assoc]; exact hrising)
        (fun g hg => hfloat g (List.mem_cons_of_mem f hg)) (fun g hg => hvalue g (List.mem_cons_of_mem f hg))
        (Nat.lt_of_succ_lt_succ hf) rfl
      rw [fields_cons _ _ hs, toOption_bind, hmember, Option.bind_some]
      rw [hothers, List.append_assoc]
      rfl

theorem toOption_value_object (hrising : (members.map Prod.fst).Pairwise (· < ·))
    (hfloat : ∀ f ∈ members, ∀ x, f.2 ≠ .float x)
    (hvalue : ∀ f ∈ members, ∀ s r, skipSpaces s = front (write layout (level + 1) f.2) r → Stops r →
      (value depth s).toOption = some (f.2, r))
    (hs : skipSpaces s = front (write layout level (.object members)) rest) :
    (value (depth + 1) s).toOption = some (.object members, rest) := by
  have hfuel : members.length <
      (front (listed layout level '}' true (members.map (fieldChars layout level))) rest).length + 1 := by
    refine Nat.lt_succ_of_lt (Nat.lt_of_le_of_lt ?_ (length_lt_front_listed ?_))
    · exact Nat.le_of_eq (List.length_map _).symm
    · intro p hp
      obtain ⟨f, -, rfl⟩ := List.mem_map.mp hp
      simp [fieldChars, textChars]
  rw [write_object, front_cons] at hs
  rw [value_brace hs, toOption_bind, toOption_members [] true hrising hfloat hvalue hfuel rfl]
  rfl

end Parts

/-- An exact value is read from its text, if there is room for its brackets. -/
theorem toOption_value {j : Json} (h : j.Exact) (hdepth : j.brackets ≤ depth)
    (hs : skipSpaces s = front (write layout level j) rest) (hrest : Stops rest) :
    (value depth s).toOption = some (j, rest) := by
  induction h generalizing depth level s rest with
  | null => exact congrArg Except.toOption (value_null hs)
  | bool b => exact congrArg Except.toOption (value_bool hs)
  | int hz => exact congrArg Except.toOption (value_int hz (by rw [hs, write]) hrest)
  | text t => exact congrArg Except.toOption (value_text (by rw [hs, write]))
  | list hitems ih =>
    rw [brackets] at hdepth
    cases depth with
    | zero => cases hdepth
    | succ depth =>
      have hle := Nat.le_of_succ_le_succ hdepth
      exact toOption_value_list (fun j hj => (hitems j hj).ne_float)
        (fun j hj _ _ hs hr => ih j hj (Nat.le_trans (brackets_le_of_mem_items hj) hle) hs hr) hs
  | object hrising hfields ih =>
    rw [brackets] at hdepth
    cases depth with
    | zero => cases hdepth
    | succ depth =>
      have hle := Nat.le_of_succ_le_succ hdepth
      exact toOption_value_object hrising (fun f hf => (hfields f hf).ne_float)
        (fun f hf _ _ hs hr => ih f hf (Nat.le_trans (brackets_le_of_mem_fields hf) hle) hs hr) hs

/-- So it is where the plain form is asked for. -/
theorem toOption_plain {j : Json} (h : j.Exact) (hdepth : j.brackets ≤ depth)
    (hs : skipSpaces s = front (write layout level j) rest) (hrest : Stops rest) :
    ((value depth s).map fun (j, r) => (j.plain, r)).toOption = some (j, rest) := by
  rw [toOption_map, toOption_value h hdepth hs hrest]
  exact congrArg (fun i => some (i, rest)) h.plain_eq

end Scan

end EventJournal
