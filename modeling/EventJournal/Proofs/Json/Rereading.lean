import EventJournal.Codec
import EventJournal.Proofs.Json.Brackets
import EventJournal.Proofs.Text.Identifiers

/-!
Reading back the written values of shapes. What is read is known in every case, also where a value cannot be
read back because a number in it is too large or the brackets nest too deep.
-/
namespace EventJournal

open Json Json.Scan Text

/-- The names of the fields. -/
def Fields.names : Fields → List String
  | .nil => []
  | .cons name _ _ rest => name :: rest.names

/-- A value of the shape may be written as null. -/
def Shape.nullable : Shape → Bool
  | .option _ => true
  | .json => true
  | _ => false

mutual
/-- Shapes whose values can be told apart in writing. -/
def Shape.legible : Shape → Bool
  | .bool | .int | .text | .uuid | .time => true
  | .nat limit _ => limit ≤ greatestWord
  | .json => false
  | .option inner => inner.legible && !inner.nullable
  | .list item => item.legible
  | .choice names => names.Nodup
  | .record _ _ fields => fields.legible

def Fields.legible : Fields → Bool
  | .nil => true
  | .cons name shape _ rest => !rest.names.contains name && shape.legible && rest.legible
end

/-- The numbers from 0 to a limit. -/
def upTo (limit : Nat) (z : Int) : Option Nat :=
  if 0 ≤ z ∧ z.toNat ≤ limit then some z.toNat else none

/-- The numbers of 64 bits with a sign. -/
def long (z : Int) : Option Int :=
  if -Int.pow 2 63 ≤ z ∧ z < Int.pow 2 63 then some z else none

/-- The point in time that is read where one was written. -/
@[irreducible] def Timestamp.reread (t : Timestamp) : Option Timestamp :=
  (ofText t.text).toOption

mutual
/-- What is read where a value was written, if anything. -/
def Shape.reread : (shape : Shape) → (depth : Nat) → shape.Val → Option shape.Val
  | .bool, _, b => some b
  | .nat limit _, _, n => upTo limit (Int.ofNat n)
  | .int, _, z => long z
  | .text, _, s => some s
  | .uuid, _, u => some u
  | .time, _, t => t.reread
  | .json, _, _ => none
  | .option _, _, none => some none
  | .option inner, depth, some v => (inner.reread depth v).map some
  | .list _, 0, _ => none
  | .list item, depth + 1, vs => vs.mapM (item.reread depth)
  | .choice _, _, i => some i
  | .record _ _ _, 0, _ => none
  | .record _ _ fields, depth + 1, v => fields.reread depth v

def Fields.reread : (fields : Fields) → (depth : Nat) → fields.Val → Option fields.Val
  | .nil, _, () => some ()
  | .cons _ shape _ rest, depth, (v, vs) =>
    (shape.reread depth v).bind fun v => (rest.reread depth vs).map fun vs => (v, vs)
end

/-- All fields have been read. -/
def Fields.filled : (fields : Fields) → fields.Val → fields.Slots
  | .nil, () => ()
  | .cons _ _ _ rest, (v, vs) => (some v, rest.filled vs)

theorem Fields.close_filled : (fields : Fields) → (v : fields.Val) → fields.close (fields.filled v) = .ok v
  | .nil, () => rfl
  | .cons _ _ _ rest, (v, vs) => by
    simp only [close, filled, close_filled rest vs]
    rfl

section Openings

/-- What is written of a value begins with a sign of its own, and not with that of null unless it is null. -/
theorem Json.opens_write (layout : Layout) (level : Nat) {j : Json} (hj : ∀ x, j ≠ .float x) :
    ∃ c cs, Opens (write layout level j) c cs ∧ (c = 'n' → j = .null) := by
  cases j with
  | null =>
    refine ⟨'n', "ull".toList, ⟨?_, by decide, by decide⟩, fun _ => rfl⟩
    rw [write]
    rfl
  | bool b =>
    cases b with
    | false =>
      refine ⟨'f', "alse".toList, ⟨?_, by decide, by decide⟩, fun h => absurd h (by decide)⟩
      rw [write]
      rfl
    | true =>
      refine ⟨'t', "rue".toList, ⟨?_, by decide, by decide⟩, fun h => absurd h (by decide)⟩
      rw [write]
      rfl
  | int z =>
    rw [write, intChars]
    by_cases hz : z < 0
    · exact ⟨'-', _, ⟨if_pos hz, by decide, by decide⟩, fun h => absurd h (by decide)⟩
    · obtain ⟨c, cs, hcs, hc⟩ := exists_first_digit z.natAbs
      have hne : ∀ d : Char, isDigit (some d) = false → c ≠ d := fun _ => ne_of_isDigit hc
      refine ⟨c, cs, ⟨by rw [if_neg hz, hcs], ?_, hne ']' (by decide)⟩, fun h => absurd h (hne 'n' (by decide))⟩
      simp [isSpace, hne ' ' (by decide), hne '\n' (by decide), hne '\t' (by decide), hne '\r' (by decide)]
  | float x => exact absurd rfl (hj x)
  | text s =>
    refine ⟨'"', s.toList.flatMap escapedChar ++ ['"'], ⟨?_, by decide, by decide⟩, fun h => absurd h (by decide)⟩
    rw [write, textChars]
    rfl
  | list js =>
    have hw := write_list layout level id js
    rw [List.map_id] at hw
    exact ⟨'[', _, ⟨hw, by decide, by decide⟩, fun h => absurd h (by decide)⟩
  | object fs => exact ⟨'{', _, ⟨write_object layout level fs, by decide, by decide⟩, fun h => absurd h (by decide)⟩

theorem Shape.toJson_ne_float {shape : Shape} (hl : shape.legible) (v : shape.Val) (x : Binary64) :
    shape.toJson v ≠ .float x := by
  induction shape using Shape.rec (motive_2 := fun _ => True) with
  | option inner ih =>
    cases v with
    | none => exact nofun
    | some v =>
      simp only [legible, Bool.and_eq_true] at hl
      exact ih hl.1 v
  | json => cases hl
  | nil => trivial
  | cons => trivial
  | _ => exact nofun

theorem Shape.toJson_ne_null {shape : Shape} (hn : shape.nullable = false) (v : shape.Val) :
    shape.toJson v ≠ .null := by
  cases shape with
  | option inner => cases hn
  | json => cases hn
  | _ => exact nofun

end Openings

variable {layout : Layout} {level : Nat} {rest s : List Symbol}

namespace Scan

/-- The whole numbers that stay whole in reading. -/
def Fits (z : Int) : Prop :=
  -Int.pow 2 63 ≤ z ∧ z ≤ greatestWord

/-- A written whole number is read behind its sign. -/
theorem number_intChars (wanted : String) {z : Int} (hs : skipSpaces s = front (intChars z) rest) :
    number wanted s = numeral (z < 0) (front (Nat.toDigits 10 z.natAbs) rest) := by
  by_cases hz : z < 0
  · rw [intChars, if_pos hz, front_cons] at hs
    simp only [number, hs, if_true, hz, decide_true]
  · obtain ⟨c, cs, hcs, hc⟩ := exists_first_digit z.natAbs
    have hne : c ≠ '-' := ne_of_isDigit hc (by decide)
    rw [intChars, if_neg hz, hcs, front_cons] at hs
    simp only [number, hs, hcs, front_cons, if_neg hne, if_pos hc, hz, decide_false]

theorem natCast_pow_two : (Nat.pow 2 63 : Int) = Int.pow 2 63 :=
  Int.natCast_pow 2 63

theorem number_of_fits (wanted : String) {z : Int} (hs : skipSpaces s = front (intChars z) rest)
    (hrest : Stops rest) (hz : Fits z) : number wanted s = .ok (.int z, rest) := by
  obtain ⟨hlow, hhigh⟩ := hz
  rw [number_intChars wanted hs]
  rw [← natCast_pow_two] at hlow
  by_cases hneg : z < 0
  · have hread := numeral_negative_of_le (n := z.natAbs) hrest (by omega) (by omega)
    rw [show -(z.natAbs : Int) = z by omega] at hread
    simp only [hneg, decide_true, hread]
  · have hread := numeral_of_le (n := z.natAbs) hrest (by omega)
    rw [show (z.natAbs : Int) = z by omega] at hread
    simp only [hneg, decide_false, hread]

theorem number_ne_int (wanted : String) {z : Int} (hs : skipSpaces s = front (intChars z) rest)
    (hrest : Stops rest) (hz : ¬ Fits z) (y : Int) (r : List Symbol) : number wanted s ≠ .ok (.int y, r) := by
  rw [number_intChars wanted hs]
  rw [Fits, ← natCast_pow_two] at hz
  by_cases hneg : z < 0
  · simp only [hneg, decide_true]
    exact numeral_negative_ne_int_of_lt hrest (by omega) y r
  · simp only [hneg, decide_false]
    exact numeral_ne_int_of_lt hrest (by omega) y r

/-- A whole number, if it is taken. -/
def whole {α : Type} (wanted : String) (take : Int → Option α) : Scan α := fun s => do
  match ← number wanted s with
  | (.int z, r) =>
    match take z with
    | some a => return (a, r)
    | none => throw (.outOfRange z wanted)
  | (.float x, _) => throw (.wrongKind (.float x) wanted)

theorem toOption_whole {α : Type} (wanted : String) {take : Int → Option α} {z : Int}
    (htake : ∀ a, take z = some a → Fits z) (hs : skipSpaces s = front (intChars z) rest) (hrest : Stops rest) :
    (whole wanted take s).toOption = (take z).map (·, rest) := by
  by_cases hz : Fits z
  · simp only [whole, number_of_fits wanted hs hrest hz, bind, Except.bind]
    cases take z <;> rfl
  · have hnone : take z = none := Option.eq_none_iff_forall_ne_some.mpr fun a ha => hz (htake a ha)
    rw [whole, hnone]
    cases h : number wanted s with
    | error e => rfl
    | ok p =>
      obtain ⟨y | x, r⟩ := p
      · exact absurd h (number_ne_int wanted hs hrest hz y r)
      · rfl

theorem quotedText_textChars (wanted : String) {t : String} (hs : skipSpaces s = front (textChars t) rest) :
    quotedText wanted s = .ok (t, rest) := by
  rw [front_textChars] at hs
  simp only [quotedText, hs, if_true, text_escaped]

theorem toOption_convertedText {ε α : Type} (wanted : String) (convert : String → Except ε α)
    (reason : ε → Reason) {t : String} (hs : skipSpaces s = front (textChars t) rest) :
    (convertedText wanted convert reason s).toOption = (convert t).toOption.map (·, rest) := by
  rw [convertedText, quotedText_textChars wanted hs]
  change ((convert t).mapError reason >>= fun a => .ok (a, rest)).toOption = _
  rw [toOption_bind, toOption_mapError]
  cases (convert t).toOption <;> rfl

theorem toOption_uuid {wanted : String} {u : Uuid} (hs : skipSpaces s = front (textChars u.text) rest) :
    (convertedText wanted Uuid.ofText .uuid s).toOption = some (u, rest) := by
  rw [toOption_convertedText wanted Uuid.ofText .uuid hs, Uuid.ofText_text]
  rfl

theorem toOption_time {wanted : String} {t : Timestamp} (hs : skipSpaces s = front (textChars t.text) rest) :
    (convertedText wanted Timestamp.ofText .time s).toOption = t.reread.map (·, rest) := by
  rw [toOption_convertedText wanted Timestamp.ofText .time hs, Timestamp.reread]

theorem truth_write {b : Bool} (hs : skipSpaces s = front (write layout level (.bool b)) rest) :
    truth s = .ok (b, rest) := by
  cases b with
  | false =>
    have hs : skipSpaces s = some 'f' :: front "alse".toList rest := by
      rw [hs, write]
      rfl
    have hne : ('f' : Char) ≠ 't' := by decide
    simp only [truth, hs, if_neg hne, if_true, word_front, Except.map]
  | true =>
    have hs : skipSpaces s = some 't' :: front "rue".toList rest := by
      rw [hs, write]
      rfl
    simp only [truth, hs, if_true, word_front, Except.map]

theorem choice_textChars {names : List String} (hn : names.Nodup) (i : Fin names.length)
    (hs : skipSpaces s = front (textChars (names.get i)) rest) : choice names s = .ok (i, rest) := by
  have hchosen : Shape.ofJson.chosen names (names.get i) = .ok i := by
    have hfind : names.finIdxOf? (names.get i) = some i := by
      rw [List.finIdxOf?_eq_some_iff]
      refine ⟨rfl, ?_⟩
      intro j hj he
      exact Nat.ne_of_lt hj ((List.getElem_inj hn).mp he)
    rw [Shape.ofJson.chosen, hfind]
  rw [front_textChars] at hs
  simp only [choice, hs, if_true, text_escaped, bind, Except.bind, hchosen]
  rfl

end Scan

theorem fits_of_upTo {limit n a : Nat} (hl : limit ≤ greatestWord) (h : upTo limit (Int.ofNat n) = some a) :
    Scan.Fits (Int.ofNat n) := by
  rw [upTo] at h
  split at h
  next hz =>
    have hn : n ≤ greatestWord := Nat.le_trans hz.2 hl
    rw [Scan.Fits, ← Scan.natCast_pow_two]
    exact ⟨by omega, Int.ofNat_le.mpr hn⟩
  · cases h

theorem eq_of_upTo {limit n a : Nat} (h : upTo limit (Int.ofNat n) = some a) : a = n := by
  rw [upTo] at h
  split at h
  · cases h
    rfl
  · cases h

theorem eq_of_long {z a : Int} (h : long z = some a) : a = z := by
  rw [long] at h
  split at h
  · cases h
    rfl
  · cases h

theorem fits_of_long {z a : Int} (h : long z = some a) : Scan.Fits z := by
  rw [long] at h
  split at h
  next hz =>
    have hpow : Nat.pow 2 63 ≤ greatestWord := by decide
    refine ⟨hz.1, ?_⟩
    rw [← Scan.natCast_pow_two] at hz
    omega
  · cases h

namespace Shape

theorem scan_nat (limit : Nat) (width : String) (depth : Nat) :
    (Shape.nat limit width).scan depth = Scan.whole width (upTo limit) := by
  funext s
  rw [scan]
  refine congrArg (Scan.number width s >>= ·) (funext ?_)
  rintro ⟨z | x, r⟩
  · by_cases hz : 0 ≤ z ∧ z.toNat ≤ limit
    · simp only [upTo, if_pos hz]
      rfl
    · simp only [upTo, if_neg hz]
      rfl
  · rfl

theorem scan_int (depth : Nat) : Shape.int.scan depth = Scan.whole "i64" long := by
  funext s
  rw [scan]
  refine congrArg (Scan.number "i64" s >>= ·) (funext ?_)
  rintro ⟨z | x, r⟩
  · by_cases hz : -Int.pow 2 63 ≤ z ∧ z < Int.pow 2 63
    · simp only [long, if_pos hz]
      rfl
    · simp only [long, if_neg hz]
      rfl
  · rfl

theorem opens_write {shape : Shape} (hl : shape.legible) (v : shape.Val) (layout : Layout) (level : Nat) :
    ∃ c cs, Opens (write layout level (shape.toJson v)) c cs := by
  obtain ⟨c, cs, h, -⟩ := Json.opens_write layout level (toJson_ne_float hl v)
  exact ⟨c, cs, h⟩

end Shape

namespace Scan

/-- A value, or null. -/
def orNull {α : Type} (item : Scan α) : Scan (Option α) := fun s =>
  match skipSpaces s with
  | some 'n' :: r => (word "ull".toList r).map fun r => (none, r)
  | _ => (item s).map fun (v, r) => (some v, r)

def listOf {α : Type} (item : Nat → Scan α) (depth : Nat) : Scan (List α) := fun s =>
  match skipSpaces s, depth with
  | some '[' :: _, 0 => .error .tooDeep
  | some '[' :: r, d + 1 => do
    let (vs, r) ← items (item d) (r.length + 1) true r
    return (vs, ← endList r)
  | _, _ => .error (mismatch "a sequence" s)

theorem orNull_null {α : Type} (item : Scan α) (hs : skipSpaces s = front (write layout level .null) rest) :
    orNull item s = .ok (none, rest) := by
  have hs : skipSpaces s = some 'n' :: front "ull".toList rest := by
    rw [hs, write]
    rfl
  simp only [orNull, hs, word_front, Except.map]

/-- A value that is not written as null is read for itself. -/
theorem toOption_orNull {α : Type} (item : Scan α) {p cs : List Char} {c : Char} (hp : Opens p c cs)
    (hc : c ≠ 'n') (hs : skipSpaces s = front p rest) {v : Option α}
    (hitem : (item s).toOption = v.map (·, rest)) :
    (orNull item s).toOption = (v.map some).map (·, rest) := by
  have hread : orNull item s = (item s).map fun (v, r) => (some v, r) := by
    rw [hp.eq, front_cons] at hs
    rw [orNull, hs]
    split
    next r h =>
      cases h
      exact absurd rfl hc
    next => rfl
  rw [hread, toOption_map, hitem]
  cases v <;> rfl

section Lists

variable {α β : Type} (item : Nat → Scan α) {f : β → Json} {vs : List β}
  (hs : skipSpaces s = front (write layout level (.list (vs.map f))) rest)
include hs

theorem toOption_listOf_zero : (listOf item 0 s).toOption = none := by
  rw [write_list, front_cons] at hs
  simp only [listOf, hs, toOption_error]

theorem toOption_listOf_succ (depth : Nat) {g : β → Option α}
    (hopens : ∀ v ∈ vs, ∃ c cs, Opens (write layout (level + 1) (f v)) c cs)
    (hitem : ∀ v ∈ vs, ∀ s r, skipSpaces s = front (write layout (level + 1) (f v)) r → Stops r →
      (item depth s).toOption = (g v).map (·, r)) :
    (listOf item (depth + 1) s).toOption = (vs.mapM g).map (·, rest) := by
  have hitem : ∀ v ∈ vs, ∀ r, Stops r →
      (item depth (front (write layout (level + 1) (f v)) r)).toOption = (g v).map (·, r) := by
    intro v hv r hr
    obtain ⟨c, cs, hc⟩ := hopens v hv
    exact hitem v hv _ r (hc.skipSpaces_front r) hr
  have hfuel : vs.length <
      (front (listed layout level ']' true (vs.map fun v => write layout (level + 1) (f v))) rest).length + 1 := by
    refine Nat.lt_succ_of_lt (Nat.lt_of_le_of_lt ?_ (length_lt_front_listed ?_))
    · exact Nat.le_of_eq (List.length_map _).symm
    · intro p hp
      obtain ⟨v, hv, rfl⟩ := List.mem_map.mp hp
      obtain ⟨c, cs, hc⟩ := hopens v hv
      rw [hc.eq]
      exact List.cons_ne_nil c cs
  rw [write_list, front_cons] at hs
  simp only [listOf, hs, toOption_bind, toOption_items hopens hitem hfuel rfl]
  cases vs.mapM g <;> rfl

end Lists

end Scan

/-- The fields of a record, by name or in their order. -/
def Fields.scanRecord (members : Fields) (name : String) (lenient : Bool) (depth : Nat) : Scan members.Val := fun s =>
  match skipSpaces s, depth with
  | some '[' :: _, 0 | some '{' :: _, 0 => .error .tooDeep
  | some '[' :: r, d + 1 => do
    let (v, r) ← members.scanItems d name lenient members.count 0 r
    return (v, ← endList r)
  | some '{' :: r, d + 1 => do
    let (read, r) ← Json.Scan.fields (fun n read => members.scanField d n read) (r.length + 1) true members.empty r
    let v ← members.close read
    return (v, ← endObject r)
  | _, _ => .error (Scan.mismatch ("struct " ++ name) s)

theorem Fields.length_toMembers : (fields : Fields) → (v : fields.Val) → (fields.toMembers v).length = fields.count
  | .nil, () => rfl
  | .cons _ _ _ rest, (_, vs) => congrArg Nat.succ (length_toMembers rest vs)

section Records

variable {members : Fields} (name : String) (lenient : Bool) {v : members.Val}
  (hs : skipSpaces s = front (write layout level (.object (members.toMembers v))) rest)
include hs

theorem Fields.toOption_scanRecord_zero : (members.scanRecord name lenient 0 s).toOption = none := by
  rw [write_object, front_cons] at hs
  simp only [scanRecord, hs, toOption_error]

theorem Fields.toOption_scanRecord_succ (depth : Nat) {w : Option members.Val}
    (hread : ∀ fuel s, members.count < fuel →
      s = front (listed layout level '}' true ((members.toMembers v).map (fieldChars layout level))) rest →
      (Json.Scan.fields (fun n read => members.scanField depth n read) fuel true members.empty s).toOption =
        w.map fun v => (members.filled v, some '}' :: rest)) :
    (members.scanRecord name lenient (depth + 1) s).toOption = w.map (·, rest) := by
  have hfuel : members.count < (front (listed layout level '}' true
      ((members.toMembers v).map (fieldChars layout level))) rest).length + 1 := by
    refine Nat.lt_succ_of_lt (Nat.lt_of_le_of_lt ?_ (length_lt_front_listed ?_))
    · exact Nat.le_of_eq (by rw [List.length_map, length_toMembers])
    · intro p hp
      obtain ⟨f, -, rfl⟩ := List.mem_map.mp hp
      simp [fieldChars, textChars]
  rw [write_object, front_cons] at hs
  simp only [scanRecord, hs, toOption_bind, hread _ _ hfuel rfl]
  cases w with
  | none => rfl
  | some v =>
    simp only [Option.map_some, Option.bind_some, close_filled]
    rfl

end Records

namespace Fields

/-- Putting the fields of a part of a record into the whole. -/
structure Within (part whole : Fields) (depth : Nat) (embed : part.Slots → whole.Slots) : Prop where
  scan : ∀ n ∈ part.names, ∀ slots s, whole.scanField depth n (embed slots) s =
    (part.scanField depth n slots s).map fun (slots, r) => (embed slots, r)

theorem Within.refl (members : Fields) (depth : Nat) : members.Within members depth id where
  scan n _ slots s := by
    rw [id]
    cases members.scanField depth n slots s <;> rfl

section Cons

variable {name : String} {shape : Shape} {absent : Option Json} {others : Fields} {depth : Nat}

def slot (v : Option shape.Val) (slots : others.Slots) : (cons name shape absent others).Slots :=
  (v, slots)

def pair (v : shape.Val) (vs : others.Val) : (cons name shape absent others).Val :=
  (v, vs)

/-- The first field, when it has not come before. -/
theorem scanField_self (slots : others.Slots) (s : List Symbol) :
    (cons name shape absent others).scanField depth name (slot none slots) s = (do
      let (v, r) ← shape.scan depth (← colonSign s)
      return (slot (some v) slots, r)) := by
  rw [slot, scanField]
  simp only [if_pos, Option.isSome_none, Bool.false_eq_true, if_false]
  rfl

theorem scanField_other {n : String} (hne : name ≠ n) (v : Option shape.Val) (slots : others.Slots)
    (s : List Symbol) : (cons name shape absent others).scanField depth n (slot v slots) s =
      (others.scanField depth n slots s).map fun (slots, r) => (slot v slots, r) := by
  rw [slot, scanField]
  simp only [if_neg hne]
  cases others.scanField depth n slots s <;> rfl

theorem Within.tail {whole : Fields} {embed : (cons name shape absent others).Slots → whole.Slots}
    (h : (cons name shape absent others).Within whole depth embed) (hname : name ∉ others.names)
    (v : Option shape.Val) : others.Within whole depth fun slots => embed (slot v slots) where
  scan n hn slots s := by
    have hne : name ≠ n := by
      rintro rfl
      exact hname hn
    rw [h.scan n (List.mem_cons_of_mem name hn), scanField_other hne]
    cases others.scanField depth n slots s <;> rfl

theorem toOption_scanField {slots : others.Slots} {j : Json} {w : Option shape.Val}
    (hopens : ∃ c cs, Opens (write layout level j) c cs)
    (hscan : ∀ s, skipSpaces s = front (write layout level j) rest →
      (shape.scan depth s).toOption = w.map (·, rest)) :
    ((cons name shape absent others).scanField depth name (slot none slots)
        (front (colon layout) (front (write layout level j) rest))).toOption =
      w.map fun v => (slot (some v) slots, rest) := by
  obtain ⟨r, hr, hskip⟩ := colonSign_colon layout (front (write layout level j) rest)
  obtain ⟨c, cs, hc⟩ := hopens
  have hread := hscan r (hskip.trans (hc.skipSpaces_front rest))
  simp only [scanField_self, toOption_bind, hr, toOption_ok, Option.bind_some, hread]
  cases w <;> rfl

/-- The first field is read, and then the others, if that is how they are read. -/
theorem toOption_fields_cons {whole : Fields} {embed : (cons name shape absent others).Slots → whole.Slots}
    {first : Bool} {fuel : Nat} {v : shape.Val} {vs : others.Val} {w : Option shape.Val} {u : Option others.Val}
    (hname : name ∉ others.names) (hwithin : (cons name shape absent others).Within whole depth embed)
    (hopens : ∃ c cs, Opens (write layout (level + 1) (shape.toJson v)) c cs)
    (hscan : ∀ s rest, skipSpaces s = front (write layout (level + 1) (shape.toJson v)) rest → Stops rest →
      (shape.scan depth s).toOption = w.map (·, rest))
    (hothers : ∀ (embed : others.Slots → whole.Slots), others.Within whole depth embed →
      (Json.Scan.fields (fun n read => whole.scanField depth n read) fuel false (embed others.empty)
        (front (listed layout level '}' false ((others.toMembers vs).map (fieldChars layout level))) rest)).toOption =
      u.map fun vs => (embed (others.filled vs), some '}' :: rest))
    (hs : skipSpaces s = skipSpaces (front (listed layout level '}' first
      (((cons name shape absent others).toMembers (pair v vs)).map (fieldChars layout level))) rest)) :
    (Json.Scan.fields (fun n read => whole.scanField depth n read) (fuel + 1) first
        (embed (cons name shape absent others).empty) s).toOption =
      (w.bind fun v => u.map (pair v)).map fun v =>
        (embed ((cons name shape absent others).filled v), some '}' :: rest) := by
  have hempty : (cons name shape absent others).empty = slot none others.empty := rfl
  have hstops : Stops (front (listed layout level '}' false ((others.toMembers vs).map (fieldChars layout level)))
      rest) := stops_listed (.inr rfl) _ _
  rw [fields_cons _ _ hs, toOption_bind, hempty, hwithin.scan name List.mem_cons_self, toOption_map,
    toOption_scanField hopens (hscan · _ · hstops)]
  cases w with
  | none => rfl
  | some v =>
    simp only [Option.map_some, Option.bind_some, hothers _ (hwithin.tail hname (some v))]
    cases u <;> rfl

end Cons

end Fields

mutual
/-- Where a value was written, that is read which may be. -/
theorem Shape.toOption_scan : (shape : Shape) → shape.legible → ∀ (v : shape.Val) (depth level : Nat)
    {s rest : List Symbol}, skipSpaces s = front (write layout level (shape.toJson v)) rest → Stops rest →
    (shape.scan depth s).toOption = (shape.reread depth v).map (·, rest)
  | .bool, _, b, _, _, _, _, hs, _ => congrArg Except.toOption (Scan.truth_write hs)
  | .nat limit width, hl, n, depth, _, _, _, hs, hrest => by
    rw [Shape.scan_nat]
    exact Scan.toOption_whole width (fun _ h => fits_of_upTo (of_decide_eq_true hl) h) hs hrest
  | .int, _, z, depth, _, _, _, hs, hrest => by
    rw [Shape.scan_int]
    exact Scan.toOption_whole "i64" (fun _ h => fits_of_long h) hs hrest
  | .text, _, _, _, _, _, _, hs, _ => congrArg Except.toOption (Scan.quotedText_textChars "a string" hs)
  | .uuid, _, _, _, _, _, _, hs, _ => Scan.toOption_uuid hs
  | .time, _, _, _, _, _, _, hs, _ => Scan.toOption_time hs
  | .json, hl, _, _, _, _, _, _, _ => nomatch hl
  | .option _, _, none, _, _, _, _, hs, _ => congrArg Except.toOption (Scan.orNull_null _ hs)
  | .option inner, hl, some v, depth, level, s, rest, hs, hrest => by
    rw [Shape.legible, Bool.and_eq_true, Bool.not_eq_true'] at hl
    obtain ⟨c, cs, hopens, hnull⟩ := Json.opens_write layout level (Shape.toJson_ne_float hl.1 v)
    have hc : c ≠ 'n' := fun h => Shape.toJson_ne_null hl.2 v (hnull h)
    exact Scan.toOption_orNull _ hopens hc hs (Shape.toOption_scan inner hl.1 v depth level hs hrest)
  | .list item, _, _, 0, _, _, _, hs, _ => Scan.toOption_listOf_zero item.scan hs
  | .list item, hl, _, depth + 1, level, _, _, hs, _ =>
    Scan.toOption_listOf_succ item.scan hs depth (fun v _ => @Shape.opens_write item hl v layout (level + 1))
      fun v _ _ _ hs hrest => Shape.toOption_scan item hl v depth (level + 1) hs hrest
  | .choice _, hl, i, _, _, _, _, hs, _ =>
    congrArg Except.toOption (Scan.choice_textChars (of_decide_eq_true hl) i hs)
  | .record name lenient _, _, _, 0, _, _, _, hs, _ => Fields.toOption_scanRecord_zero name lenient hs
  | .record name lenient fields, hl, v, depth + 1, level, _, _, hs, _ =>
    Fields.toOption_scanRecord_succ name lenient hs depth fun _ _ hf hs =>
      Fields.toOption_scan fields hl v depth level (.refl fields depth) hf (congrArg skipSpaces hs)

theorem Fields.toOption_scan : (part : Fields) → part.legible → ∀ (v : part.Val) (depth level : Nat)
    {whole : Fields} {embed : part.Slots → whole.Slots} {first : Bool} {fuel : Nat} {s rest : List Symbol},
    part.Within whole depth embed → part.count < fuel →
    skipSpaces s =
      skipSpaces (front (listed layout level '}' first ((part.toMembers v).map (fieldChars layout level))) rest) →
    (Json.Scan.fields (fun n read => whole.scanField depth n read) fuel first (embed part.empty) s).toOption =
      (part.reread depth v).map fun v => (embed (part.filled v), some '}' :: rest)
  | .nil, _, (), depth, level, whole, embed, first, fuel + 1, s, rest, hwithin, hf, hs =>
    congrArg Except.toOption (fields_nil _ _ hs)
  | .cons name shape _ others, hl, (v, vs), depth, level, _, _, _, fuel + 1, _, _, hwithin, hf, hs => by
    simp only [Fields.legible, Bool.and_eq_true, Bool.not_eq_true', List.contains_eq_mem,
      decide_eq_false_iff_not] at hl
    obtain ⟨⟨hname, hshape⟩, hothers⟩ := hl
    exact Fields.toOption_fields_cons hname hwithin (Shape.opens_write hshape v layout (level + 1))
      (fun s _ hs hrest => Shape.toOption_scan shape hshape v depth (level + 1) hs hrest)
      (fun embed he => Fields.toOption_scan others hothers vs depth level he (Nat.lt_of_succ_lt_succ hf) rfl) hs
end

/-- The whole of a written text is read in any layout. -/
theorem Shape.toOption_ofText {shape : Shape} (hl : shape.legible) (v : shape.Val) (layout : Layout) :
    (shape.ofText (symbols ((shape.toJson v).toText layout))).toOption = shape.reread nesting v := by
  have hsymbols : symbols ((shape.toJson v).toText layout) = front (write layout 0 (shape.toJson v)) [] := by
    rw [symbols, toText, chars, String.toList_ofList, front, List.append_nil]
  have hskip : skipSpaces (front (write layout 0 (shape.toJson v)) []) =
      front (write layout 0 (shape.toJson v)) [] := by
    obtain ⟨c, cs, hc⟩ := Shape.opens_write hl v layout 0
    exact hc.skipSpaces_front []
  rw [Shape.ofText, readAll, toOption_bind, hsymbols, Shape.toOption_scan shape hl v nesting 0 hskip stops_nil]
  cases shape.reread nesting v <;> rfl

theorem Codec.toOption_decodeValue {α : Type} [Coded α] (hl : (Coded.shape α).legible) {a : α}
    {layout layout' : Layout} {t : String} (h : (Codec.json layout).encodeValue a = .ok t) :
    ((Codec.json layout').decodeValue α (symbols t)).toOption =
      ((Coded.shape α).reread nesting (Coded.toVal a)).map Coded.ofVal := by
  cases h
  have hdecode : ∀ text, ((Codec.json layout').decode (Coded.shape α) text).toOption =
      ((Coded.shape α).ofText text).toOption := fun _ => toOption_mapError _ _
  rw [decodeValue, toOption_map, hdecode, Shape.toOption_ofText hl]

section Same

mutual
/-- No value of the shape holds a point in time. -/
def Shape.timeless : Shape → Bool
  | .bool | .nat _ _ | .int | .text | .uuid | .choice _ => true
  | .time | .json => false
  | .option inner => inner.timeless
  | .list item => item.timeless
  | .record _ _ fields => fields.timeless

def Fields.timeless : Fields → Bool
  | .nil => true
  | .cons _ shape _ rest => shape.timeless && rest.timeless
end

theorem eq_of_mapM {α : Type} {f : α → Option α} (hf : ∀ a b, f a = some b → b = a) {as bs : List α}
    (h : as.mapM f = some bs) : bs = as := by
  induction as generalizing bs with
  | nil =>
    cases h
    rfl
  | cons a as ih =>
    rw [List.mapM_cons] at h
    cases ha : f a with
    | none =>
      rw [ha] at h
      cases h
    | some b =>
      cases has : as.mapM f with
      | none =>
        rw [ha, has] at h
        cases h
      | some cs =>
        rw [ha, has] at h
        cases h
        rw [hf a b ha, ih has]

mutual
/-- What is read without a point in time in it is what was written. -/
theorem Shape.eq_of_reread : (shape : Shape) → shape.timeless → ∀ {depth : Nat} {v w : shape.Val},
    shape.reread depth v = some w → w = v
  | .bool, _, _, _, _, h => (Option.some.inj h).symm
  | .nat _ _, _, _, _, _, h => eq_of_upTo h
  | .int, _, _, _, _, h => eq_of_long h
  | .text, _, _, _, _, h => (Option.some.inj h).symm
  | .uuid, _, _, _, _, h => (Option.some.inj h).symm
  | .time, ht, _, _, _, _ => absurd ht Bool.false_ne_true
  | .json, ht, _, _, _, _ => absurd ht Bool.false_ne_true
  | .option _, _, _, none, _, h => (Option.some.inj h).symm
  | .option inner, ht, _, some _, _, h => by
    obtain ⟨w, hw, rfl⟩ := Option.map_eq_some_iff.mp h
    rw [Shape.eq_of_reread inner ht hw]
  | .list _, _, 0, _, _, h => nomatch h
  | .list item, ht, _ + 1, _, _, h => eq_of_mapM (fun _ _ h => Shape.eq_of_reread item ht h) h
  | .choice _, _, _, _, _, h => (Option.some.inj h).symm
  | .record _ _ _, _, 0, _, _, h => nomatch h
  | .record _ _ fields, ht, _ + 1, _, _, h => Fields.eq_of_reread fields ht h

theorem Fields.eq_of_reread : (fields : Fields) → fields.timeless → ∀ {depth : Nat} {v w : fields.Val},
    fields.reread depth v = some w → w = v
  | .nil, _, _, _, _, _ => rfl
  | .cons _ shape _ rest, ht, _, (v, vs), w, h => by
    rw [Fields.timeless, Bool.and_eq_true] at ht
    obtain ⟨v', hv, h⟩ := Option.bind_eq_some_iff.mp h
    obtain ⟨vs', hvs, rfl⟩ := Option.map_eq_some_iff.mp h
    rw [Shape.eq_of_reread shape ht.1 hv, Fields.eq_of_reread rest ht.2 hvs]
end

end Same

end EventJournal
