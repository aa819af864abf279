import EventJournal.Proofs.Json.Values
import EventJournal.Proofs.Text.Times

/-!
Values that are read back from their texts as they were, whatever the layout. Their numbers keep to the limits of
their shapes, their points in time lie in years of four digits, and the plain JSON in them is exact.
-/
namespace EventJournal

open Json Json.Scan Text

mutual
/-- Shapes whose values can be told apart in writing, with plain JSON among them. -/
def Shape.telling : Shape → Bool
  | .bool | .int | .text | .uuid | .time | .json => true
  | .nat limit _ => limit ≤ greatestWord
  | .option inner => inner.telling && !inner.nullable
  | .list item => item.telling
  | .choice names => names.Nodup
  | .record _ _ fields => fields.telling

def Fields.telling : Fields → Bool
  | .nil => true
  | .cons name shape _ rest => !rest.names.contains name && shape.telling && rest.telling
end

mutual
/-- Nothing in the value is lost in writing. -/
def Shape.Exact : (shape : Shape) → shape.Val → Prop
  | .nat limit _, n => Nat.le n limit
  | .int, z => (long z).isSome
  | .time, t => t.Common
  | .json, j => j.Exact
  | .option _, none => True
  | .option inner, some v => inner.Exact v
  | .list item, vs => AllOf item.Exact vs
  | .record _ _ fields, v => fields.Exact v
  | .bool, _ | .text, _ | .uuid, _ | .choice _, _ => True

def Fields.Exact : (fields : Fields) → fields.Val → Prop
  | .nil, () => True
  | .cons _ shape _ rest, (v, vs) => shape.Exact v ∧ rest.Exact vs
end

theorem Shape.toJson_ne_float_of_exact {shape : Shape} {v : shape.Val} (h : shape.Exact v) (x : Binary64) :
    shape.toJson v ≠ .float x := by
  induction shape using Shape.rec (motive_2 := fun _ => True) with
  | option inner ih =>
    cases v with
    | none => exact nofun
    | some v => exact ih h
  | json => exact Json.Exact.ne_float h x
  | nil => trivial
  | cons => trivial
  | _ => exact nofun

theorem Timestamp.reread_of_common {t : Timestamp} (h : t.Common) : t.reread = some t := by
  rw [Timestamp.reread, ofText_text h]
  rfl

theorem upTo_of_le {limit n : Nat} (h : n ≤ limit) : upTo limit (Int.ofNat n) = some n :=
  if_pos ⟨Int.natCast_nonneg n, h⟩

theorem long_of_isSome {z : Int} (h : (long z).isSome) : long z = some z := by
  obtain ⟨y, hy⟩ := Option.isSome_iff_exists.mp h
  rw [hy, eq_of_long hy]

variable {layout : Layout}

theorem Shape.opens_of_exact {shape : Shape} {v : shape.Val} (h : shape.Exact v) (layout : Layout) (level : Nat) :
    ∃ c cs, Opens (write layout level (shape.toJson v)) c cs := by
  obtain ⟨c, cs, hc, -⟩ := Json.opens_write layout level (toJson_ne_float_of_exact h)
  exact ⟨c, cs, hc⟩

mutual
/-- An exact value is read from its text, if there is room for its brackets. -/
theorem Shape.toOption_scan_of_exact : (shape : Shape) → shape.telling → ∀ (v : shape.Val) (depth level : Nat)
    {s rest : List Symbol}, shape.Exact v → (shape.toJson v).brackets ≤ depth →
    skipSpaces s = front (write layout level (shape.toJson v)) rest → Stops rest →
    (shape.scan depth s).toOption = some (v, rest)
  | .bool, _, b, _, _, _, _, _, _, hs, _ => congrArg Except.toOption (Scan.truth_write hs)
  | .nat limit width, hl, n, depth, _, _, _, hn, _, hs, hrest => by
    rw [Shape.scan_nat]
    exact (Scan.toOption_whole width (fun _ h => fits_of_upTo (of_decide_eq_true hl) h) hs hrest).trans
      (congrArg (Option.map _) (upTo_of_le hn))
  | .int, _, z, depth, _, _, _, hz, _, hs, hrest => by
    rw [Shape.scan_int]
    exact (Scan.toOption_whole "i64" (fun _ h => fits_of_long h) hs hrest).trans
      (congrArg (Option.map _) (long_of_isSome hz))
  | .text, _, _, _, _, _, _, _, _, hs, _ => congrArg Except.toOption (Scan.quotedText_textChars "a string" hs)
  | .uuid, _, _, _, _, _, _, _, _, hs, _ => Scan.toOption_uuid hs
  | .time, _, t, _, _, _, _, ht, _, hs, _ =>
    (Scan.toOption_time hs).trans (congrArg (Option.map _) (Timestamp.reread_of_common ht))
  | .json, _, _, _, _, _, _, hj, hd, hs, hrest => Scan.toOption_plain hj hd hs hrest
  | .option _, _, none, _, _, _, _, _, _, hs, _ => congrArg Except.toOption (Scan.orNull_null _ hs)
  | .option inner, hl, some v, depth, level, s, rest, hv, hd, hs, hrest => by
    rw [Shape.telling, Bool.and_eq_true, Bool.not_eq_true'] at hl
    obtain ⟨c, cs, hopens, hnull⟩ := Json.opens_write layout level (Shape.toJson_ne_float_of_exact hv)
    have hc : c ≠ 'n' := fun h => Shape.toJson_ne_null hl.2 v (hnull h)
    exact Scan.toOption_orNull _ hopens hc hs (v := some v)
      (Shape.toOption_scan_of_exact inner hl.1 v depth level hv hd hs hrest)
  | .list _, _, _, 0, _, _, _, _, hd, _, _ => nomatch hd
  | .list item, hl, vs, depth + 1, level, _, _, hvs, hd, hs, _ => by
    have hle := Nat.le_of_succ_le_succ hd
    have hread := Scan.toOption_listOf_succ item.scan hs depth (g := some)
      (fun v hv => Shape.opens_of_exact (hvs v hv) layout (level + 1))
      fun v hv _ _ hs hrest => Shape.toOption_scan_of_exact item hl v depth (level + 1) (hvs v hv)
        (Nat.le_trans (brackets_le_of_mem_items (List.mem_map_of_mem hv)) hle) hs hrest
    exact hread.trans (congrArg (Option.map _) (mapM_eq_some fun _ _ => rfl))
  | .choice _, hl, i, _, _, _, _, _, _, hs, _ =>
    congrArg Except.toOption (Scan.choice_textChars (of_decide_eq_true hl) i hs)
  | .record _ _ _, _, _, 0, _, _, _, _, hd, _, _ => nomatch hd
  | .record name lenient fields, hl, v, depth + 1, level, _, _, hv, hd, hs, _ =>
    Fields.toOption_scanRecord_succ name lenient hs depth (w := some v) fun _ _ hf hs =>
      Fields.toOption_scan_of_exact fields hl v depth level hv (Nat.le_of_succ_le_succ hd) (.refl fields depth) hf
        (congrArg skipSpaces hs)

theorem Fields.toOption_scan_of_exact : (part : Fields) → part.telling → ∀ (v : part.Val) (depth level : Nat)
    {whole : Fields} {embed : part.Slots → whole.Slots} {first : Bool} {fuel : Nat} {s rest : List Symbol},
    part.Exact v → bracketsOfFields (part.toMembers v) ≤ depth → part.Within whole depth embed → part.count < fuel →
    skipSpaces s =
      skipSpaces (front (listed layout level '}' first ((part.toMembers v).map (fieldChars layout level))) rest) →
    (Json.Scan.fields (fun n read => whole.scanField depth n read) fuel first (embed part.empty) s).toOption =
      some (embed (part.filled v), some '}' :: rest)
  | .nil, _, (), _, _, _, _, _, _ + 1, _, _, _, _, _, _, hs => congrArg Except.toOption (fields_nil _ _ hs)
  | .cons name shape _ others, hl, (v, vs), depth, level, _, _, _, fuel + 1, _, _, he, hd, hwithin, hf, hs => by
    simp only [Fields.telling, Bool.and_eq_true, Bool.not_eq_true', List.contains_eq_mem,
      decide_eq_false_iff_not] at hl
    obtain ⟨⟨hname, hshape⟩, hothers⟩ := hl
    have hv := Nat.le_trans (Nat.le_max_left _ _) hd
    have hvs := Nat.le_trans (Nat.le_max_right _ _) hd
    exact Fields.toOption_fields_cons (w := some v) (u := some vs) hname hwithin
      (Shape.opens_of_exact he.1 layout (level + 1))
      (fun s _ hs hrest => Shape.toOption_scan_of_exact shape hshape v depth (level + 1) he.1 hv hs hrest)
      (fun embed hin => Fields.toOption_scan_of_exact others hothers vs depth level he.2 hvs hin
        (Nat.lt_of_succ_lt_succ hf) rfl) hs
end

/-- The value is exact, and its brackets nest no deeper than a reader allows. -/
structure Coded.Lossless {α : Type} [Coded α] (a : α) : Prop where
  exact : (Coded.shape α).Exact (Coded.toVal a)
  brackets_le : (Coded.toJson a).brackets ≤ nesting

/-- A lossless value is written in any layout, and read back by a reader of any. -/
theorem Codec.decodeValue_of_lossless {α : Type} [Coded α] (hl : (Coded.shape α).telling) {a : α}
    (h : Coded.Lossless a) {layout layout' : Layout} {t : String}
    (ht : (Codec.json layout).encodeValue a = .ok t) :
    (Codec.json layout').decodeValue α (symbols t) = .ok a := by
  cases ht
  have hsymbols : symbols ((Coded.toJson a).toText layout) = front (write layout 0 (Coded.toJson a)) [] := by
    rw [symbols, toText, chars, String.toList_ofList, front, List.append_nil]
  have hskip : skipSpaces (front (write layout 0 (Coded.toJson a)) []) =
      front (write layout 0 (Coded.toJson a)) [] := by
    obtain ⟨c, cs, hc⟩ := Shape.opens_of_exact h.exact layout 0
    exact hc.skipSpaces_front []
  have hread : ((Coded.shape α).ofText (symbols ((Coded.toJson a).toText layout))).toOption =
      some (Coded.toVal a) := by
    rw [Shape.ofText, readAll, toOption_bind, hsymbols,
      Shape.toOption_scan_of_exact _ hl _ nesting 0 h.exact h.brackets_le hskip stops_nil]
    rfl
  have hok := toOption_eq_some_iff.mp hread
  change (((Coded.shape α).ofText (symbols ((Coded.toJson a).toText layout))).mapError _).map Coded.ofVal = _
  rw [hok]
  exact congrArg Except.ok (Coded.ofVal_toVal a)

end EventJournal
