import EventJournal.Payload
import EventJournal.Proofs.Json.Bounds

/-!
Values that are read back from their plain JSON form, as payloads carry it.
-/
namespace EventJournal

open Json

/-- The value is read from its plain form. -/
def Shape.Returns (shape : Shape) (v : shape.Val) : Prop :=
  shape.ofJson (shape.toJson v).plain = .ok v

theorem Coded.ofJson_toPlain {α : Type} [Coded α] {a : α} (h : (Coded.shape α).Returns (Coded.toVal a)) :
    Coded.ofJson α (Coded.toPlain a) = .ok a := by
  have h : (Coded.shape α).ofJson (Coded.toPlain a) = .ok (Coded.toVal a) := h
  rw [Coded.ofJson, h]
  exact congrArg Except.ok (Coded.ofVal_toVal a)

theorem Payload.decode_toPlain {α : Type} [Coded α] {a : α} (h : (Coded.shape α).Returns (Coded.toVal a))
    (name : String) : Payload.decode α name (Coded.toPlain a) = .ok a := by
  rw [Payload.decode, Coded.ofJson_toPlain h]
  rfl

/-- What is decoded keeps to its limits. -/
theorem Payload.bounded_of_decode {α : Type} [Coded α] {name : String} {payload : Json} {a : α}
    (h : Payload.decode α name payload = .ok a) : ∃ v, (Coded.shape α).Bounded v ∧ Coded.ofVal v = a := by
  rw [Payload.decode, Coded.ofJson] at h
  cases hread : (Coded.shape α).ofJson payload with
  | error e =>
    rw [hread] at h
    cases h
  | ok v =>
    rw [hread] at h
    exact ⟨v, Shape.bounded_of_ofJson _ hread, Except.ok.inj h⟩

namespace Shape

theorem returns_text (t : String) : Shape.text.Returns t := rfl

theorem returns_uuid (u : Uuid) : Shape.uuid.Returns u := by
  change (Uuid.ofText u.text).mapError _ = .ok u
  rw [Uuid.ofText_text]
  rfl

theorem returns_nat {limit n : Nat} (width : String) (h : n ≤ limit) : (Shape.nat limit width).Returns n :=
  if_pos ⟨Int.natCast_nonneg n, h⟩

theorem plainItems_eq (js : List Json) : plainItems js = js.map plain := by
  induction js with
  | nil => rfl
  | cons j js ih => rw [plainItems, ih, List.map_cons]

theorem mapM_returns {item : Shape} {vs : List item.Val} (h : ∀ v ∈ vs, item.Returns v) :
    (vs.map fun v => (item.toJson v).plain).mapM item.ofJson = .ok vs := by
  induction vs with
  | nil => rfl
  | cons v vs ih =>
    have hv : item.ofJson (item.toJson v).plain = .ok v := h v List.mem_cons_self
    rw [List.map_cons, List.mapM_cons, hv, ih fun w hw => h w (List.mem_cons_of_mem v hw)]
    rfl

theorem returns_list {item : Shape} {vs : List item.Val} (h : ∀ v ∈ vs, item.Returns v) :
    (Shape.list item).Returns vs := by
  have hplain : (Json.list (vs.map item.toJson)).plain = .list (vs.map fun v => (item.toJson v).plain) := by
    rw [plain, plainItems_eq, List.map_map]
    rfl
  change (Shape.list item).ofJson (Json.list (vs.map item.toJson)).plain = .ok vs
  rw [hplain]
  exact mapM_returns h

end Shape

namespace Fields

variable {n name : String} {item : Shape} {absent : Option Json} {others : Fields} {j : Json}

theorem putJson_self {w : item.Val} (v : Option item.Val) (slots : others.Slots) (h : item.ofJson j = .ok w) :
    putJson name j (cons name item absent others) (slot v slots) = .ok (slot (some w) slots) := by
  change (if name = name then do return slot (some (← item.ofJson j)) slots
    else do return slot v (← putJson name j others slots)) =
      (.ok (slot (some w) slots) : Except Reason (cons name item absent others).Slots)
  rw [if_pos rfl, h]
  rfl

theorem putJson_other {slots slots' : others.Slots} (hn : name ≠ n) (v : Option item.Val)
    (h : putJson n j others slots = .ok slots') :
    putJson n j (cons name item absent others) (slot v slots) = .ok (slot v slots') := by
  change (if name = n then do return slot (some (← item.ofJson j)) slots
    else do return slot v (← putJson n j others slots)) =
      (.ok (slot v slots') : Except Reason (cons name item absent others).Slots)
  rw [if_neg hn, h]
  rfl

/-- The fields of an object are put one after the other. -/
def putAll (fields : Fields) (members : List (String × Json)) (slots : fields.Slots) : Except Reason fields.Slots :=
  members.foldlM (fun read (n, v) => fields.putJson n v read) slots

theorem putAll_cons {fields : Fields} {members : List (String × Json)} {slots slots' : fields.Slots}
    (h : putJson n j fields slots = .ok slots') :
    fields.putAll ((n, j) :: members) slots = fields.putAll members slots' := by
  rw [putAll, List.foldlM_cons]
  dsimp only
  rw [h]
  rfl

end Fields

theorem Shape.ofJson_object {fields : Fields} {members : List (String × Json)} {v : fields.Val} (name : String)
    (lenient : Bool) (h : fields.putAll members fields.empty = .ok (fields.filled v)) :
    (Shape.record name lenient fields).ofJson (.object members) = .ok v := by
  change (fields.putAll members fields.empty >>= fun read => fields.close read) = .ok v
  rw [h]
  exact fields.close_filled v

/-- A record of two fields, in whatever order their names are. -/
theorem Shape.returns_pair {a b : String} {A B : Shape} {va : A.Val} {vb : B.Val} (name : String) (lenient : Bool)
    (hab : a ≠ b) (ha : A.Returns va) (hb : B.Returns vb) :
    (Shape.record name lenient (.required a A (.required b B .nil))).Returns (va, vb, ()) := by
  have hput : ∀ (v : Option A.Val) (w : Option B.Val),
      Fields.putJson a (A.toJson va).plain (.required a A (.required b B .nil)) (Fields.slot v (Fields.slot w ())) =
        .ok (Fields.slot (some va) (Fields.slot w ())) :=
    fun v w => Fields.putJson_self v _ ha
  have hput' : ∀ (v : Option A.Val) (w : Option B.Val),
      Fields.putJson b (B.toJson vb).plain (.required a A (.required b B .nil)) (Fields.slot v (Fields.slot w ())) =
        .ok (Fields.slot v (Fields.slot (some vb) ())) :=
    fun v w => Fields.putJson_other hab v (Fields.putJson_self w (Fields.empty .nil) hb)
  change (Shape.record name lenient _).ofJson
    (.object (insertField b (B.toJson vb).plain [(a, (A.toJson va).plain)])) = .ok _
  by_cases hlt : b < a
  · rw [insertField, if_pos hlt]
    apply ofJson_object
    exact (Fields.putAll_cons (hput' none none)).trans (Fields.putAll_cons (hput none (some vb)))
  · rw [insertField, if_neg hlt, if_neg hab.symm]
    apply ofJson_object
    exact (Fields.putAll_cons (hput none none)).trans (Fields.putAll_cons (hput' (some va) none))

end EventJournal
