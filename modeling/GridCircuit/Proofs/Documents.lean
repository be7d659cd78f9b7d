import GridCircuit.Document
import GridCircuit.Proofs.JsonRoundTrip
import GridCircuit.Proofs.Maps
import Mathlib.Data.List.Count

/-!
# Documents and their texts

A document is read from its JSON as it was written, whatever it holds.
-/

namespace GridCircuit

namespace Json

theorem intWithin?_eq {lo hi n : Int} (hlo : lo ≤ n) (hhi : n < hi) :
    (int n).intWithin? lo hi = some n := by
  rw [intWithin?, if_pos ⟨hlo, hhi⟩]

theorem uint64?_int (n : UInt64) : (int n.toNat).uint64? = some n := by
  have hn := n.toNat_lt_size
  rw [uint64?, intWithin?_eq (by omega) (by omega), Option.map_some, Int.toNat_natCast,
    UInt64.ofNat_toNat]

theorem uint32?_int (n : UInt32) : (int n.toNat).uint32? = some n := by
  have hn := n.toNat_lt_size
  rw [uint32?, intWithin?_eq (by omega) (by omega), Option.map_some, Int.toNat_natCast,
    UInt32.ofNat_toNat]

theorem int32?_int (n : Int32) : (int n.toInt).int32? = some n := by
  have hmin := n.minValue_le_toInt
  have hmax := n.toInt_le
  rw [int32?, intWithin?_eq hmin (by omega), Option.map_some, Int32.ofInt_toInt]

/-- A record is found by its fields. -/
theorem record?_record (names : List String) (fields : List (String × Json))
    (h : (fields.map (·.1)).Nodup) : (record fields).record? names =
      some fun n => (fields.find? (·.1 = n)).map (·.2) := by
  have hkeys : (fields.map fun f => (some f.1, f.2)).map (·.1) = (fields.map (·.1)).map some := by
    rw [List.map_map, List.map_map]
    rfl
  have hsome : ((fields.map (·.1)).map some).all Option.isSome = true := by
    rw [List.all_map, List.all_eq_true]
    exact fun _ _ => rfl
  have hcount : names.all (fun n => decide (((fields.map (·.1)).map some).count (some n) ≤ 1)) =
      true := by
    rw [List.all_eq_true]
    intro n _
    rw [decide_eq_true_iff, List.count_map_of_injective _ _ (Option.some_injective _)]
    exact List.nodup_iff_count_le_one.1 h n
  rw [record, record?]
  simp only [hkeys, hsome, hcount, Bool.and_self, if_true]
  congr 1
  funext n
  rw [List.find?_map, Option.map_map]
  have hfound : ((fun f : Option String × Json => decide (f.1 = some n)) ∘
      fun f : String × Json => (some f.1, f.2)) = fun f => decide (f.1 = n) := by
    funext f
    simp only [Function.comp_apply, Option.some.injEq]
  rw [hfound]
  rfl

/-- What is encoded item by item is decoded item by item. -/
theorem mapM_map_eq {α β : Type} {encode : α → β} {decode : β → Option α}
    (h : ∀ a, decode (encode a) = some a) (xs : List α) : (xs.map encode).mapM decode = some xs := by
  induction xs with
  | nil => rfl
  | cons x xs ih =>
    rw [List.map_cons, List.mapM_cons, h, ih]
    rfl

end Json

namespace Document

open Json

theorem posOfJson?_posToJson (p : Pos) : posOfJson? (posToJson p) = some p := by
  have hfields := record?_record ["x", "y"] [("x", .int p.x.toInt), ("y", .int p.y.toInt)] (by simp)
  simp [posOfJson?, posToJson, hfields, int32?_int]

theorem entryOfJson?_record (pos block : Json) :
    entryOfJson? (.record [("pos", pos), ("block", block)]) =
      (posOfJson? pos).bind fun p => block.uint32?.bind fun n => some ⟨p, n⟩ := by
  have hfields := record?_record ["pos", "block"] [("pos", pos), ("block", block)] (by simp)
  simp [entryOfJson?, hfields]

theorem entryOfJson?_entryToJson (e : BlockEntry) : entryOfJson? (entryToJson e) = some e := by
  rw [entryToJson, entryOfJson?_record, posOfJson?_posToJson, uint32?_int]
  rfl

theorem componentsOfJson?_record (m : KeyMap String String) :
    componentsOfJson? (.record (m.entries.map fun e => (e.1, .ofText e.2))) = some m := by
  have hmap : (m.entries.map fun e => (e.1, Json.ofText e.2)).map (fun f => (some f.1, f.2)) =
      m.entries.map fun e => (some e.1, Json.ofText e.2) := by
    rw [List.map_map]
    rfl
  have hdecode : ∀ e : String × String, componentOfJson? (some e.1, Json.ofText e.2) = some e :=
    fun _ => rfl
  rw [record, hmap, componentsOfJson?, mapM_map_eq hdecode, Option.map_some, KeyMap.ofList_entries]

theorem ofJson?_record (width height components : Json) (blocks : List Json) :
    ofJson? (.record [("width", width), ("height", height), ("blocks", .array blocks),
        ("components", components)]) =
      width.uint64?.bind fun w => height.uint64?.bind fun h =>
        (blocks.mapM entryOfJson?).bind fun bs => (componentsOfJson? components).bind fun cs =>
          some ⟨w, h, bs, cs⟩ := by
  have hfields := record?_record fieldNames [("width", width), ("height", height),
    ("blocks", .array blocks), ("components", components)] (by simp)
  simp [ofJson?, hfields, orDefault, items?]

theorem ofJson?_toJson (d : Document) : ofJson? d.toJson = some d := by
  rw [toJson, ofJson?_record, uint64?_int, uint64?_int, mapM_map_eq entryOfJson?_entryToJson,
    componentsOfJson?_record]
  rfl

/-- The text of a document says what is in it. -/
theorem decode_render (d : Document) : (Json.parse? d.render).bind ofJson? = some d := by
  rw [render, pretty, parse?_writeAt, Option.bind_some, ofJson?_toJson]

/-- A document is read back from its text as it was. The text decodes, so what is read is not the blank
document that stands for malformed texts. -/
theorem parse_render (d : Document) :
    (Json.parse? d.render).bind ofJson? = some d ∧ parse d.render = d := by
  have hdecode := decode_render d
  refine ⟨hdecode, ?_⟩
  rw [parse, hdecode, Option.getD_some]

end Document

end GridCircuit
