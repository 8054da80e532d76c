/-
One record in three forms: a row, a hash table and a JSON object.  A value is turned into JSON and
back without a loss, unless there is a number in it that is not finite; such a number comes back as
null.  So the three forms of a record of finite values have the same fields, and no filter tells them
apart: `holds_alike`.
-/
import RecordFilter.Proofs.Codec.Json
import RecordFilter.Proofs.Evaluation
import RecordFilter.Proofs.FieldMap

namespace RecordFilter

/-! ## Values in JSON -/

namespace Value

/-- Every number in a value is finite. -/
def Finite (v : Value) : Prop :=
  v.EveryFloat fun x => x.isFinite = true

mutual
/-- What comes back from JSON is the value, with null for every number that is not finite. -/
theorem ofJson_toJson_eq {v : Value} (hv : v.WellFormed) :
    ofJson v.toJson = v.mapFloats finiteOrNull := by
  match v with
  | .null | .bool _ | .int _ | .str _ => simp [toJson, ofJson, Number.word?_toInt, mapFloats]
  | .float x =>
      rw [toJson, mapFloats, finiteOrNull]
      split <;> rw [ofJson]
  | .list items =>
      rw [WellFormed] at hv
      rw [toJson, ofJson, mapFloats, ofJsonItems_toJsonItems hv]
  | .map fields =>
      rw [WellFormed] at hv
      have hfields := ofJsonMembers_toJsonMembers hv.2
      have hascending : Entries.Ascending (mapFloatsOfFields finiteOrNull fields) := by
        rw [Entries.Ascending, map_fst_mapFloatsOfFields]
        exact hv.1
      rw [toJson, ofJson, ofFields, hfields, Entries.sort_of_ascending hascending, mapFloats]

theorem ofJsonItems_toJsonItems {items : List Value} (hitems : ItemsWellFormed items) :
    ofJsonItems (toJsonItems items) = mapFloatsOfItems finiteOrNull items := by
  match items with
  | [] => rfl
  | v :: rest =>
      rw [ItemsWellFormed] at hitems
      rw [toJsonItems, ofJsonItems, mapFloatsOfItems, ofJson_toJson_eq hitems.1,
        ofJsonItems_toJsonItems hitems.2]

theorem ofJsonMembers_toJsonMembers {fields : List (String × Value)}
    (hfields : FieldsWellFormed fields) :
    ofJsonMembers (toJsonMembers fields) = mapFloatsOfFields finiteOrNull fields := by
  match fields with
  | [] => rfl
  | (name, v) :: rest =>
      rw [FieldsWellFormed] at hfields
      rw [toJsonMembers, ofJsonMembers, mapFloatsOfFields, ofJson_toJson_eq hfields.1,
        ofJsonMembers_toJsonMembers hfields.2]
end

section

variable {g : Number.Binary64 → Value}

mutual
/-- Replacing the numbers of a value leaves it as it is exactly if it leaves each of them. -/
theorem mapFloats_eq_self_iff {v : Value} :
    v.mapFloats g = v ↔ v.EveryFloat fun x => g x = .float x := by
  match v with
  | .null | .bool _ | .int _ | .str _ => simp [mapFloats, EveryFloat]
  | .float x => rw [mapFloats, EveryFloat]
  | .list items => rw [mapFloats, EveryFloat, list.injEq, mapFloatsOfItems_eq_self_iff]
  | .map fields => rw [mapFloats, EveryFloat, map.injEq, mapFloatsOfFields_eq_self_iff]

theorem mapFloatsOfItems_eq_self_iff {items : List Value} :
    mapFloatsOfItems g items = items ↔ EveryFloatOfItems (fun x => g x = .float x) items := by
  match items with
  | [] => simp [mapFloatsOfItems, EveryFloatOfItems]
  | v :: rest =>
      rw [mapFloatsOfItems, EveryFloatOfItems, List.cons.injEq, mapFloats_eq_self_iff,
        mapFloatsOfItems_eq_self_iff]

theorem mapFloatsOfFields_eq_self_iff {fields : List (String × Value)} :
    mapFloatsOfFields g fields = fields ↔
      EveryFloatOfFields (fun x => g x = .float x) fields := by
  match fields with
  | [] => simp [mapFloatsOfFields, EveryFloatOfFields]
  | (name, v) :: rest =>
      rw [mapFloatsOfFields, EveryFloatOfFields, List.cons.injEq, Prod.mk.injEq,
        mapFloats_eq_self_iff, mapFloatsOfFields_eq_self_iff, and_iff_right rfl]
end

end

theorem finiteOrNull_eq_float_iff (x : Number.Binary64) :
    finiteOrNull x = .float x ↔ x.isFinite = true := by
  rw [finiteOrNull]
  split
  · rename_i hfinite
    exact iff_of_true rfl hfinite
  · rename_i hfinite
    exact iff_of_false (fun h => nomatch h) hfinite

/-- A value comes back from JSON as it was exactly if all of its numbers are finite. -/
theorem ofJson_toJson_eq_self_iff {v : Value} (hv : v.WellFormed) :
    ofJson v.toJson = v ↔ v.Finite := by
  simp only [ofJson_toJson_eq hv, mapFloats_eq_self_iff, Finite, finiteOrNull_eq_float_iff]

end Value

/-! ## Records -/

/-- JSON can hold every value of the row. -/
def FieldMap.AllFinite (row : Row) : Prop :=
  row.Forall fun _ v => v.WellFormed ∧ v.Finite

theorem field?_hashRow (row : Row) (name : String) :
    Record.field? (hashRow row) name = Record.field? row name := by
  show (Std.HashMap.ofList row.entries)[name]? = Entries.get? name row.entries
  have hdistinct : row.entries.Pairwise fun a b => (a.1 == b.1) = false := by
    refine (List.pairwise_map.mp row.ascending).imp fun {a b} hlt => ?_
    refine beq_eq_false_iff_ne.mpr fun heq => ?_
    rw [heq] at hlt
    exact String.lt_irrefl b.1 hlt
  cases hget : Entries.get? name row.entries with
  | none =>
      have hnot := Entries.get?_eq_none_iff.mp hget
      exact Std.HashMap.getElem?_ofList_of_contains_eq_false (by simpa using hnot)
  | some v =>
      exact Std.HashMap.getElem?_ofList_of_mem BEq.rfl hdistinct (Entries.mem_of_get? hget)

theorem member?_toJsonMembers (name : String) (fields : List (String × Value)) :
    Json.member? name (Value.toJsonMembers fields) = (Entries.get? name fields).map Value.toJson := by
  induction fields with
  | nil => rfl
  | cons first rest ih =>
      obtain ⟨k, v⟩ := first
      rw [Value.toJsonMembers, Json.member?, Entries.get?, ih]
      by_cases heq : name = k
      · rw [if_pos heq, if_pos heq.symm, Option.map_some]
      · rw [if_neg heq, if_neg (Ne.symm heq)]

theorem field?_ofRow {row : Row} (h : row.AllFinite) (name : String) :
    Record.field? (JsonRecord.ofRow row) name = Record.field? row name := by
  show (Json.member? name (Value.toJsonMembers row.entries)).map Value.ofJson =
    Entries.get? name row.entries
  rw [member?_toJsonMembers]
  cases hget : Entries.get? name row.entries with
  | none => rfl
  | some v =>
      obtain ⟨hv, hfinite⟩ := h (name, v) (Entries.mem_of_get? hget)
      exact congrArg some ((Value.ofJson_toJson_eq_self_iff hv).mpr hfinite)

/-- A value comes back from JSON as it was exactly if all of its numbers are finite.  A tree, and each
clause of it, has one answer for a row, for the row as a hash table, and for a row of finite values
also as a JSON object. -/
theorem holds_alike :
    (∀ v : Value, v.WellFormed → (Value.ofJson v.toJson = v ↔ v.Finite)) ∧
      ∀ (t : Tree) (row : Row),
        (t.holds (hashRow row) = t.holds row ∧
          ∀ clause ∈ t.leaves, clause.holds (hashRow row) = clause.holds row) ∧
        (row.AllFinite →
          t.holds (JsonRecord.ofRow row) = t.holds row ∧
            ∀ clause ∈ t.leaves, clause.holds (JsonRecord.ofRow row) = clause.holds row) := by
  refine ⟨fun v hv => Value.ofJson_toJson_eq_self_iff hv, fun t row => ⟨⟨?_, ?_⟩, fun h => ⟨?_, ?_⟩⟩⟩
  · exact Tree.holds_congr fun name _ => field?_hashRow row name
  · intro clause _
    exact Tree.holds_congr (t := .leaf clause) fun name _ => field?_hashRow row name
  · exact Tree.holds_congr fun name _ => field?_ofRow h name
  · intro clause _
    exact Tree.holds_congr (t := .leaf clause) fun name _ => field?_ofRow h name

/-- A list of a whole number that is no integer, and of the least integer. -/
def limitsList : Value :=
  .list [.float (.ofInt 5), .int (-9223372036854775808)]

def limitsRow : Row :=
  { entries := [("meta", .map [("a", limitsList)]), ("n", .int 9223372036854775807)]
    ascending := by decide }

def limitsTree : Tree :=
  .all [.leaf (.bare "meta"),
    .leaf (.compare "n" .ge (.value (.int 9223372036854775807)) .placeholder)]

theorem holds_alike_of_limits :
    Value.ofJson limitsList.toJson = limitsList ∧ limitsRow.AllFinite ∧
      limitsTree.holds (hashRow limitsRow) = true ∧
      limitsTree.holds (JsonRecord.ofRow limitsRow) = true := by
  have hfive : (Number.Binary64.ofInt 5).isFinite = true := by decide +kernel
  have hlist : limitsList.WellFormed ∧ limitsList.Finite :=
    ⟨⟨trivial, trivial, trivial⟩, hfive, trivial, trivial⟩
  have hrow : limitsRow.AllFinite := by
    refine List.forall_mem_cons.mpr ⟨⟨?_, ?_⟩, List.forall_mem_singleton.mpr ⟨trivial, trivial⟩⟩
    · exact ⟨by decide, hlist.1, trivial⟩
    · exact ⟨hlist.2, trivial⟩
  have hholds : limitsTree.holds limitsRow = true := by decide +kernel
  obtain ⟨hvalues, htrees⟩ := holds_alike
  obtain ⟨⟨hhash, _⟩, hjson⟩ := htrees limitsTree limitsRow
  exact ⟨(hvalues limitsList hlist.1).mpr hlist.2, hrow, hhash.trans hholds,
    (hjson hrow).1.trans hholds⟩

end RecordFilter
