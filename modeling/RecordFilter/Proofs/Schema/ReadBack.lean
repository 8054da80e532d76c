/-
Field configurations, written as JSON and read back.  A field may have no initial value, null, or any
other value, and its JSON has null for the first two.  So an initial null is read as none at all, and
an initial value with a number in it that JSON does not keep is read as another one; everything else
comes back as it was.

A mapper can tell the difference, because an initial null is stored or, where the field does not take
null, refused.  `survives_iff` says that the configuration that is read back makes the same mappers
exactly if it is the same configuration.
-/
import RecordFilter.Mapper.Basic
import RecordFilter.Mapper.Memory
import RecordFilter.Proofs.Record
import RecordFilter.Schema.Json

namespace RecordFilter

/-! ## Values that come back as they were -/

namespace Value

open Number

theorem reread_eq_float_iff (x : Binary64) :
    reread x = .float x ↔
      x.isFinite = true ∧ readJson? (Json.floatText x) = some (.float x) := by
  cases x with
  | nan | infinite negative =>
      refine iff_of_false (fun h => ?_) fun h => Bool.false_ne_true h.1
      cases h
  | finite negative rank =>
      have hfinite : (Binary64.finite negative rank).isFinite = true := rfl
      rw [reread, and_iff_right hfinite]
      cases readJson? (Json.floatText (.finite negative rank)) with
      | none => simp
      | some v => rw [Option.getD_some, Option.some.injEq]

/-- A value is read as itself exactly if each of its numbers is finite and is read as itself. -/
theorem mapFloats_reread_eq_self_iff {v : Value} :
    v.mapFloats reread = v ↔ v.Finite ∧ v.FloatsReadBack := by
  constructor
  · intro h
    rw [mapFloats_eq_self_iff] at h
    rw [Finite, FloatsReadBack]
    exact ⟨h.imp fun x hx => ((reread_eq_float_iff x).mp hx).1,
      h.imp fun x hx (_ : x.isFinite = true) => ((reread_eq_float_iff x).mp hx).2⟩
  · rintro ⟨hfinite, hread⟩
    rw [mapFloats_reread hread, mapFloats_eq_self_iff]
    exact hfinite.imp fun x hx => (finiteOrNull_eq_float_iff x).mpr hx

theorem eq_null_of_ofJson {j : Json} (h : ofJson j = .null) : j = .null := by
  cases j with
  | null => rfl
  | int n =>
      rw [ofJson] at h
      split at h <;> cases h
  | bool _ | float _ | string _ | array _ | object _ => cases h

end Value

theorem Json.Written.eq_null_of_toJson? {w : Written} {depth : Nat}
    (h : w.toJson? depth = some .null) : w = .null := by
  cases w with
  | null => rfl
  | bool b => cases h
  | number n =>
      rw [toJson?, Numeral.toJson?] at h
      split at h
      · cases h
      · obtain ⟨x, _, hx⟩ := Option.map_eq_some_iff.mp h
        cases hx
  | string pieces =>
      rw [toJson?] at h
      obtain ⟨s, _, hs⟩ := Option.map_eq_some_iff.mp h
      cases hs
  | array items =>
      rw [toJson?.eq_def] at h
      cases depth with
      | zero => cases h
      | succ depth =>
          obtain ⟨js, _, hjs⟩ := Option.map_eq_some_iff.mp h
          cases hjs
  | object members =>
      rw [toJson?.eq_def] at h
      cases depth with
      | zero => cases h
      | succ depth =>
          obtain ⟨read, _, hread⟩ := Option.map_eq_some_iff.mp h
          cases hread

theorem Json.Struct.fillAll?_cons {name : String} {w : Written} {names : List String}
    {slots filled : Slots} (h : fill? name w names slots = some filled)
    (rest : List (List Piece × Written)) :
    fillAll? names ((name.toList.map pieceOf, w) :: rest) slots = fillAll? names rest filled := by
  rw [fillAll?, string?_pieces]
  show (fill? name w names slots).bind (fillAll? names rest) = _
  rw [h, Option.bind_some]

/-! ## One field -/

namespace FieldConf

/-- How deep lists and maps nest in the initial value. -/
def nesting (conf : FieldConf) : Nat :=
  conf.initial.elim 0 Value.nesting

/-- What is read from the JSON of a configuration: an initial null is none, and the numbers in any
other value are reread. -/
def revived (conf : FieldConf) : FieldConf :=
  { conf with
    initial := (conf.initial.map fun v => v.mapFloats Value.reread).filter fun v => v ≠ .null }

/-- The initial value is not null, and JSON keeps every number in it. -/
def Survives (conf : FieldConf) : Prop :=
  ∀ v ∈ conf.initial, v ≠ .null ∧ v.Finite ∧ v.FloatsReadBack

theorem initial_revived_eq_iff {conf : FieldConf} :
    conf.revived.initial = conf.initial ↔ conf.Survives := by
  rw [revived, Survives]
  cases conf.initial with
  | none => simp
  | some v =>
      rw [Option.map_some, Option.filter_eq_some_iff]
      simp only [Option.some.injEq, Option.mem_some_iff, forall_eq', decide_eq_true_eq,
        Value.mapFloats_reread_eq_self_iff]
      exact and_comm

theorem revived_eq_self_iff {conf : FieldConf} : conf.revived = conf ↔ conf.Survives := by
  rw [← initial_revived_eq_iff]
  obtain ⟨dataType, initial, nullable⟩ := conf
  rw [revived, mk.injEq, and_iff_right rfl, and_iff_left rfl]

/-- Reading an initial value from its JSON: null is none, and any other value is read as a value. -/
theorem optional?_written {v : Value} (hv : v.WellFormed) (depth : Nat) :
    Json.Struct.optional? (fun w => (w.toJson? depth).map Value.ofJson) (some v.toJson.written) =
      if v.nesting ≤ depth then
        some ((some (v.mapFloats Value.reread)).filter fun v => v ≠ .null)
      else none := by
  have hread := Value.toJson?_written hv depth
  by_cases hnull : v.toJson.written = .null
  · rw [hnull] at hread ⊢
    split at hread
    · rename_i hshallow
      rw [if_pos hshallow, ← Option.some.inj hread]
      rfl
    · cases hread
  · have hoptional : Json.Struct.optional? (fun w => (w.toJson? depth).map Value.ofJson)
        (some v.toJson.written) = ((v.toJson.written.toJson? depth).map Value.ofJson).map some := by
      rw [Json.Struct.optional?]
      exact hnull
    rw [hoptional, hread]
    split
    · rename_i hshallow
      rw [if_pos hshallow] at hread
      obtain ⟨j, hj, hvalue⟩ := Option.map_eq_some_iff.mp hread
      have hne : v.mapFloats Value.reread ≠ .null := by
        intro heq
        rw [Value.eq_null_of_ofJson (hvalue.trans heq)] at hj
        exact hnull (Json.Written.eq_null_of_toJson? hj)
      rw [Option.map_some, Option.filter_some, if_pos (decide_eq_true hne)]
    · rfl

theorem read?_written_dataType (t : DataType) :
    DataType.read? (Json.string t.name).written = some t := by
  rw [Json.written, DataType.read?, Json.string?_pieces]
  exact DataType.ofName?_name t

theorem slots?_written (conf : FieldConf) :
    Json.Struct.slots? memberNames conf.toJson.written =
      some [some (Json.string conf.dataType.name).written,
        some ((conf.initial.map Value.toJson).getD .null).written, some (.bool conf.nullable)] := by
  have hmembers : conf.toJson.written = .object
      [("type".toList.map Json.pieceOf, (Json.string conf.dataType.name).written),
        ("default".toList.map Json.pieceOf, ((conf.initial.map Value.toJson).getD .null).written),
        ("nullable".toList.map Json.pieceOf, .bool conf.nullable)] := rfl
  rw [hmembers, Json.Struct.slots?, Json.Struct.fillAll?_cons rfl, Json.Struct.fillAll?_cons rfl,
    Json.Struct.fillAll?_cons rfl]
  rfl

/-- The JSON of a configuration is read if its initial value does not nest too deep. -/
theorem read?_written {conf : FieldConf} (h : ∀ v ∈ conf.initial, v.WellFormed) (depth : Nat) :
    read? depth conf.toJson.written =
      if conf.nesting ≤ depth then some conf.revived else none := by
  obtain ⟨dataType, initial, nullable⟩ := conf
  rw [read?, slots?_written]
  simp only [read?_written_dataType, Option.bind_eq_bind, Option.bind_some, Json.Struct.bool?]
  cases initial with
  | none => rfl
  | some v =>
      rw [Option.map_some, Option.getD_some, optional?_written (h v rfl), nesting, Option.elim_some]
      by_cases hshallow : v.nesting ≤ depth
      · rw [if_pos hshallow, if_pos hshallow]
        rfl
      · rw [if_neg hshallow, if_neg hshallow]
        rfl

end FieldConf

/-! ## All fields -/

namespace Schema

/-- What is read from the JSON of field configurations. -/
def revived (schema : Schema) : Schema where
  entries := schema.entries.map fun entry => (entry.1, entry.2.revived)
  ascending := by
    rw [Entries.Ascending, List.map_map]
    exact schema.ascending

/-- Maps ascend in the initial value of every field. -/
def WellFormed (schema : Schema) : Prop :=
  schema.Forall fun _ conf => ∀ v ∈ conf.initial, v.WellFormed

def Survives (schema : Schema) : Prop :=
  schema.Forall fun _ conf => conf.Survives

theorem revived_eq_self_iff {schema : Schema} : schema.revived = schema ↔ schema.Survives := by
  rw [FieldMap.mk.injEq, revived]
  nth_rewrite 2 [← List.map_id schema.entries]
  rw [List.map_inj_left]
  refine forall₂_congr fun entry _ => ?_
  rw [id, Prod.ext_iff, and_iff_right rfl]
  exact FieldConf.revived_eq_self_iff

theorem readMembers?_written {entries : List (String × FieldConf)}
    (h : ∀ entry ∈ entries, ∀ v ∈ entry.2.initial, v.WellFormed) (depth : Nat) :
    readMembers? depth
        (Json.writtenMembers (entries.map fun (name, conf) => (name, conf.toJson))) =
      if ∀ entry ∈ entries, entry.2.nesting ≤ depth then
        some (entries.map fun entry => (entry.1, entry.2.revived))
      else none := by
  induction entries with
  | nil => rfl
  | cons entry rest ih =>
      obtain ⟨name, conf⟩ := entry
      rw [List.forall_mem_cons] at h
      rw [List.map_cons, Json.writtenMembers, readMembers?, Json.string?_pieces,
        FieldConf.read?_written h.1, ih h.2]
      simp only [List.forall_mem_cons]
      by_cases hconf : conf.nesting ≤ depth
      · by_cases hrest : ∀ entry ∈ rest, entry.2.nesting ≤ depth
        · rw [if_pos hconf, if_pos hrest, if_pos ⟨hconf, hrest⟩]
          rfl
        · rw [if_pos hconf, if_neg hrest, if_neg fun hall => hrest hall.2]
      · rw [if_neg hconf]
        exact (if_neg fun hall => hconf hall.1).symm

/-- The JSON of field configurations is read if no initial value nests too deep. -/
theorem readJson?_text {schema : Schema} (h : schema.WellFormed) :
    readJson? schema.toJson.text.toList =
      if schema.Forall (fun _ conf => conf.nesting ≤ Json.depthLimit - 2) then some schema.revived
      else none := by
  have hwritten : schema.toJson.written =
      .object (Json.writtenMembers (schema.entries.map fun (name, conf) => (name, conf.toJson))) :=
    rfl
  have hsorted : FieldMap.ofList (schema.entries.map fun entry => (entry.1, entry.2.revived)) =
      schema.revived := by
    rw [FieldMap.ofList, revived, FieldMap.mk.injEq]
    exact Entries.sort_of_ascending schema.revived.ascending
  rw [readJson?, Json.text, String.toList_ofList, Json.read?_print, hwritten]
  show (readMembers? (Json.depthLimit - 2) _).map FieldMap.ofList = _
  rw [readMembers?_written h]
  by_cases hshallow : ∀ entry ∈ schema.entries, entry.2.nesting ≤ Json.depthLimit - 2
  · rw [if_pos hshallow, Option.map_some, hsorted]
    exact (if_pos hshallow).symm
  · rw [if_neg hshallow]
    exact (if_neg hshallow).symm

end Schema

/-! ## Mappers -/

namespace Mapper

variable {σ : Type} {schema : Schema}

/-- What a fresh record holds, or why there is no mapper. -/
def fresh (engine : Engine σ) (store : σ) (backend : Backend) (schema : Schema) : Except Error Row :=
  (create { backend, schema } engine store).map Mapper.initial

theorem fresh_eq (engine : Engine σ) (store : σ) (backend : Backend) (schema : Schema) :
    fresh engine store backend schema =
      (initialValues schema).traverse (storedValue { backend, schema }) := by
  rw [fresh, create]
  split
  · rename_i hinitial
    exact hinitial.symm
  · rename_i hinitial
    exact hinitial.symm

theorem mem_initialValues {field : String} {v : Value} :
    (field, v) ∈ (initialValues schema).entries ↔
      ∃ conf, (field, conf) ∈ schema.entries ∧ conf.initial = some v := by
  have hascending : Entries.Ascending
      (schema.entries.filterMap fun (field, conf) => conf.initial.map fun v => (field, v)) := by
    have hschema := schema.ascending
    rw [Entries.Ascending, List.pairwise_map] at hschema ⊢
    rw [List.pairwise_filterMap]
    refine hschema.imp fun {a b} hlt => ?_
    intro first hfirst second hsecond
    obtain ⟨v, _, rfl⟩ := Option.map_eq_some_iff.mp hfirst
    obtain ⟨w, _, rfl⟩ := Option.map_eq_some_iff.mp hsecond
    exact hlt
  show (field, v) ∈ Entries.sort _ ↔ _
  rw [Entries.sort_of_ascending hascending, List.mem_filterMap]
  constructor
  · rintro ⟨⟨name, conf⟩, hmem, hinitial⟩
    obtain ⟨w, hw, heq⟩ := Option.map_eq_some_iff.mp hinitial
    cases heq
    exact ⟨conf, hmem, hw⟩
  · rintro ⟨conf, hmem, hinitial⟩
    exact ⟨(field, conf), hmem, Option.map_eq_some_iff.mpr ⟨v, hinitial, rfl⟩⟩

/-- Flat files store every value as it is, but for null in a field that does not take it. -/
theorem eq_of_storedValue_flatFile {field : String} {v stored : Value}
    (h : storedValue { backend := .flatFile, schema } field v = .ok stored) : stored = v := by
  rw [storedValue] at h
  split at h
  · cases h
  · cases h
    rfl

theorem storedValue_flatFile {field : String} {v : Value} (h : v ≠ .null) :
    storedValue { backend := .flatFile, schema } field v = .ok v := by
  have hcheck : checkNullable schema field v = .ok () := by
    rw [checkNullable]
    split
    · rw [decide_eq_false h, Bool.false_and]
      rfl
    · rfl
  rw [storedValue, hcheck]
  rfl

/-- No initial null is left in what was read. -/
theorem fresh_flatFile_revived (engine : Engine σ) (store : σ) (schema : Schema) :
    fresh engine store .flatFile schema.revived = .ok (initialValues schema.revived) := by
  rw [fresh_eq]
  refine FieldMap.traverse_eq_self fun entry hentry => storedValue_flatFile ?_
  obtain ⟨conf, hconf, hinitial⟩ := mem_initialValues.mp hentry
  obtain ⟨⟨name, conf⟩, _, heq⟩ := List.mem_map.mp hconf
  cases heq
  exact of_decide_eq_true (Option.filter_eq_some_iff.mp hinitial).2

/-- The initial values tell a configuration from the one that is read back. -/
theorem revived_eq_of_initialValues
    (h : initialValues schema.revived = initialValues schema) : schema.revived = schema := by
  rw [Schema.revived_eq_self_iff]
  rintro ⟨field, conf⟩ hconf v hv
  have hmem : (field, v) ∈ (initialValues schema.revived).entries := by
    rw [h]
    exact mem_initialValues.mpr ⟨conf, hconf, hv⟩
  obtain ⟨conf', hconf', hv'⟩ := mem_initialValues.mp hmem
  obtain ⟨⟨name, conf''⟩, hmem', heq⟩ := List.mem_map.mp hconf'
  cases heq
  -- A field has one configuration.
  have hsame : conf'' = conf := Option.some.inj
    ((Entries.get?_of_mem schema.ascending hmem').symm.trans
      (Entries.get?_of_mem schema.ascending hconf))
  subst hsame
  exact FieldConf.initial_revived_eq_iff.mp (hv'.trans hv.symm) v hv

end Mapper

namespace Schema

/-- Field configurations are read back from their JSON if no initial value nests too deep.  They come
back as they were exactly if no initial value is null and JSON keeps every number in them, and only
then do they make the same mappers, with the same fresh record or the same error on every backend. -/
theorem survives_iff {schema : Schema} (hschema : schema.WellFormed)
    (hdepth : schema.Forall fun _ conf => conf.nesting ≤ 125) {σ : Type} (engine : Engine σ)
    (store : σ) :
    readJson? schema.toJson.text.toList = some schema.revived ∧
      (schema.revived = schema ↔ schema.Survives) ∧
      ((∀ backend, Mapper.fresh engine store backend schema.revived =
        Mapper.fresh engine store backend schema) ↔ schema.Survives) := by
  refine ⟨(readJson?_text hschema).trans (if_pos hdepth), revived_eq_self_iff, ?_⟩
  rw [← revived_eq_self_iff]
  constructor
  · intro halike
    have hfresh := halike .flatFile
    rw [Mapper.fresh_flatFile_revived, Mapper.fresh_eq] at hfresh
    exact Mapper.revived_eq_of_initialValues (FieldMap.eq_self_of_traverse
      (fun _ _ _ => Mapper.eq_of_storedValue_flatFile) hfresh.symm)
  · intro hsame backend
    rw [hsame]

/-- A whole number with a fraction, and a map in a column that does not take null. -/
def ranked : Schema where
  entries :=
    [("rank", { dataType := .float, initial := some (.float (.ofInt 5)), nullable := true }),
      ("tags",
        { dataType := .json, initial := some (.map [("a", .list [.null, .int (-5)])]),
          nullable := false }),
      ("title", { dataType := .text, initial := none, nullable := true })]
  ascending := by decide

theorem survives_iff_of_ranked :
    readJson? ranked.toJson.text.toList = some ranked ∧
      ∀ backend, Mapper.fresh Memory.engine (.ofRows []) backend ranked.revived =
        Mapper.fresh Memory.engine (.ofRows []) backend ranked := by
  have hschema : ranked.WellFormed := by
    simp [WellFormed, FieldMap.Forall, ranked, Value.WellFormed, Value.ItemsWellFormed,
      Value.FieldsWellFormed, Entries.Ascending]
  have hrank : (Value.float (.ofInt 5)).FloatsReadBack := fun _ => by decide +kernel
  have hsurvives : ranked.Survives := by
    simpa [Survives, FieldMap.Forall, ranked, FieldConf.Survives, Value.Finite,
      Value.FloatsReadBack, Value.EveryFloat, Value.EveryFloatOfFields,
      Value.EveryFloatOfItems] using And.intro (by decide +kernel) hrank
  obtain ⟨hread, hsame, halike⟩ := survives_iff hschema (by decide) Memory.engine (.ofRows [])
  rw [hsame.mpr hsurvives] at hread
  exact ⟨hread, halike.mpr hsurvives⟩

/-- Null as the initial value of a field that does not take it. -/
def nullCount : Schema where
  entries := [("num", { dataType := .int, initial := some .null, nullable := false })]
  ascending := by decide

/-- There is no mapper for this configuration, but there is one for what is read back. -/
theorem not_survives_of_nullCount :
    (nullCount.Forall fun _ conf =>
      ∀ v ∈ conf.initial, v.WellFormed ∧ v.Finite ∧ v.nesting ≤ 100) ∧
    ∃ revived, readJson? nullCount.toJson.text.toList = some revived ∧ revived ≠ nullCount ∧
      Mapper.fresh Memory.engine (.ofRows []) .flatFile nullCount =
        .error (.typeMismatch "num" "null") ∧
      Mapper.fresh Memory.engine (.ofRows []) .flatFile revived = .ok .empty := by
  refine ⟨?_, ⟨[("num", { dataType := .int, initial := none, nullable := false })], by decide⟩,
    ?_, ?_, ?_, ?_⟩
  · simp [FieldMap.Forall, nullCount, Value.WellFormed, Value.Finite, Value.EveryFloat,
      Value.nesting]
  · decide +kernel
  · decide
  · rfl
  · rfl

end Schema
end RecordFilter
