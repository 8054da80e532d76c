/-
JSON columns, written and read back.  A value is read back as it was written, except for the numbers
with a fraction in it: one that is not finite comes back as null, and every other one as the number
that is read from its text.  Values in which lists and maps nest too deep are refused.
-/
import RecordFilter.Codec.Basic
import RecordFilter.Proofs.Codec.Listing
import RecordFilter.Proofs.Json.Floats
import RecordFilter.Proofs.Json.Members
import RecordFilter.Proofs.Json.Printed

namespace RecordFilter
namespace Value

open Number
open Json (intNumeral floatNumeral written writtenItems writtenMembers)

/-! ## Numbers in a value -/

section

variable (g : Binary64 → Value)

mutual
/-- A value in which every number with a fraction is replaced. -/
def mapFloats : Value → Value
  | .float x => g x
  | .list items => .list (mapFloatsOfItems items)
  | .map fields => .map (mapFloatsOfFields fields)
  | v => v

def mapFloatsOfItems : List Value → List Value
  | [] => []
  | v :: rest => mapFloats v :: mapFloatsOfItems rest

def mapFloatsOfFields : List (String × Value) → List (String × Value)
  | [] => []
  | (name, v) :: rest => (name, mapFloats v) :: mapFloatsOfFields rest
end

end

section

variable (p : Binary64 → Prop)

mutual
/-- Every number with a fraction in a value has a property. -/
def EveryFloat : Value → Prop
  | .float x => p x
  | .list items => EveryFloatOfItems items
  | .map fields => EveryFloatOfFields fields
  | _ => True

def EveryFloatOfItems : List Value → Prop
  | [] => True
  | v :: rest => EveryFloat v ∧ EveryFloatOfItems rest

def EveryFloatOfFields : List (String × Value) → Prop
  | [] => True
  | (_, v) :: rest => EveryFloat v ∧ EveryFloatOfFields rest
end

end

/-- A number, or null if it is not finite. -/
def finiteOrNull (x : Binary64) : Value :=
  if x.isFinite then .float x else .null

/-- What is read from the text of a number. -/
def reread (x : Binary64) : Value :=
  (readJson? (Json.floatText x)).getD .null

/-- Every finite number in a value is read as itself from its text.  This is up to the number: the
reader does not always find the nearest one. -/
def FloatsReadBack (v : Value) : Prop :=
  v.EveryFloat fun x => x.isFinite = true → readJson? (Json.floatText x) = some (.float x)

-- One of the numbers that are read as a neighbour, 10^-23.
example : reread (Decimal.toBinary64 false ⟨1, -23⟩) ≠
    .float (Decimal.toBinary64 false ⟨1, -23⟩) := by
  decide +kernel

section

variable {g : Binary64 → Value}

@[simp] theorem map_fst_mapFloatsOfFields (fields : List (String × Value)) :
    (mapFloatsOfFields g fields).map Prod.fst = fields.map Prod.fst := by
  induction fields with
  | nil => rfl
  | cons entry rest ih =>
      obtain ⟨name, v⟩ := entry
      rw [mapFloatsOfFields, List.map_cons, List.map_cons, ih]

variable {g' : Binary64 → Value} {p : Binary64 → Prop}

mutual
/-- Numbers are replaced alike if they are alike as far as the numbers of the value go. -/
theorem mapFloats_congr (hg : ∀ x, p x → g x = g' x) {v : Value} (h : v.EveryFloat p) :
    v.mapFloats g = v.mapFloats g' := by
  match v with
  | .float x => exact hg x h
  | .list items =>
      rw [EveryFloat] at h
      rw [mapFloats, mapFloats, mapFloatsOfItems_congr hg h]
  | .map fields =>
      rw [EveryFloat] at h
      rw [mapFloats, mapFloats, mapFloatsOfFields_congr hg h]
  | .null | .bool _ | .int _ | .str _ => simp [mapFloats]

theorem mapFloatsOfItems_congr (hg : ∀ x, p x → g x = g' x) {items : List Value}
    (h : EveryFloatOfItems p items) :
    mapFloatsOfItems g items = mapFloatsOfItems g' items := by
  match items with
  | [] => rfl
  | v :: rest =>
      rw [EveryFloatOfItems] at h
      rw [mapFloatsOfItems, mapFloatsOfItems, mapFloats_congr hg h.1, mapFloatsOfItems_congr hg h.2]

theorem mapFloatsOfFields_congr (hg : ∀ x, p x → g x = g' x) {fields : List (String × Value)}
    (h : EveryFloatOfFields p fields) :
    mapFloatsOfFields g fields = mapFloatsOfFields g' fields := by
  match fields with
  | [] => rfl
  | (name, v) :: rest =>
      rw [EveryFloatOfFields] at h
      rw [mapFloatsOfFields, mapFloatsOfFields, mapFloats_congr hg h.1,
        mapFloatsOfFields_congr hg h.2]
end

end

section

variable {p q : Binary64 → Prop}

mutual
theorem EveryFloat.imp (hpq : ∀ x, p x → q x) {v : Value} (h : v.EveryFloat p) :
    v.EveryFloat q := by
  match v with
  | .null | .bool _ | .int _ | .str _ => simp [EveryFloat]
  | .float x => exact hpq x h
  | .list items =>
      rw [EveryFloat] at h ⊢
      exact EveryFloatOfItems.imp hpq h
  | .map fields =>
      rw [EveryFloat] at h ⊢
      exact EveryFloatOfFields.imp hpq h

theorem EveryFloatOfItems.imp (hpq : ∀ x, p x → q x) {items : List Value}
    (h : EveryFloatOfItems p items) : EveryFloatOfItems q items := by
  match items with
  | [] => trivial
  | v :: rest =>
      rw [EveryFloatOfItems] at h ⊢
      exact ⟨h.1.imp hpq, EveryFloatOfItems.imp hpq h.2⟩

theorem EveryFloatOfFields.imp (hpq : ∀ x, p x → q x) {fields : List (String × Value)}
    (h : EveryFloatOfFields p fields) : EveryFloatOfFields q fields := by
  match fields with
  | [] => trivial
  | (name, v) :: rest =>
      rw [EveryFloatOfFields] at h ⊢
      exact ⟨h.1.imp hpq, EveryFloatOfFields.imp hpq h.2⟩
end

end

/-! ## Reading back -/

theorem readJson?_print (j : Json) :
    readJson? j.print = (j.written.toJson? Json.depthLimit).map ofJson := by
  rw [readJson?, Json.read?, Json.read?_print, Option.bind_some]

/-- A number is read from its text, whatever is around it. -/
theorem toJson?_written_float (x : Binary64) (depth : Nat) :
    ((toJson (.float x)).written.toJson? depth).map ofJson = some (reread x) := by
  cases x with
  | nan => rfl
  | infinite negative => rfl
  | finite negative rank =>
      obtain ⟨y, hy⟩ := Option.isSome_iff_exists.mp
        (Json.isSome_toFloat?_floatNumeral negative rank.isLt)
      have hread : ∀ depth, (written (.float (.finite negative rank))).toJson? depth =
          some (.float y) := by
        intro depth
        rw [written, Json.Written.toJson?, Json.Numeral.toJson?, Json.toInt?_floatNumeral, hy]
        rfl
      have hreread : reread (.finite negative rank) = .float y := by
        have hprint := readJson?_print (.float (.finite negative rank))
        rw [hread] at hprint
        rw [reread]
        exact congrArg (fun read => Option.getD read Value.null) hprint
      rw [hreread]
      show ((written (.float (.finite negative rank))).toJson? depth).map ofJson = _
      rw [hread]
      rfl

theorem toJson?_written_int (n : Int64) (depth : Nat) :
    ((toJson (.int n)).written.toJson? depth).map ofJson = some (.int n) := by
  have hlow : leastWord ≤ n.toInt := Int64.le_toInt n
  have hhigh : n.toInt < wordCount := Int.lt_of_le_of_lt (Int64.toInt_le n) (by decide)
  rw [toJson, written, Json.Written.toJson?, Json.toJson?_intNumeral hlow hhigh, Option.map_some,
    ofJson, word?_toInt]

theorem map_fst_ofJsonMembers (members : List (String × Json)) :
    (ofJsonMembers members).map Prod.fst = members.map Prod.fst := by
  induction members with
  | nil => rfl
  | cons member rest ih =>
      obtain ⟨name, j⟩ := member
      rw [ofJsonMembers, List.map_cons, List.map_cons, ih]

/-- An object whose members are the entries of a map is read as that map. -/
theorem ofJson_collect {members : List (String × Json)} {fields : List (String × Value)}
    (h : ofJsonMembers members = fields) (hfields : Entries.Ascending fields) :
    ofJson (.object (Json.collect members)) = .map fields := by
  have hnames : members.map Prod.fst = fields.map Prod.fst := by
    rw [← h, map_fst_ofJsonMembers]
  have hnodup : (members.map Prod.fst).Nodup := by
    rw [hnames]
    refine List.Pairwise.imp ?_ hfields
    rintro name _ hlt rfl
    exact String.lt_irrefl name hlt
  rw [Json.collect_eq_self_iff.mpr hnodup, ofJson, h, ofFields, Entries.sort_of_ascending hfields]

/-- A reader with a result exactly under a condition. -/
theorem cases_of_map_eq {α β : Type} {x : Option α} {f : α → β} {b : β} {c : Prop} [Decidable c]
    (h : x.map f = if c then some b else none) :
    (c ∧ ∃ a, x = some a ∧ f a = b) ∨ (¬ c ∧ x = none) := by
  cases x with
  | none =>
      split at h
      · cases h
      · rename_i hc
        exact Or.inr ⟨hc, rfl⟩
  | some a =>
      split at h
      · rename_i hc
        exact Or.inl ⟨hc, a, rfl, Option.some.inj h⟩
      · cases h

mutual
/-- A value is read back with its numbers reread, if it does not nest deeper than it may. -/
theorem toJson?_written {v : Value} (hv : v.WellFormed) (depth : Nat) :
    (v.toJson.written.toJson? depth).map ofJson =
      if v.nesting ≤ depth then some (v.mapFloats reread) else none := by
  match v with
  | .null => rfl
  | .bool b => rfl
  | .int n => exact toJson?_written_int n depth
  | .float x => exact toJson?_written_float x depth
  | .str s =>
      rw [toJson, written, Json.Written.toJson?, Json.string?_pieces]
      rfl
  | .list items =>
      rw [WellFormed] at hv
      rw [toJson, written, nesting, mapFloats]
      cases depth with
      | zero => rfl
      | succ depth =>
          rw [Json.Written.toJson?.eq_def]
          simp only [Nat.add_le_add_iff_right]
          rcases cases_of_map_eq (toItems?_written hv depth) with
            ⟨hshallow, js, hjs, hitems⟩ | ⟨hdeep, hnone⟩
          · rw [hjs, if_pos hshallow, ← hitems]
            rfl
          · rw [hnone, if_neg hdeep]
            rfl
  | .map fields =>
      rw [WellFormed] at hv
      rw [toJson, written, nesting, mapFloats]
      cases depth with
      | zero => rfl
      | succ depth =>
          have hascending : Entries.Ascending (mapFloatsOfFields reread fields) := by
            rw [Entries.Ascending, map_fst_mapFloatsOfFields]
            exact hv.1
          rw [Json.Written.toJson?.eq_def]
          simp only [Nat.add_le_add_iff_right]
          rcases cases_of_map_eq (toMembers?_written hv.2 depth) with
            ⟨hshallow, members, hmembers, hfields⟩ | ⟨hdeep, hnone⟩
          · rw [hmembers, if_pos hshallow]
            exact congrArg some (ofJson_collect hfields hascending)
          · rw [hnone, if_neg hdeep]
            rfl

theorem toItems?_written {items : List Value} (hitems : ItemsWellFormed items) (depth : Nat) :
    (Json.Written.toItems? depth (writtenItems (toJsonItems items))).map ofJsonItems =
      if nestingOfItems items ≤ depth then some (mapFloatsOfItems reread items) else none := by
  match items with
  | [] => rfl
  | v :: rest =>
      rw [ItemsWellFormed] at hitems
      rw [toJsonItems, writtenItems, Json.Written.toItems?, nestingOfItems, mapFloatsOfItems]
      simp only [Nat.max_le]
      rcases cases_of_map_eq (toJson?_written hitems.1 depth) with
        ⟨hshallow, j, hj, hv⟩ | ⟨hdeep, hnone⟩
      · rcases cases_of_map_eq (toItems?_written hitems.2 depth) with
          ⟨hshallowRest, js, hjs, hrest⟩ | ⟨hdeepRest, hnoneRest⟩
        · rw [hj, hjs, if_pos ⟨hshallow, hshallowRest⟩, ← hv, ← hrest]
          rfl
        · rw [hj, hnoneRest, if_neg fun h => hdeepRest h.2]
          rfl
      · rw [hnone, if_neg fun h => hdeep h.1]
        rfl

theorem toMembers?_written {fields : List (String × Value)} (hfields : FieldsWellFormed fields)
    (depth : Nat) :
    (Json.Written.toMembers? depth (writtenMembers (toJsonMembers fields))).map ofJsonMembers =
      if nestingOfFields fields ≤ depth then some (mapFloatsOfFields reread fields) else none := by
  match fields with
  | [] => rfl
  | (name, v) :: rest =>
      rw [FieldsWellFormed] at hfields
      rw [toJsonMembers, writtenMembers, Json.Written.toMembers?, Json.string?_pieces,
        nestingOfFields, mapFloatsOfFields]
      simp only [Nat.max_le]
      rcases cases_of_map_eq (toJson?_written hfields.1 depth) with
        ⟨hshallow, j, hj, hv⟩ | ⟨hdeep, hnone⟩
      · rcases cases_of_map_eq (toMembers?_written hfields.2 depth) with
          ⟨hshallowRest, members, hmembers, hrest⟩ | ⟨hdeepRest, hnoneRest⟩
        · rw [hj, hmembers, if_pos ⟨hshallow, hshallowRest⟩, ← hv, ← hrest]
          rfl
        · rw [hj, hnoneRest, if_neg fun h => hdeepRest h.2]
          rfl
      · rw [hnone, if_neg fun h => hdeep h.1]
        rfl
end

/-- A number that is read as itself is left alone, and one that is not finite becomes null. -/
theorem reread_eq_finiteOrNull (x : Binary64)
    (h : x.isFinite = true → readJson? (Json.floatText x) = some (.float x)) :
    reread x = finiteOrNull x := by
  cases x with
  | nan => rfl
  | infinite negative => rfl
  | finite negative rank =>
      rw [reread, h rfl]
      rfl

theorem mapFloats_reread {v : Value} (h : v.FloatsReadBack) :
    v.mapFloats reread = v.mapFloats finiteOrNull :=
  mapFloats_congr reread_eq_finiteOrNull h

theorem readJson?_jsonText {v : Value} (hv : v.WellFormed) :
    readJson? v.jsonText.toList = if v.nesting ≤ 127 then some (v.mapFloats reread) else none := by
  rw [jsonText, Json.text, String.toList_ofList, readJson?_print, toJson?_written hv]
  rfl

end Value

namespace Codec

open Value

/-- The JSON codec gives back a value with its numbers reread, unless it nests too deep. -/
theorem decode_encode_json_reread {v : Value} (hv : v.WellFormed) (field : String) :
    json.decode field (json.encode v) =
      if v.nesting ≤ 127 then .ok (v.mapFloats reread) else .error (.codec field .json) := by
  rw [decode, decode?, encode, readJson?_jsonText hv]
  by_cases hshallow : v.nesting ≤ 127
  · rw [if_pos hshallow, if_pos hshallow]
  · rw [if_neg hshallow, if_neg hshallow]

/-- The JSON codec gives back every value that nests no deeper than the limit, with null in the
place of every number that is not finite and nothing else changed, and refuses every other one. -/
theorem decode_encode_json {v : Value} (hv : v.WellFormed) (hfloats : v.FloatsReadBack)
    (field : String) :
    json.decode field (json.encode v) =
      if v.nesting ≤ 127 then .ok (v.mapFloats finiteOrNull) else .error (.codec field .json) := by
  rw [decode_encode_json_reread hv, mapFloats_reread hfloats]

/-- A whole number with a fraction stays one, and an undefined number becomes null. -/
theorem decode_encode_json_of_nested :
    json.decode "tags" (json.encode (.map
        [("a\"\n", .list [.float (.ofInt 5), .int (-5), .null]), ("b", .float .nan)])) =
      .ok (.map [("a\"\n", .list [.float (.ofInt 5), .int (-5), .null]), ("b", .null)]) := by
  have hv : (Value.map [("a\"\n", .list [.float (.ofInt 5), .int (-5), .null]),
      ("b", .float .nan)]).WellFormed :=
    ⟨by decide, ⟨trivial, trivial, trivial, trivial⟩, trivial, trivial⟩
  have hread : (Value.map [("a\"\n", .list [.float (.ofInt 5), .int (-5), .null]),
      ("b", .float .nan)]).FloatsReadBack := by
    simp only [FloatsReadBack, EveryFloat, EveryFloatOfFields, EveryFloatOfItems, and_true]
    exact ⟨fun _ => by decide +kernel, fun h => nomatch h⟩
  exact (decode_encode_json hv hread "tags").trans (congrArg Except.ok (by decide +kernel))

end Codec
end RecordFilter
