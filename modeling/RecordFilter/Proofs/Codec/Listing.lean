/-
Maps that are lists.  The serialized format writes lists and maps as arrays of keys and values, so a
map whose names are the indices of its values cannot be told from the list of them.  `listed` puts
the list in place of every such map, at every depth; which names are taken for indices is a
parameter, because the reader is more generous than the writer: it takes `+0` and `00` for zero.
-/
import RecordFilter.Number.Integer
import RecordFilter.Value.Basic

namespace RecordFilter
namespace Value

/-! ## Values without some of their maps -/

section

variable (areIndices : List String → Bool)

mutual
/-- A value in which every map whose names are indices is the list of its values. -/
def listed : Value → Value
  | .list items => .list (listedItems items)
  | .map fields =>
      if areIndices (fields.map Prod.fst) then .list ((listedFields fields).map Prod.snd)
      else .map (listedFields fields)
  | v => v

def listedItems : List Value → List Value
  | [] => []
  | v :: rest => listed v :: listedItems rest

def listedFields : List (String × Value) → List (String × Value)
  | [] => []
  | (name, v) :: rest => (name, listed v) :: listedFields rest
end

end

section

variable (p : List String → Prop)

mutual
/-- The names of every map in a value have a property. -/
def EveryMap : Value → Prop
  | .list items => EveryMapOfItems items
  | .map fields => p (fields.map Prod.fst) ∧ EveryMapOfFields fields
  | _ => True

def EveryMapOfItems : List Value → Prop
  | [] => True
  | v :: rest => EveryMap v ∧ EveryMapOfItems rest

def EveryMapOfFields : List (String × Value) → Prop
  | [] => True
  | (_, v) :: rest => EveryMap v ∧ EveryMapOfFields rest
end

end

mutual
/-- How deep lists and maps nest in a value. -/
def nesting : Value → Nat
  | .list items => nestingOfItems items + 1
  | .map fields => nestingOfFields fields + 1
  | _ => 0

def nestingOfItems : List Value → Nat
  | [] => 0
  | v :: rest => max (nesting v) (nestingOfItems rest)

def nestingOfFields : List (String × Value) → Nat
  | [] => 0
  | (_, v) :: rest => max (nesting v) (nestingOfFields rest)
end

/-! ## Names that are indices -/

/-- The names read as the numbers from zero on, in order. -/
def readAsIndices (names : List String) : Bool :=
  names.zipIdx.all fun entry => Number.readCount? entry.1.toList == some entry.2

/-- The names are the numbers from zero on, in order and written plainly. -/
def areNumerals (names : List String) : Bool :=
  names.zipIdx.all fun entry => entry.1.toList == Number.digitsOf entry.2

/-- The names of every map in a value read as indices only if they are written plainly: none of
them is `+0`, or `00`, in the place of a zero. -/
def SpelledPlainly (v : Value) : Prop :=
  v.EveryMap fun names => readAsIndices names = areNumerals names

/-! ## Laws of listing -/

section

variable {areIndices : List String → Bool}

@[simp] theorem map_fst_listedFields (fields : List (String × Value)) :
    (listedFields areIndices fields).map Prod.fst = fields.map Prod.fst := by
  induction fields with
  | nil => rfl
  | cons entry rest ih =>
      obtain ⟨name, v⟩ := entry
      rw [listedFields, List.map_cons, List.map_cons, ih]

@[simp] theorem length_listedItems (items : List Value) :
    (listedItems areIndices items).length = items.length := by
  induction items with
  | nil => rfl
  | cons v rest ih => rw [listedItems, List.length_cons, List.length_cons, ih]

mutual
/-- Listing leaves a value as it is if it holds no map whose names are indices, and only then. -/
theorem listed_eq_self_iff (v : Value) :
    v.listed areIndices = v ↔ v.EveryMap fun names => areIndices names = false := by
  match v with
  | .list items =>
      rw [listed, EveryMap, ← listedItems_eq_self_iff items]
      exact ⟨fun h => Value.list.inj h, fun h => congrArg Value.list h⟩
  | .map fields =>
      rw [listed, EveryMap, ← listedFields_eq_self_iff fields]
      split
      · rename_i hindices
        rw [hindices]
        simp
      · rename_i hindices
        rw [Bool.not_eq_true] at hindices
        rw [hindices]
        simp
  | .null | .bool _ | .int _ | .float _ | .str _ => simp [listed, EveryMap]

theorem listedItems_eq_self_iff (items : List Value) :
    listedItems areIndices items = items ↔
      EveryMapOfItems (fun names => areIndices names = false) items := by
  match items with
  | [] => simp [listedItems, EveryMapOfItems]
  | v :: rest =>
      rw [listedItems, EveryMapOfItems, ← listed_eq_self_iff v, ← listedItems_eq_self_iff rest,
        List.cons.injEq]

theorem listedFields_eq_self_iff (fields : List (String × Value)) :
    listedFields areIndices fields = fields ↔
      EveryMapOfFields (fun names => areIndices names = false) fields := by
  match fields with
  | [] => simp [listedFields, EveryMapOfFields]
  | (name, v) :: rest =>
      rw [listedFields, EveryMapOfFields, ← listed_eq_self_iff v, ← listedFields_eq_self_iff rest,
        List.cons.injEq, Prod.mk.injEq]
      simp
end

variable {areIndices' : List String → Bool}

mutual
theorem listed_congr {v : Value}
    (h : v.EveryMap fun names => areIndices names = areIndices' names) :
    v.listed areIndices = v.listed areIndices' := by
  match v with
  | .list items =>
      rw [EveryMap] at h
      rw [listed, listed, listedItems_congr h]
  | .map fields =>
      rw [EveryMap] at h
      rw [listed, listed, h.1, listedFields_congr h.2]
  | .null | .bool _ | .int _ | .float _ | .str _ => simp [listed]

theorem listedItems_congr {items : List Value}
    (h : EveryMapOfItems (fun names => areIndices names = areIndices' names) items) :
    listedItems areIndices items = listedItems areIndices' items := by
  match items with
  | [] => rfl
  | v :: rest =>
      rw [EveryMapOfItems] at h
      rw [listedItems, listedItems, listed_congr h.1, listedItems_congr h.2]

theorem listedFields_congr {fields : List (String × Value)}
    (h : EveryMapOfFields (fun names => areIndices names = areIndices' names) fields) :
    listedFields areIndices fields = listedFields areIndices' fields := by
  match fields with
  | [] => rfl
  | (name, v) :: rest =>
      rw [EveryMapOfFields] at h
      rw [listedFields, listedFields, listed_congr h.1, listedFields_congr h.2]
end

end

end Value
end RecordFilter
