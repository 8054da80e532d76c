/-
Reading fixed sets of fields from JSON. Such a set may be given as an object, in which unknown
members are passed over and a known one may occur once, or as an array with the fields in order,
which may stop early but may not go on. Passed-over members need only be well formed.

That is how the readers work that `serde` derives for a structure whose fields have defaults or may
be missing.
-/
import RecordFilter.Value.Json

namespace RecordFilter
namespace Json
namespace Struct

/-- The texts of the fields of a set, in the order of their names; none for a missing one. -/
abbrev Slots := List (Option Written)

/-- Puts a member into the slot of its name. A second one for the same slot is refused, and one
without a slot is passed over. -/
def fill? (name : String) (w : Written) : List String → Slots → Option Slots
  | n :: names, slot :: slots =>
      if n = name then
        match slot with
        | none => some (some w :: slots)
        | some _ => none
      else (fill? name w names slots).map (slot :: ·)
  | _, slots => some slots

/-- Puts the members of an object into slots, one after the other. -/
def fillAll? (names : List String) : List (List Piece × Written) → Slots → Option Slots
  | [], slots => some slots
  | (name, w) :: rest, slots =>
      match string? name with
      | none => none
      | some name => (fill? name w names slots).bind (fillAll? names rest)

def ofItems? : List String → List Written → Option Slots
  | names, [] => some (names.map fun _ => none)
  | [], _ :: _ => none
  | _ :: names, w :: rest => (ofItems? names rest).map (some w :: ·)

def slots? (names : List String) : Written → Option Slots
  | .object members => fillAll? names members (names.map fun _ => none)
  | .array items => ofItems? names items
  | _ => none

def string? : Written → Option String
  | .string pieces => Json.string? pieces
  | _ => none

def bool? : Written → Option Bool
  | .bool b => some b
  | _ => none

def count? : Written → Option Nat
  | .number n =>
      match n.toInt? with
      | some i => if 0 ≤ i then some i.toNat else none
      | none => none
  | _ => none

/-- A field that may be missing, or null, which comes to the same. -/
def optional? (read : Written → Option α) : Option Written → Option (Option α)
  | none => some none
  | some .null => some none
  | some w => (read w).map some

end Struct
end Json
end RecordFilter
