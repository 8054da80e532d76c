/-
How deep lists and maps may nest to be read back.  The serialized reader counts 128 arrays inside
each other and the JSON reader 127, so the two codecs give back the same values except those that
nest exactly 128 deep, which only the serialized one gives back.
-/
import RecordFilter.Proofs.Codec.Json
import RecordFilter.Proofs.Codec.RoundTrip

namespace RecordFilter
namespace Codec

open Serialized Value

/-- The text of a value is read back, as whichever value. -/
def ReadsBack (codec : Codec) (field : String) (v : Value) : Prop :=
  ∃ w, codec.decode field (codec.encode v) = .ok w

theorem readsBack_json {v : Value} (hv : v.WellFormed) (field : String) :
    json.ReadsBack field v ↔ v.nesting ≤ 127 := by
  rw [ReadsBack, decode_encode_json_reread hv]
  constructor
  · rintro ⟨w, hw⟩
    split at hw
    · assumption
    · cases hw
  · intro hshallow
    exact ⟨_, if_pos hshallow⟩

theorem readsBack_serialized {v : Value} (hv : v.WellFormed)
    (hfits : Text.byteLength (write v) ≤ greatestPosition) (field : String) :
    serialized.ReadsBack field v ↔ v.nesting ≤ 128 := by
  rcases read_write hv with ⟨hread, hshallow⟩ | ⟨fault, hread, ⟨hdeep, _⟩ | hoverrun⟩
  · rw [ReadsBack, decode_serialized_of_read hread]
    exact ⟨fun _ => Nat.le_of_not_lt hshallow, fun _ => ⟨_, rfl⟩⟩
  · rw [ReadsBack, decode_serialized_of_read hread]
    exact ⟨fun ⟨_, hw⟩ => (nomatch hw), fun hle => absurd hdeep (Nat.not_lt.mpr hle)⟩
  · exact absurd hfits (Nat.not_le.mpr hoverrun)

/-- The two codecs read back the same values, except those that nest as deep as the serialized
reader goes: the JSON reader goes one level less deep. -/
theorem readsBack_alike_iff {v : Value} (hv : v.WellFormed)
    (hfits : Text.byteLength (write v) ≤ greatestPosition) (field : String) :
    (serialized.ReadsBack field v ↔ json.ReadsBack field v) ↔ v.nesting ≠ 128 := by
  rw [readsBack_serialized hv hfits, readsBack_json hv]
  omega

/-- Lists inside each other, the innermost of which holds null. -/
def nestedList : Nat → Value
  | 0 => .null
  | depth + 1 => .list [nestedList depth]

theorem wellFormed_nestedList (depth : Nat) : (nestedList depth).WellFormed := by
  induction depth with
  | zero => trivial
  | succ depth ih => exact ⟨ih, trivial⟩

theorem nesting_nestedList (depth : Nat) : (nestedList depth).nesting = depth := by
  induction depth with
  | zero => rfl
  | succ depth ih =>
      rw [nestedList, nesting, nestingOfItems, nestingOfItems, ih, Nat.max_zero]

theorem byteLength_write_nestedList (depth : Nat) :
    Text.byteLength (write (nestedList depth)) = 10 * depth + 2 := by
  induction depth with
  | zero => rfl
  | succ depth ih =>
      have hstart : Text.byteLength (arrayStart 1) = 5 := by decide
      have hindex : Text.byteLength (intText 0) = 4 := by decide
      have hend : Text.byteLength ['\x7d'] = 1 := by decide
      rw [nestedList, write, List.length_singleton, writeItems, writeItems, Nat.cast_zero,
        List.append_nil, Text.byteLength_append, Text.byteLength_append, Text.byteLength_append,
        hstart, hindex, hend, ih]
      omega

theorem nestedList_fits {depth : Nat} (h : depth ≤ 128) :
    Text.byteLength (write (nestedList depth)) ≤ greatestPosition := by
  have hsmall : 10 * 128 + 2 ≤ greatestPosition := by decide
  rw [byteLength_write_nestedList]
  omega

theorem readsBack_alike_of_nestedList :
    serialized.ReadsBack "tags" (nestedList 127) ↔ json.ReadsBack "tags" (nestedList 127) :=
  (readsBack_alike_iff (wellFormed_nestedList 127) (nestedList_fits (by decide)) "tags").mpr
    (by rw [nesting_nestedList]; decide)

/-- Lists that nest 128 deep are read back by the serialized codec only. -/
theorem not_readsBack_alike_of_nestedList :
    serialized.ReadsBack "tags" (nestedList 128) ∧ ¬ json.ReadsBack "tags" (nestedList 128) := by
  rw [readsBack_serialized (wellFormed_nestedList 128) (nestedList_fits (by decide)),
    readsBack_json (wellFormed_nestedList 128), nesting_nestedList]
  decide

end Codec
end RecordFilter
