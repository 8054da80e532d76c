/-
A record read field by field, and read whole.  `get` reads one field of the buffer and `cast` all of
them, in the order of their names.  Both read a field in the same way, so the whole record has the
values that its fields have, and if one of them cannot be read the first such field gives the error:
`cast_by_field`.  A record of the caller takes the fields over, and keeps those that it has besides.
-/
import RecordFilter.Mapper.Basic
import RecordFilter.Proofs.FieldMap

namespace RecordFilter
namespace Mapper

variable {σ : Type}

theorem get_eq (m : Mapper σ) (field : String) :
    m.get field = (m.current.get? field).elim (.ok none) fun stored =>
      (m.storage.decodeKnown field stored).map some := by
  rw [get]
  cases m.current.get? field <;> rfl

/-- In a record that is read whole each field has the value that it has on its own. -/
theorem get_of_cast {m : Mapper σ} {row : Row} (h : m.cast = .ok row) (field : String) :
    m.get field = .ok (row.get? field) := by
  rw [get_eq]
  exact FieldMap.get?_of_traverse h field

theorem contains_of_cast {m : Mapper σ} {row : Row} (h : m.cast = .ok row) (field : String) :
    row.contains field = m.contains field := by
  have hget := get_of_cast h field
  rw [get_eq] at hget
  rw [FieldMap.contains, contains, FieldMap.contains]
  cases hstored : m.current.get? field with
  | none =>
      rw [hstored] at hget
      rw [← Except.ok.inj hget]
  | some stored =>
      rw [hstored] at hget
      obtain ⟨v, _, hv⟩ := map_eq_ok_iff.mp hget
      rw [← hv]
      rfl

/-- A record that cannot be read whole has a first field that cannot be read. -/
theorem exists_of_cast_error {m : Mapper σ} {e : Error} (h : m.cast = .error e) :
    ∃ field, m.contains field = true ∧ m.get field = .error e ∧
      ∀ other, other < field → ∃ v, m.get other = .ok v := by
  obtain ⟨field, stored, hstored, hfails, hbefore⟩ := FieldMap.exists_of_traverse_error h
  refine ⟨field, ?_, ?_, ?_⟩
  · rw [contains, FieldMap.contains, hstored]
    rfl
  · rw [get_eq, hstored]
    exact map_eq_error_iff.mpr hfails
  · intro other hlt
    rw [get_eq]
    cases hother : m.current.get? other with
    | none => exact ⟨none, rfl⟩
    | some y =>
        obtain ⟨v, hv⟩ := hbefore other hlt y hother
        exact ⟨some v, map_eq_ok_iff.mpr ⟨v, hv, rfl⟩⟩

theorem exists_cast_iff (m : Mapper σ) :
    (∃ row, m.cast = .ok row) ↔ ∀ field, m.contains field = true → ∃ v, m.get field = .ok v := by
  constructor
  · rintro ⟨row, hrow⟩ field _
    exact ⟨_, get_of_cast hrow field⟩
  · intro hall
    cases hcast : m.cast with
    | ok row => exact ⟨row, rfl⟩
    | error e =>
        obtain ⟨field, hfield, hfails, _⟩ := exists_of_cast_error hcast
        obtain ⟨v, hv⟩ := hall field hfield
        rw [hfails] at hv
        cases hv

theorem copyTo_of_cast {m : Mapper σ} {row : Row} (h : m.cast = .ok row) (hive : Row) :
    m.copyTo hive = .ok (hive.override row) := by
  rw [copyTo, h]

theorem copyTo_of_cast_error {m : Mapper σ} {e : Error} (h : m.cast = .error e) (hive : Row) :
    m.copyTo hive = .error e := by
  rw [copyTo, h]

/-- Reading the record in the buffer whole is reading its fields one by one.  It is read if each of
them is, and then it has these fields with these values, and so has a record that they are copied
to, besides its own.  Otherwise the error is that of the first field that cannot be read. -/
theorem cast_by_field (m : Mapper σ) (hive : Row) :
    ((∃ row, m.cast = .ok row) ↔
      ∀ field, m.contains field = true → ∃ v, m.get field = .ok v) ∧
    (∀ row, m.cast = .ok row →
      (∀ field, row.contains field = m.contains field ∧ m.get field = .ok (row.get? field)) ∧
        ∃ written, m.copyTo hive = .ok written ∧
          ∀ field, written.get? field = (row.get? field).or (hive.get? field)) ∧
    ∀ e, m.cast = .error e →
      m.copyTo hive = .error e ∧
        ∃ field, m.contains field = true ∧ m.get field = .error e ∧
          ∀ other, other < field → ∃ v, m.get other = .ok v := by
  refine ⟨exists_cast_iff m, ?_, ?_⟩
  · intro row hrow
    refine ⟨fun field => ⟨contains_of_cast hrow field, get_of_cast hrow field⟩, ?_⟩
    exact ⟨_, copyTo_of_cast hrow hive, FieldMap.get?_override hive row⟩
  · intro e hfails
    exact ⟨copyTo_of_cast_error hfails hive, exists_of_cast_error hfails⟩

end Mapper
end RecordFilter
