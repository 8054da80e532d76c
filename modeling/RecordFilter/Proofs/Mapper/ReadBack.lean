/-
Reading back a field that was set.  Setting decides by the value whether a codec runs: only lists and
maps are encoded.  Reading decides by what is stored: every string in a column with a codec is
decoded.  A string that was set as such lies in between, so it is stored as it is and then taken for
an encoding, and since no text is the encoding of itself it does not come back.  `get_of_set` says
that this is the only thing that goes wrong.
-/
import RecordFilter.Mapper.Basic
import RecordFilter.Proofs.Codec.Shorter

namespace RecordFilter

namespace Storage

/-- The codec that the configuration gives to a column, if it knows the column. -/
def columnCodec? (s : Storage) (field : String) : Option Codec :=
  (s.schema.get? field).bind fun conf => conf.dataType.codec?

/-- A string that the column of a relational table takes for an encoding. -/
def Mistaken (s : Storage) (field : String) (v : Value) : Prop :=
  s.backend = .relational ∧ (∃ codec, s.columnCodec? field = some codec) ∧ ∃ text, v = .str text

theorem codec?_of_get? {s : Storage} {field : String} {conf : FieldConf}
    (hconf : s.schema.get? field = some conf) : s.codec? field = .ok conf.dataType.codec? := by
  simp only [codec?, Schema.require, hconf]

/-- What is stored reads as itself, unless it is mistaken for an encoding. -/
theorem decodeKnown_eq_self_iff {s : Storage} {field : String} {v : Value} :
    s.decodeKnown field v = .ok v ↔ ¬ s.Mistaken field v := by
  rw [decodeKnown, FieldMap.contains]
  by_cases hbackend : s.backend = .relational
  · cases hconf : s.schema.get? field with
    | none =>
        have hnot : ¬ s.Mistaken field v := by
          rintro ⟨_, ⟨codec, hcodec⟩, _⟩
          rw [columnCodec?, hconf] at hcodec
          cases hcodec
        simp [hnot]
    | some conf =>
        have hfield := codec?_of_get? hconf
        have hcolumn : s.columnCodec? field = conf.dataType.codec? := by
          rw [columnCodec?, hconf]
          rfl
        cases hcodec : conf.dataType.codec? with
        | none =>
            have hnot : ¬ s.Mistaken field v := by
              rintro ⟨_, ⟨codec, hsome⟩, _⟩
              rw [hcolumn, hcodec] at hsome
              cases hsome
            simp [decodeField, hbackend, hfield, hcodec, hnot]
        | some codec =>
            cases v with
            | str text =>
                have hmistaken : s.Mistaken field (.str text) :=
                  ⟨hbackend, ⟨codec, hcolumn.trans hcodec⟩, text, rfl⟩
                have hdecode : s.decodeField field (.str text) = codec.decode field text := by
                  simp [decodeField, hbackend, hfield, hcodec]
                rw [Option.isSome_some, if_pos rfl, hdecode]
                exact iff_of_false (codec.decode_ne field text) fun hnot => hnot hmistaken
            | null | bool _ | int _ | float _ | list _ | map _ =>
                refine iff_of_true (by simp [decodeField, hbackend, hfield, hcodec]) ?_
                rintro ⟨_, _, text, htext⟩
                cases htext
  · have hdecode : s.decodeField field v = .ok v := by rw [decodeField, if_pos hbackend]
    rw [hdecode]
    refine iff_of_true (by split <;> rfl) ?_
    rintro ⟨hrelational, _⟩
    exact hbackend hrelational

end Storage

namespace Mapper

variable {σ : Type}

/-- A value that needs no encoding is stored as it is. -/
theorem set_eq {m m' : Mapper σ} {field : String} {v : Value} (hset : m.set field v = .ok m')
    (hvalue : m.storage.backend = .relational → v.isScalar = true) :
    m' = { m with current := m.current.insert field v } := by
  have hencode : m.storage.encodeField field v = .ok v := by
    rw [Storage.encodeField]
    by_cases hbackend : m.storage.backend = .relational
    · rw [hvalue hbackend]
      simp
    · simp [hbackend]
  rw [set, storedValue, hencode] at hset
  split at hset
  · cases hset
  · rename_i stored hstored
    split at hstored
    · cases hstored
    · cases hstored
      cases hset
      rfl

theorem get_insert_self (m : Mapper σ) (field : String) (v : Value) :
    get { m with current := m.current.insert field v } field =
      (m.storage.decodeKnown field v).map some := by
  rw [get]
  simp only [FieldMap.get?_insert_self]

theorem get_insert_ne (m : Mapper σ) {field other : String} (h : other ≠ field) (v : Value) :
    get { m with current := m.current.insert field v } other = m.get other := by
  rw [get, get]
  simp only [FieldMap.get?_insert_ne _ h]

/-- A value that was set is the value of its field, unless it is a string that is mistaken for an
encoding, and every other field keeps its value. -/
theorem get_of_set {m m' : Mapper σ} {field : String} {v : Value} (hset : m.set field v = .ok m')
    (hvalue : m.storage.backend = .relational → v.isScalar = true) :
    (m'.get field = .ok (some v) ↔ ¬ m.storage.Mistaken field v) ∧
      ∀ other, other ≠ field → m'.get other = m.get other := by
  obtain rfl := set_eq hset hvalue
  refine ⟨?_, fun other hother => get_insert_ne m hother v⟩
  rw [get_insert_self, ← Storage.decodeKnown_eq_self_iff, map_eq_ok_iff]
  simp

/-- A column of lists that are kept as JSON, and an engine that is never asked. -/
def tagged : Mapper Unit :=
  { storage :=
      { backend := .relational
        schema := .ofList [("tags", { dataType := .json, initial := none, nullable := true })] }
    engine := { perform := fun _ store => (.error (.engine "closed"), store) }
    store := ()
    initial := .empty
    current := .empty
    loaded := false }

theorem get_of_set_int :
    (set tagged "tags" (.int 3)).bind (get · "tags") = .ok (some (.int 3)) := by
  have hset : tagged.set "tags" (.int 3) =
      .ok { tagged with current := tagged.current.insert "tags" (.int 3) } := rfl
  have hnot : ¬ tagged.storage.Mistaken "tags" (.int 3) := by
    rintro ⟨_, _, text, htext⟩
    cases htext
  rw [hset]
  exact (get_of_set hset fun _ => rfl).1.mpr hnot

/-- The string `[1]` comes back as a list. -/
theorem get_ne_of_set_text :
    ¬ ∀ (m m' : Mapper Unit) (field : String) (v : Value), m.set field v = .ok m' →
      (m.storage.backend = .relational → v.isScalar = true) → m'.get field = .ok (some v) := by
  intro hall
  have hget := hall tagged _ "tags" (.str "[1]") rfl fun _ => rfl
  have hread : get { tagged with current := tagged.current.insert "tags" (.str "[1]") } "tags" =
      .ok (some (.list [.int 1])) := rfl
  rw [hread] at hget
  cases hget

end Mapper
end RecordFilter
