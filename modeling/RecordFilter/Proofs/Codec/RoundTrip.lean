/-
The serialized format, written and read back.  A value is read back as it was written, except that a
map whose names read as indices comes back as the list of its values, and that arrays nested deeper
than the limit are refused.

The text of a value stands in front of other bytes, so the readers are followed from one cursor to
the next, over the constructors of the value.  A length that is no count can only stand in a text
that is longer than any position: the items of a list, and the digits of their indices, take at
least as many bytes as they count.
-/
import RecordFilter.Codec.Basic
import RecordFilter.Proofs.Codec.Listing
import RecordFilter.Proofs.Codec.Scan

namespace RecordFilter
namespace Serialized

open Number Text Value

/-! ## Strings -/

theorem readString_quoted (s : String) (text : List Char) (rest : List UInt8) (position : Nat) :
    Gives (readString (before (digitsOf (byteLength s.toList) ++ ':' :: '"' ::
        (s.toList ++ '"' :: ';' :: text)) rest position)) s
      (before text rest
        (position + (byteLength (digitsOf (byteLength s.toList)) + byteLength s.toList + 4)))
      False := by
  rw [readString, upTo_before rfl (within_digitsOf rfl _), ok_bind]
  dsimp only
  rw [readCount?_digitsOf]
  by_cases hcount : byteLength s.toList < wordCount
  · rw [if_pos hcount]
    dsimp only
    rw [expect_before rfl, ok_bind, position_before]
    split
    · rename_i hoverrun
      refine Gives.of_overrun False (Nat.lt_of_lt_of_le hoverrun ?_)
      rw [position_before]
      omega
    · rw [if_neg (Nat.not_lt.mpr (byteLength_le_length_before _ _ _ _)), take_before,
        characters_encode, ok_bind, drop_before _ _ _ _ (position +
          byteLength (digitsOf (byteLength s.toList)) + 1 + 1 + byteLength s.toList)]
      show Gives (expect (byte '"') (before ('"' :: ';' :: text) rest _) >>= _) _ _ _
      rw [expect_before rfl, ok_bind, expect_before rfl, ok_bind, String.ofList_toList]
      refine Gives.of_ok (congrArg (fun p => Except.ok (s, before text rest p)) ?_) not_false
      omega
  · rw [if_neg hcount]
    refine Gives.of_overrun False ?_
    show wordCount - 1 < position + _
    omega

/-! ## Tags -/

theorem readValue_null (depth : Nat) (text : List Char) (rest : List UInt8) (position : Nat) :
    readValue depth (before ('N' :: ';' :: text) rest position) =
      .ok (.null, before text rest (position + 2)) := by
  rw [readValue.eq_def, before_cons rfl]
  dsimp only
  rw [if_pos rfl]
  show (expect (byte ';') (before (';' :: text) rest (position + 1)) >>= _) = _
  rw [expect_before rfl]
  rfl

theorem readValue_array (depth : Nat) (text : List Char) (rest : List UInt8) (position : Nat) :
    readValue depth (before ('a' :: ':' :: text) rest position) =
      (readArrayStart (before text rest (position + 2)) >>= fun found =>
        match depth with
        | 0 => throw (.tooDeep depthLimit)
        | depth + 1 => do
            let (entries, here) ← readEntries (readValue depth) found.1 found.2
            let here ← expect (byte '\x7d') here
            return (ofEntries entries, here)) := by
  rw [readValue.eq_def, before_cons rfl]
  dsimp only
  rw [if_neg (by decide)]
  show (expect (byte ':') (before (':' :: text) rest (position + 1)) >>= _) = _
  rw [expect_before rfl]
  cases depth <;> rfl

theorem readValue_scalar {tag : Char} (htag : isAscii tag = true) (hnull : byte tag ≠ byte 'N')
    (harray : byte tag ≠ byte 'a') (depth : Nat) (text : List Char) (rest : List UInt8)
    (position : Nat) :
    readValue depth (before (tag :: ':' :: text) rest position) =
      readScalar (byte tag) (before text rest (position + 2)) := by
  rw [readValue.eq_def, before_cons htag]
  dsimp only
  rw [if_neg hnull]
  show (expect (byte ':') (before (':' :: text) rest (position + 1)) >>= _) = _
  rw [expect_before rfl, ok_bind, if_neg harray]

/-- A scalar that a delimiter ends, in front of other text. -/
theorem read_upTo {readText : List Char → Except SerializedFault Value} {part : List Char}
    {v : Value}
    (hpart : Within ';' part) (hread : readText part = .ok v) (text : List Char) (rest : List UInt8)
    (position : Nat) :
    (upTo (byte ';') (before (part ++ ';' :: text) rest position) >>= fun found =>
      readText found.1 >>= fun v => pure (v, found.2)) =
      .ok (v, before text rest (position + byteLength part + 1)) := by
  rw [upTo_before rfl hpart, ok_bind, hread]
  rfl

theorem readValue_bool (b : Bool) (depth : Nat) (text : List Char) (rest : List UInt8)
    (position : Nat) :
    readValue depth (before (write (.bool b) ++ text) rest position) =
      .ok (.bool b, before text rest (position + byteLength (write (.bool b)))) := by
  have hwritten : write (.bool b) ++ text =
      'b' :: ':' :: ([if b then '1' else '0'] ++ ';' :: text) := by
    rw [write]
    rfl
  have hpart : Within ';' [if b then '1' else '0'] := by cases b <;> decide
  have hread : readBool [if b then '1' else '0'] = .ok (.bool b) := by cases b <;> rfl
  have hlength : byteLength (write (.bool b)) = 4 := by cases b <;> rfl
  rw [hwritten, readValue_scalar rfl (by decide) (by decide), readScalar, if_pos rfl, hlength]
  have hsize : byteLength [if b then '1' else '0'] = 1 := by cases b <;> rfl
  have hpiece := read_upTo hpart hread text rest (position + 2)
  rw [hsize] at hpiece
  exact hpiece

theorem readValue_intText {n : Int} {m : Int64} (h : readWord? (integerText n) = some m)
    (depth : Nat)
    (text : List Char) (rest : List UInt8) (position : Nat) :
    readValue depth (before (intText n ++ text) rest position) =
      .ok (.int m, before text rest (position + byteLength (intText n))) := by
  have hread : readInt (integerText n) = .ok (.int m) := by rw [readInt, h]
  have hlength : position + byteLength (intText n) =
      position + 2 + byteLength (integerText n) + 1 := by
    rw [intText, byteLength_append, byteLength_append]
    show position + (2 + _ + 1) = _
    omega
  rw [hlength, intText, List.append_assoc, List.append_assoc, List.cons_append, List.cons_append,
    List.nil_append, readValue_scalar rfl (by decide) (by decide), readScalar, if_neg (by decide),
    if_pos rfl]
  exact read_upTo (within_integerText n) hread text rest (position + 2)

theorem exists_readValue_intText {n : Int} (h : readWord? (integerText n) = none) (depth : Nat)
    (text : List Char) (rest : List UInt8) (position : Nat) :
    ∃ fault, readValue depth (before (intText n ++ text) rest position) = .error fault := by
  have hread : readInt (integerText n) =
      .error (.invalidInteger (String.ofList (integerText n))) := by
    rw [readInt, h]
  rw [intText, List.append_assoc, List.append_assoc, List.cons_append, List.cons_append,
    List.nil_append, List.singleton_append, readValue_scalar rfl (by decide) (by decide),
    readScalar,
    if_neg (by decide), if_pos rfl, upTo_before rfl (within_integerText n), ok_bind]
  dsimp only
  rw [hread]
  exact ⟨_, rfl⟩

theorem readValue_float (x : Binary64) (depth : Nat) (text : List Char) (rest : List UInt8)
    (position : Nat) :
    readValue depth (before (write (.float x) ++ text) rest position) =
      .ok (.float x, before text rest (position + byteLength (write (.float x)))) := by
  have hlength : position + byteLength (write (.float x)) =
      position + 2 + byteLength (floatText x) + 1 := by
    rw [write, byteLength_append, byteLength_append]
    show position + (2 + _ + 1) = _
    omega
  rw [hlength, write, List.append_assoc, List.append_assoc, List.cons_append, List.cons_append,
    List.nil_append, readValue_scalar rfl (by decide) (by decide), readScalar, if_neg (by decide),
    if_neg (by decide), if_pos rfl]
  exact read_upTo (within_floatText x) (readFloat_floatText x) text rest (position + 2)

theorem stringText_append (s : String) (text : List Char) :
    stringText s ++ text = 's' :: ':' :: (digitsOf (byteLength s.toList) ++ ':' :: '"' ::
      (s.toList ++ '"' :: ';' :: text)) := by
  simp only [stringText, List.append_assoc, List.cons_append, List.nil_append]

theorem byteLength_stringText (s : String) :
    byteLength (stringText s) =
      2 + (byteLength (digitsOf (byteLength s.toList)) + byteLength s.toList + 4) := by
  simp only [stringText, byteLength_append]
  show 2 + _ + 2 + _ + 2 = _
  omega

theorem readValue_stringText (s : String) (depth : Nat) (text : List Char) (rest : List UInt8)
    (position : Nat) :
    Gives (readValue depth (before (stringText s ++ text) rest position)) (.str s)
      (before text rest (position + byteLength (stringText s))) False := by
  rw [stringText_append, readValue_scalar rfl (by decide) (by decide), readScalar,
    if_neg (by decide), if_neg (by decide), if_neg (by decide), if_pos rfl, byteLength_stringText,
    ← Nat.add_assoc]
  exact (readString_quoted s text rest (position + 2)).map Value.str

/-! ## Arrays -/

theorem arrayStart_append (count : Nat) (text : List Char) :
    arrayStart count ++ text = 'a' :: ':' :: (digitsOf count ++ ':' :: '\x7b' :: text) := by
  simp only [arrayStart, List.append_assoc, List.cons_append, List.nil_append]

theorem byteLength_arrayStart (count : Nat) :
    byteLength (arrayStart count) = 2 + byteLength (digitsOf count) + 2 := by
  simp only [arrayStart, byteLength_append]
  rfl

theorem readArrayStart_of_lt {count : Nat} (hcount : count < wordCount) (text : List Char)
    (rest : List UInt8) (position : Nat) :
    readArrayStart (before (digitsOf count ++ ':' :: '\x7b' :: text) rest position) =
      .ok (count, before text rest (position + byteLength (digitsOf count) + 2)) := by
  rw [readArrayStart, upTo_before rfl (within_digitsOf rfl _), ok_bind]
  dsimp only
  rw [readCount?_digitsOf, if_pos hcount]
  dsimp only
  rw [expect_before rfl]
  rfl

theorem exists_readArrayStart_of_ge {count : Nat} (hcount : ¬ count < wordCount) (text : List Char)
    (rest : List UInt8) (position : Nat) :
    ∃ fault, readArrayStart (before (digitsOf count ++ ':' :: '\x7b' :: text) rest position) =
      .error fault := by
  rw [readArrayStart, upTo_before rfl (within_digitsOf rfl _), ok_bind]
  dsimp only
  rw [readCount?_digitsOf, if_neg hcount]
  exact ⟨_, rfl⟩

/-- An array is read as the value of its entries, if its body is read as these entries.  The body is
no shorter than the number of its entries, which is what makes a number that is no count overrun. -/
theorem readValue_arrayText {count inner : Nat} {body : List Char} {entries : List (String × Value)}
    {v : Value} {text : List Char} {rest : List UInt8}
    (hbody : ∀ depth position, Gives (readEntries (readValue depth) count
      (before (body ++ '\x7d' :: text) rest position)) entries
      (before ('\x7d' :: text) rest (position + byteLength body)) (depth < inner))
    (hcount : count ≤ byteLength body) (hvalue : count < wordCount → ofEntries entries = v)
    (depth position : Nat) :
    Gives (readValue depth (before (arrayStart count ++ body ++ ['\x7d'] ++ text) rest position)) v
      (before text rest (position + byteLength (arrayStart count ++ body ++ ['\x7d'])))
      (depth < inner + 1) := by
  have hlength : position + byteLength (arrayStart count ++ body ++ ['\x7d']) =
      position + 2 + byteLength (digitsOf count) + 2 + byteLength body + 1 := by
    rw [byteLength_append, byteLength_append, byteLength_arrayStart]
    show position + (_ + 1) = _
    omega
  rw [hlength, List.append_assoc, List.append_assoc, arrayStart_append, readValue_array,
    List.singleton_append]
  by_cases hword : count < wordCount
  · rw [readArrayStart_of_lt hword, ok_bind]
    cases depth with
    | zero => exact Or.inl ⟨Nat.succ_pos inner, rfl⟩
    | succ depth =>
        have hclose : Gives (expect (byte '\x7d') (before ('\x7d' :: text) rest
            (position + 2 + byteLength (digitsOf count) + 2 + byteLength body)) >>= fun here =>
            .ok (ofEntries entries, here)) v (before text rest
            (position + 2 + byteLength (digitsOf count) + 2 + byteLength body + 1)) False := by
          rw [expect_before rfl, ok_bind, hvalue hword]
          exact Gives.of_ok rfl not_false
        have hentries := hbody depth (position + 2 + byteLength (digitsOf count) + 2)
        rw [Nat.add_lt_add_iff_right, ← or_false (depth < inner)]
        exact hentries.bind hclose (Nat.le_succ _)
  · obtain ⟨fault, hfault⟩ :=
      exists_readArrayStart_of_ge hword (body ++ '\x7d' :: text) rest (position + 2)
    rw [hfault]
    refine Gives.of_overrun _ ?_
    show wordCount - 1 < position + _ + _ + _ + _ + 1
    omega

/-! ## Entries -/

/-- Values named by their indices, from the given one on. -/
def numbered (index : Nat) : List Value → List (String × Value)
  | [] => []
  | v :: rest => (String.ofList (digitsOf index), v) :: numbered (index + 1) rest

theorem map_snd_numbered (index : Nat) (items : List Value) :
    (numbered index items).map Prod.snd = items := by
  induction items generalizing index with
  | nil => rfl
  | cons v rest ih => rw [numbered, List.map_cons, ih]

theorem countUp_numbered {index : Nat} {items : List Value} (h : index + items.length ≤ wordCount) :
    countUp index (numbered index items) = true := by
  induction items generalizing index with
  | nil => rfl
  | cons v rest ih =>
      rw [List.length_cons] at h
      have hindex : index < wordCount := by omega
      have hrest : index + 1 + rest.length ≤ wordCount := by omega
      rw [numbered, countUp, String.toList_ofList, readCount?_digitsOf, if_pos hindex, ih hrest,
        BEq.rfl]
      rfl

theorem ofEntries_numbered {items : List Value} (h : items.length < wordCount) :
    ofEntries (numbered 0 items) = .list items := by
  rw [ofEntries, countUp_numbered (by omega), if_pos rfl, map_snd_numbered]

theorem countUp_eq (index : Nat) (entries : List (String × Value)) :
    countUp index entries = ((entries.map Prod.fst).zipIdx index).all fun entry =>
      readCount? entry.1.toList == some entry.2 := by
  induction entries generalizing index with
  | nil => rfl
  | cons entry rest ih =>
      obtain ⟨name, v⟩ := entry
      rw [countUp, ih, List.map_cons, List.zipIdx_cons, List.all_cons]

theorem ofEntries_listedFields {fields : List (String × Value)} (h : Entries.Ascending fields) :
    ofEntries (listedFields readAsIndices fields) = (Value.map fields).listed readAsIndices := by
  have hcount : countUp 0 (listedFields readAsIndices fields) =
      readAsIndices (fields.map Prod.fst) := by
    rw [countUp_eq, map_fst_listedFields, readAsIndices]
  have hascending : Entries.Ascending (listedFields readAsIndices fields) := by
    rw [Entries.Ascending, map_fst_listedFields]
    exact h
  rw [ofEntries, hcount, listed]
  split
  · rfl
  · rw [ofFields, Entries.sort_of_ascending hascending]

theorem length_le_writeItems (index : Nat) (items : List Value) :
    items.length ≤ byteLength (writeItems index items) := by
  induction items generalizing index with
  | nil => exact Nat.zero_le _
  | cons v rest ih =>
      have hrest := ih (index + 1)
      rw [writeItems, byteLength_append, byteLength_append, intText, byteLength_append,
        byteLength_append, List.length_cons]
      show rest.length + 1 ≤ 2 + _ + _ + _ + _
      omega

theorem length_le_writeFields (fields : List (String × Value)) :
    fields.length ≤ byteLength (writeFields fields) := by
  induction fields with
  | nil => exact Nat.zero_le _
  | cons entry rest ih =>
      obtain ⟨name, v⟩ := entry
      rw [writeFields, byteLength_append, byteLength_append, byteLength_stringText,
        List.length_cons]
      omega

/-- The index of an item is read back as its name, unless it is so large that the text in front of
it is longer than any position. -/
theorem exists_index {index position : Nat} (h : 2 * index ≤ position) :
    (∃ n, readWord? (integerText index) = some n ∧
      keyName (.int n) = .ok (String.ofList (digitsOf index))) ∨
      (readWord? (integerText index) = none ∧ greatestPosition < position) := by
  rw [readWord?, signed?_integerText, Option.bind_some]
  have hleast : leastWord ≤ (index : Int) := Int.le_trans (by decide) (Int.natCast_nonneg index)
  by_cases hword : (index : Int) ≤ greatestWord
  · have hvalue : (Int64.ofInt index).toInt = index :=
      Int64.toInt_ofInt_of_le hleast (Int.lt_of_le_of_lt hword (by decide))
    refine Or.inl ⟨Int64.ofInt index, ?_, ?_⟩
    · rw [word?, decide_eq_true hleast, decide_eq_true hword]
      rfl
    · rw [keyName, hvalue, integerText_natCast]
  · refine Or.inr ⟨?_, ?_⟩
    · rw [word?, decide_eq_false hword, Bool.and_false]
      rfl
    · rw [greatestWord] at hword
      rw [greatestPosition, wordCount]
      omega

/-! ## Values -/

mutual
/-- A value is read back from its text with the maps that are lists listed. -/
theorem readValue_write {v : Value} (hv : v.WellFormed) (depth : Nat) (text : List Char)
    (rest : List UInt8) (position : Nat) :
    Gives (readValue depth (before (write v ++ text) rest position)) (v.listed readAsIndices)
      (before text rest (position + byteLength (write v))) (depth < v.nesting) := by
  match v with
  | .null =>
      rw [write]
      exact Gives.of_ok (readValue_null depth text rest position) (Nat.not_lt_zero depth)
  | .bool b => exact Gives.of_ok (readValue_bool b depth text rest position) (Nat.not_lt_zero depth)
  | .int n =>
      rw [write]
      exact Gives.of_ok (readValue_intText (readWord?_integerText n) depth text rest position)
        (Nat.not_lt_zero depth)
  | .float x =>
      exact Gives.of_ok (readValue_float x depth text rest position) (Nat.not_lt_zero depth)
  | .str s =>
      rw [write]
      exact (readValue_stringText s depth text rest position).of_shallow (Nat.not_lt_zero depth)
  | .list items =>
      rw [write, listed, nesting]
      have hvalue : items.length < wordCount →
          ofEntries (numbered 0 (listedItems readAsIndices items)) =
            .list (listedItems readAsIndices items) := by
        intro hcount
        apply ofEntries_numbered
        rw [length_listedItems]
        exact hcount
      exact readValue_arrayText
        (fun depth position => readEntries_writeItems hv (Nat.zero_le position) depth _ rest)
        (length_le_writeItems 0 items) hvalue depth position
  | .map fields =>
      rw [write, nesting]
      exact readValue_arrayText
        (fun depth position => readEntries_writeFields hv.2 depth _ rest position)
        (length_le_writeFields fields) (fun _ => ofEntries_listedFields hv.1) depth position

theorem readEntries_writeItems {items : List Value} (hitems : ItemsWellFormed items)
    {index position : Nat} (hindex : 2 * index ≤ position) (depth : Nat) (text : List Char)
    (rest : List UInt8) :
    Gives (readEntries (readValue depth) items.length
      (before (writeItems index items ++ text) rest position))
      (numbered index (listedItems readAsIndices items))
      (before text rest (position + byteLength (writeItems index items)))
      (depth < nestingOfItems items) := by
  match items with
  | [] => exact Gives.of_ok rfl (Nat.not_lt_zero depth)
  | v :: items =>
      have hlength : position + byteLength (writeItems index (v :: items)) =
          position + byteLength (intText index) + byteLength (write v) +
            byteLength (writeItems (index + 1) items) := by
        rw [writeItems, byteLength_append, byteLength_append]
        omega
      have hnext : 2 * (index + 1) ≤
          position + byteLength (intText index) + byteLength (write v) := by
        rw [intText, byteLength_append, byteLength_append]
        show _ ≤ position + (2 + _ + _) + _
        omega
      rw [hlength, writeItems, List.append_assoc, List.append_assoc, List.length_cons, readEntries]
      rcases exists_index hindex with ⟨n, hread, hname⟩ | ⟨hread, hoverrun⟩
      · rw [readValue_intText hread, ok_bind]
        dsimp only
        rw [hname, ok_bind, nestingOfItems, lt_max_iff]
        refine (readValue_write hitems.1 depth _ rest _).bind ?_ (Nat.le_add_right _ _)
        exact (readEntries_writeItems hitems.2 hnext depth text rest).map
          ((String.ofList (digitsOf index), v.listed readAsIndices) :: ·)
      · obtain ⟨fault, hfault⟩ := exists_readValue_intText hread depth
          (write v ++ (writeItems (index + 1) items ++ text)) rest position
        rw [hfault]
        exact Gives.of_overrun _ (Nat.lt_of_lt_of_le hoverrun (by rw [position_before]; omega))

theorem readEntries_writeFields {fields : List (String × Value)} (hfields : FieldsWellFormed fields)
    (depth : Nat) (text : List Char) (rest : List UInt8) (position : Nat) :
    Gives (readEntries (readValue depth) fields.length
      (before (writeFields fields ++ text) rest position))
      (listedFields readAsIndices fields)
      (before text rest (position + byteLength (writeFields fields)))
      (depth < nestingOfFields fields) := by
  match fields with
  | [] => exact Gives.of_ok rfl (Nat.not_lt_zero depth)
  | (name, v) :: fields =>
      have hlength : position + byteLength (writeFields ((name, v) :: fields)) =
          position + byteLength (stringText name) + byteLength (write v) +
            byteLength (writeFields fields) := by
        rw [writeFields, byteLength_append, byteLength_append]
        omega
      rw [hlength, writeFields, List.append_assoc, List.append_assoc, List.length_cons, readEntries,
        ← false_or (depth < nestingOfFields ((name, v) :: fields)), nestingOfFields, lt_max_iff]
      refine (readValue_stringText name depth _ rest position).bind ?_ ?_
      · dsimp only
        rw [keyName, ok_bind]
        refine (readValue_write hfields.1 depth _ rest _).bind ?_ (Nat.le_add_right _ _)
        exact (readEntries_writeFields hfields.2 depth text rest _).map
          ((name, v.listed readAsIndices) :: ·)
      · rw [position_before, position_before]
        omega
end

theorem read_write {v : Value} (hv : v.WellFormed) :
    (read (write v) = .ok (v.listed readAsIndices) ∧ ¬ depthLimit < v.nesting) ∨
      ∃ fault, read (write v) = .error fault ∧
        ((depthLimit < v.nesting ∧ fault = .tooDeep depthLimit) ∨
          greatestPosition < byteLength (write v)) := by
  have hwhole := readValue_write hv depthLimit [] [] 0
  rw [before, List.append_nil, List.append_nil, Nat.zero_add] at hwhole
  rw [read]
  cases hresult : readValue depthLimit { rest := encode (write v), position := 0 } with
  | ok found =>
      rw [hresult] at hwhole
      obtain ⟨rfl, hshallow⟩ := hwhole
      exact Or.inl ⟨rfl, hshallow⟩
  | error fault =>
      rw [hresult] at hwhole
      exact Or.inr ⟨fault, rfl, hwhole⟩

end Serialized

namespace Codec

open Serialized Value

theorem decode_serialized_of_read {v : Value} {result : Except SerializedFault Value}
    (h : read (write v) = result) (field : String) :
    serialized.decode field (serialized.encode v) =
      result.mapError fun fault => .codec field (.serialized fault) := by
  subst h
  rw [decode, decode?, encode, String.toList_ofList]
  cases read (write v) <;> rfl

/-- The serialized codec gives back every value in which arrays nest no deeper than the limit,
with the maps listed whose names read as indices, and refuses every other one.  The positions in
a text are words, and so is its length: this is the second hypothesis, which every text in memory
fulfils. -/
theorem decode_encode_serialized {v : Value} (hv : v.WellFormed)
    (hfits : Text.byteLength (write v) ≤ greatestPosition) (field : String) :
    (v.nesting ≤ 128 →
      serialized.decode field (serialized.encode v) = .ok (v.listed readAsIndices)) ∧
    (128 < v.nesting → ∃ fault,
      serialized.decode field (serialized.encode v) = .error (.codec field fault) ∧
        fault.message = "Arrays nested deeper than 128") := by
  rcases read_write hv with ⟨hread, hshallow⟩ | ⟨fault, hread, ⟨hdeep, rfl⟩ | hoverrun⟩
  · rw [decode_serialized_of_read hread]
    exact ⟨fun _ => rfl, fun hdeep => absurd hdeep hshallow⟩
  · rw [decode_serialized_of_read hread]
    exact ⟨fun hle => absurd hdeep (Nat.not_lt.mpr hle), fun _ => ⟨_, rfl, rfl⟩⟩
  · exact absurd hfits (Nat.not_le.mpr hoverrun)

theorem decode_encode_serialized_of_nested :
    serialized.decode "tags" (serialized.encode (.map [("+0", .list [.str "a\"b;c", .null])])) =
      .ok (.list [.list [.str "a\"b;c", .null]]) :=
  (decode_encode_serialized (v := .map [("+0", .list [.str "a\"b;c", .null])])
    (by simp [WellFormed, FieldsWellFormed, ItemsWellFormed, Entries.Ascending]) (by decide)
    "tags").1
    (by decide)

/-- What the serialized codec gives back is the value that was encoded with the list of its values
in the place of every map whose names are the numerals from zero on, at every depth; so it is the
value itself if there is no such map, and only then. -/
theorem eq_listed_of_decode_encode {v w : Value} {field : String} (hv : v.WellFormed)
    (hplain : v.SpelledPlainly)
    (h : serialized.decode field (serialized.encode v) = .ok w) :
    w = v.listed areNumerals ∧ (w = v ↔ v.EveryMap fun names => areNumerals names = false) := by
  rcases read_write hv with ⟨hread, _⟩ | ⟨fault, hread, _⟩
  · rw [decode_serialized_of_read hread] at h
    cases h
    rw [listed_congr hplain]
    exact ⟨rfl, listed_eq_self_iff v⟩
  · rw [decode_serialized_of_read hread] at h
    cases h

/-- A map of a numeral is given back as a list, and any other map inside as a map. -/
theorem eq_listed_of_decode_encode_nested :
    let v : Value := .map [("0", .map [("a", .null)])]
    let w : Value := .list [.map [("a", .null)]]
    serialized.decode "meta" (serialized.encode v) = .ok w ∧ v.listed areNumerals = w ∧ w ≠ v := by
  have hv : (Value.map [("0", .map [("a", .null)])]).WellFormed := by
    simp [WellFormed, FieldsWellFormed, Entries.Ascending]
  have hplain : (Value.map [("0", .map [("a", .null)])]).SpelledPlainly := by
    simp only [SpelledPlainly, EveryMap, EveryMapOfFields]
    decide
  have hread : serialized.decode "meta" (serialized.encode (.map [("0", .map [("a", .null)])])) =
      .ok (.list [.map [("a", .null)]]) := by
    decide +kernel
  have hlisted := eq_listed_of_decode_encode hv hplain hread
  exact ⟨hread, hlisted.1.symm, by decide⟩

/-- The empty map is given back as the empty list. -/
theorem decode_encode_ne_of_empty_map :
    (Value.map []).WellFormed ∧
      serialized.decode "meta" (serialized.encode (.map [])) = .ok (.list []) ∧
      Value.list [] ≠ .map [] :=
  ⟨⟨List.Pairwise.nil, trivial⟩, by decide +kernel, by decide⟩

end Codec
end RecordFilter
