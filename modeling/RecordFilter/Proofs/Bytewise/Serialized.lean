/-
Reading a serialized text by position is reading it.  A position goes with the cursor that has the
bytes from there on, `At`.  A reader by position follows a reader with a cursor if it reports the
same faults and otherwise gives what belongs to the result of the other, `Follows`; readers that do
so one after the other still do so, `Follows.bind`.

The depth that is counted up and the depth that is left add up to the limit, and the levels that the
reader by position has are one more than what is left.
-/
import RecordFilter.Bytewise.Serialized
import RecordFilter.Codec.Basic
import RecordFilter.Proofs.Bytewise.Access

namespace RecordFilter
namespace Bytewise

/-! ## Following a computation -/

/-- A computation by position that reports the faults of another one, and otherwise has a result
that belongs to the result of the other. -/
def Follows {ε α β : Type} (belongs : α → β → Prop) (x : Except (Stop ε) α) (y : Except ε β) :
    Prop :=
  match y with
  | .error e => x = .error (.fault e)
  | .ok b => ∃ a, x = .ok a ∧ belongs a b

section

variable {ε α β α' β' : Type}

theorem Follows.bind {belongs : α → β → Prop} {belongs' : α' → β' → Prop}
    {x : Except (Stop ε) α} {y : Except ε β} {f : α → Except (Stop ε) α'} {g : β → Except ε β'}
    (h : Follows belongs x y) (hnext : ∀ a b, belongs a b → Follows belongs' (f a) (g b)) :
    Follows belongs' (x >>= f) (y >>= g) := by
  cases y with
  | error e =>
      obtain rfl : x = .error (.fault e) := h
      exact rfl
  | ok b =>
      obtain ⟨a, rfl, hbelongs⟩ := h
      exact hnext a b hbelongs

theorem follows_lift (y : Except ε β) : Follows Eq (lift y) y := by
  cases y with
  | error e => exact rfl
  | ok b => exact ⟨b, rfl, rfl⟩

theorem Follows.eq_lift {x : Except (Stop ε) β} {y : Except ε β} (h : Follows Eq x y) :
    x = lift y := by
  cases y with
  | error e => exact h
  | ok b =>
      obtain ⟨a, rfl, rfl⟩ := h
      rfl

end

namespace Serialized

open Number Text
open RecordFilter.Serialized (Cursor byte characters depthLimit greatestPosition keyName ofEntries
  readBool readFloat readInt)

variable {source : List UInt8} {α : Type}

/-! ## Positions and cursors -/

/-- A cursor with the bytes from its position on. -/
structure At (source : List UInt8) (here : Cursor) : Prop where
  le_length : here.position ≤ source.length
  rest_eq : here.rest = source.drop here.position

/-- The position of a cursor. -/
inductive SamePosition (source : List UInt8) : Nat → Cursor → Prop where
  | intro {here : Cursor} (h : At source here) : SamePosition source here.position here

/-- The same result, at the position of a cursor. -/
inductive SameResult (source : List UInt8) : α × Nat → α × Cursor → Prop where
  | intro {a : α} {here : Cursor} (h : At source here) :
      SameResult source (a, here.position) (a, here)

/-- The same result, at the position of a cursor and inside of so many arrays. -/
inductive SameValue (source : List UInt8) (depth : Nat) : α × Place → α × Cursor → Prop where
  | intro {a : α} {here : Cursor} (h : At source here) :
      SameValue source depth (a, { current := here.position, depth }) (a, here)

namespace At

variable {here : Cursor}

theorem getElem?_position (h : At source here) : source[here.position]? = here.rest.head? := by
  rw [h.rest_eq, List.head?_drop]

theorem length_rest (h : At source here) : here.position + here.rest.length = source.length := by
  have hle := h.le_length
  rw [h.rest_eq, List.length_drop]
  omega

theorem tail {b : UInt8} {rest : List UInt8} (h : At source here) (hrest : here.rest = b :: rest) :
    At source { rest, position := here.position + 1 } := by
  have hlength := h.length_rest
  rw [hrest, List.length_cons] at hlength
  refine ⟨by show here.position + 1 ≤ _; omega, ?_⟩
  rw [← List.drop_drop, ← h.rest_eq, hrest]
  rfl

theorem drop (h : At source here) {n : Nat} (hn : n ≤ here.rest.length) :
    At source { rest := here.rest.drop n, position := here.position + n } := by
  have hlength := h.length_rest
  refine ⟨by show here.position + n ≤ _; omega, ?_⟩
  rw [h.rest_eq, List.drop_drop]

theorem exists_append (h : At source here) :
    ∃ front, source = front ++ here.rest ∧ front.length = here.position := by
  refine ⟨source.take here.position, ?_, List.length_take_of_le h.le_length⟩
  rw [h.rest_eq, List.take_append_drop]

end At

/-! ## Parts -/

theorem follows_expect {here : Cursor} (h : At source here) (b : UInt8) :
    Follows (SamePosition source) (expect source b here.position)
      (RecordFilter.Serialized.expect b here) := by
  rw [expect, RecordFilter.Serialized.expect, h.getElem?_position]
  cases hrest : here.rest with
  | nil => exact rfl
  | cons a rest =>
      by_cases hb : a = b
      · simp only [List.head?_cons, if_pos hb]
        exact ⟨_, rfl, .intro (h.tail hrest)⟩
      · simp only [List.head?_cons, if_neg hb]
        exact rfl

/-- The part goes on from what has been passed to the next byte of the kind. -/
theorem partFrom_append (b : UInt8) (front part tail : List UInt8) :
    partFrom (front ++ (part ++ tail)) b front.length (front.length + part.length) =
      match tail.dropWhile (· != b) with
      | [] => .error (.fault (.unterminated front.length))
      | _ :: _ => (lift (characters (part ++ tail.takeWhile (· != b)))).map fun text =>
          (text, front.length + (part ++ tail.takeWhile (· != b)).length + 1) := by
  induction tail generalizing part with
  | nil =>
      rw [partFrom]
      split
      · rfl
      · rename_i a ha
        rw [List.append_nil, ← List.length_append, List.getElem?_eq_none (Nat.le_refl _)] at ha
        cases ha
  | cons a tail ih =>
      have hget : (front ++ (part ++ a :: tail))[front.length + part.length]? = some a := by
        rw [← List.append_assoc, ← List.length_append, getElem?_append_length, List.head?_cons]
      rw [partFrom]
      split
      · rename_i hnone
        rw [hget] at hnone
        cases hnone
      · rename_i a' ha'
        obtain rfl : a = a' := Option.some.inj (hget.symm.trans ha')
        by_cases hb : a = b
        · have hdrop : (a :: tail).dropWhile (· != b) = a :: tail := by
            rw [List.dropWhile_cons_of_neg]
            simp [hb]
          have htake : (a :: tail).takeWhile (· != b) = [] := by
            rw [List.takeWhile_cons_of_neg]
            simp [hb]
          simp only [if_pos hb, minus_add, ok_bind, between_append, hdrop, htake, List.append_nil]
          cases characters part <;> rfl
        · have hne : (a != b) = true := bne_iff_ne.mpr hb
          have hnext := ih (part ++ [a])
          rw [List.append_assoc, List.singleton_append, List.length_append, List.length_singleton,
            ← Nat.add_assoc] at hnext
          rw [if_neg hb, hnext, List.dropWhile_cons_of_pos (p := (· != b)) hne,
            List.takeWhile_cons_of_pos (p := (· != b)) hne, List.append_assoc,
            List.singleton_append]

theorem follows_readPart {here : Cursor} (h : At source here) (b : UInt8) :
    Follows (SameResult source) (readPart source b here.position)
      (RecordFilter.Serialized.upTo b here) := by
  obtain ⟨front, hsource, hfront⟩ := h.exists_append
  have hpart := partFrom_append b front [] here.rest
  rw [List.nil_append, List.nil_append, List.length_nil, Nat.add_zero, ← hsource, hfront] at hpart
  rw [readPart, hpart, RecordFilter.Serialized.upTo]
  cases hdrop : here.rest.dropWhile (· != b) with
  | nil => exact rfl
  | cons a rest =>
      cases characters (here.rest.takeWhile (· != b)) with
      | error fault => exact rfl
      | ok text =>
          have hsplit := List.takeWhile_append_dropWhile (p := (· != b)) (l := here.rest)
          rw [hdrop] at hsplit
          have hlength : (here.rest.takeWhile (· != b)).length ≤ here.rest.length :=
            (List.takeWhile_sublist _).length_le
          have hdropped := @List.drop_left _ (here.rest.takeWhile (· != b)) (a :: rest)
          rw [hsplit] at hdropped
          exact ⟨_, rfl, .intro ((h.drop hlength).tail hdropped)⟩

/-! ## Values without entries -/

variable {here : Cursor}

/-- The bytes of a string are there if the text is that long. -/
theorem bytesBetween?_eq (h : At source here) (length : Nat) :
    bytesBetween? source here.position (here.position + length) =
      if here.rest.length < length then none else some (here.rest.take length) := by
  have hlength := h.length_rest
  rw [bytesBetween?]
  by_cases hshort : here.rest.length < length
  · rw [if_pos hshort, if_neg (by omega)]
  · rw [if_neg hshort, if_pos (by omega), List.drop_take, ← h.rest_eq, Nat.add_sub_cancel_left]

theorem follows_readString (h : At source here) :
    Follows (SameResult source) (readString source here.position)
      (RecordFilter.Serialized.readString here) := by
  refine (follows_readPart h (byte ':')).bind ?_
  rintro _ ⟨lengthText, here⟩ ⟨h⟩
  dsimp only
  cases readCount? lengthText with
  | none => exact rfl
  | some length =>
      refine (follows_expect h (byte '"')).bind ?_
      rintro _ here ⟨h⟩
      by_cases hoverrun : greatestPosition < here.position + length
      · simp only [if_pos hoverrun]
        exact rfl
      · simp only [if_neg hoverrun, bytesBetween?_eq h]
        by_cases hshort : here.rest.length < length
        · simp only [if_pos hshort]
          exact rfl
        · simp only [if_neg hshort]
          refine (follows_lift (characters (here.rest.take length))).bind ?_
          rintro text - rfl
          refine (follows_expect (h.drop (Nat.le_of_not_lt hshort)) (byte '"')).bind ?_
          rintro _ here ⟨h⟩
          refine (follows_expect h (byte ';')).bind ?_
          rintro _ here ⟨h⟩
          exact ⟨_, rfl, .intro h⟩

/-- A value that is one part of the text, however that part is read. -/
theorem follows_part (h : At source here) (readText : List Char → Except SerializedFault Value) :
    Follows (SameResult source)
      (readPart source (byte ';') here.position >>= fun found =>
        lift (readText found.1) >>= fun v => .ok (v, found.2))
      (RecordFilter.Serialized.upTo (byte ';') here >>= fun found =>
        readText found.1 >>= fun v => .ok (v, found.2)) := by
  refine (follows_readPart h (byte ';')).bind ?_
  rintro _ ⟨text, here⟩ ⟨h⟩
  refine (follows_lift (readText text)).bind ?_
  rintro v - rfl
  exact ⟨_, rfl, .intro h⟩

theorem follows_readScalar (h : At source here) (tag : UInt8) :
    Follows (SameResult source) (readScalar source tag here.position)
      (RecordFilter.Serialized.readScalar tag here) := by
  rw [readScalar, RecordFilter.Serialized.readScalar]
  by_cases hbool : tag = byte 'b'
  · rw [if_pos hbool, if_pos hbool]
    exact follows_part h readBool
  · rw [if_neg hbool, if_neg hbool]
    by_cases hint : tag = byte 'i'
    · rw [if_pos hint, if_pos hint]
      exact follows_part h readInt
    · rw [if_neg hint, if_neg hint]
      by_cases hfloat : tag = byte 'd'
      · rw [if_pos hfloat, if_pos hfloat]
        exact follows_part h readFloat
      · rw [if_neg hfloat, if_neg hfloat]
        by_cases hstring : tag = byte 's'
        · rw [if_pos hstring, if_pos hstring]
          refine (follows_readString h).bind ?_
          rintro _ ⟨s, here⟩ ⟨h⟩
          exact ⟨_, rfl, .intro h⟩
        · rw [if_neg hstring, if_neg hstring]
          exact rfl

/-! ## Arrays -/

theorem follows_readArrayStart (h : At source here) :
    Follows (SameResult source) (readArrayStart source here.position)
      (RecordFilter.Serialized.readArrayStart here) := by
  refine (follows_readPart h (byte ':')).bind ?_
  rintro _ ⟨countText, here⟩ ⟨h⟩
  dsimp only
  cases readCount? countText with
  | none => exact rfl
  | some count =>
      refine (follows_expect h (byte '\x7b')).bind ?_
      rintro _ here ⟨h⟩
      exact ⟨_, rfl, .intro h⟩

/-- The entries are read alike if each value is. -/
theorem follows_readEntries {depth : Nat}
    {readAt : Place → Except (Stop SerializedFault) (Value × Place)}
    {readHere : Cursor → Except SerializedFault (Value × Cursor)}
    (hread : ∀ here, At source here →
      Follows (SameValue source depth) (readAt { current := here.position, depth }) (readHere here))
    (h : At source here) (count : Nat) :
    Follows (SameValue source depth) (readEntries readAt count { current := here.position, depth })
      (RecordFilter.Serialized.readEntries readHere count here) := by
  induction count generalizing here with
  | zero => exact ⟨_, rfl, .intro h⟩
  | succ count ih =>
      refine (hread here h).bind ?_
      rintro _ ⟨key, here⟩ ⟨h⟩
      refine (follows_lift (keyName key)).bind ?_
      rintro name - rfl
      refine (hread here h).bind ?_
      rintro _ ⟨v, here⟩ ⟨h⟩
      refine (ih h).bind ?_
      rintro _ ⟨entries, here⟩ ⟨h⟩
      exact ⟨_, rfl, .intro h⟩

theorem room_eq (h : At source here) (count : Nat) :
    room source count here.position = .ok (min count here.rest.length) := by
  have hlength := h.length_rest
  rw [room, ← hlength, Nat.add_comm, minus_add]
  rfl

/-- A reader that enters no array leaves the depth as it is. -/
theorem follows_inside {x : Except (Stop SerializedFault) (α × Nat)}
    {y : Except SerializedFault (α × Cursor)} (h : Follows (SameResult source) x y) (depth : Nat) :
    Follows (SameValue source depth)
      (x >>= fun found => .ok (found.1, { current := found.2, depth })) y := by
  cases y with
  | error fault =>
      obtain rfl : x = .error (.fault fault) := h
      exact rfl
  | ok found =>
      obtain ⟨_, rfl, ⟨hat⟩⟩ := h
      exact ⟨_, rfl, .intro hat⟩

/-- Going into an array counts up what is left of the limit, and going out of it counts it down. -/
theorem follows_readValue {left depth : Nat} {here : Cursor} (hdepth : depth + left = depthLimit)
    (h : At source here) :
    Follows (SameValue source depth)
      (readValue source (left + 1) { current := here.position, depth })
      (RecordFilter.Serialized.readValue left here) := by
  rw [readValue, RecordFilter.Serialized.readValue.eq_def, h.getElem?_position]
  cases hrest : here.rest with
  | nil => exact rfl
  | cons tag rest =>
      have htail := h.tail hrest
      by_cases hnull : tag = byte 'N'
      · simp only [List.head?_cons, if_pos hnull]
        refine (follows_expect htail (byte ';')).bind ?_
        rintro _ here ⟨h⟩
        exact ⟨_, rfl, .intro h⟩
      · simp only [List.head?_cons, if_neg hnull]
        refine (follows_expect htail (byte ':')).bind ?_
        rintro _ here ⟨h⟩
        by_cases harray : tag = byte 'a'
        · simp only [if_pos harray]
          refine (follows_readArrayStart h).bind ?_
          rintro _ ⟨count, here⟩ ⟨h⟩
          cases left with
          | zero =>
              have hlimit : depth = depthLimit := hdepth
              simp only [if_pos hlimit]
              exact rfl
          | succ left =>
              have hlimit : depth ≠ depthLimit := by omega
              have hinside : depth + 1 + left = depthLimit := by omega
              simp only [if_neg hlimit, room_eq h, ok_bind]
              have hread : ∀ here, At source here → Follows (SameValue source (depth + 1))
                  (readValue source (left + 1) { current := here.position, depth := depth + 1 })
                  (RecordFilter.Serialized.readValue left here) :=
                fun here hat => follows_readValue hinside hat
              refine (follows_readEntries hread h count).bind ?_
              rintro _ ⟨entries, here⟩ ⟨h⟩
              refine (follows_expect h (byte '\x7d')).bind ?_
              rintro _ here ⟨h⟩
              simp only [minus_add, ok_bind]
              exact ⟨_, rfl, .intro h⟩
        · simp only [if_neg harray]
          exact follows_inside (follows_readScalar h tag) depth
termination_by left

/-- Reading a text by position is reading it. -/
theorem read_eq (text : List Char) : read text = lift (RecordFilter.Serialized.read text) := by
  have hstart : At (encode text) { rest := encode text, position := 0 } :=
    ⟨Nat.zero_le _, List.drop_zero.symm⟩
  refine Follows.eq_lift ?_
  refine (follows_readValue (Nat.zero_add depthLimit) hstart).bind ?_
  rintro _ ⟨v, here⟩ ⟨h⟩
  have hlength := h.length_rest
  cases hrest : here.rest with
  | nil =>
      rw [hrest, List.length_nil, Nat.add_zero] at hlength
      simp only [hlength, ne_eq, not_true_eq_false, if_false, hrest, List.isEmpty_nil, if_true]
      exact ⟨v, rfl, rfl⟩
  | cons b rest =>
      rw [hrest, List.length_cons] at hlength
      have hne : here.position ≠ (encode text).length := by omega
      simp only [hne, ne_eq, not_false_eq_true, if_true, hrest, List.isEmpty_cons,
        Bool.false_eq_true, if_false]
      exact rfl

end Serialized

/-- Decoding a stored text by position is decoding it. -/
theorem decode_eq (field text : String) :
    decode field text = lift (Codec.serialized.decode field text) := by
  rw [decode, Serialized.read_eq, Codec.decode, Codec.decode?]
  cases RecordFilter.Serialized.read text.toList <;> rfl

end Bytewise
end RecordFilter
