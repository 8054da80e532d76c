/-
Byte offsets in a text. Positions that the library reports count UTF-8 bytes, while the text
itself is a list of characters; `byteLength` is the bridge. `slice?` takes the part between two
offsets and fails when they are out of order, out of range, or inside a character.
-/

namespace RecordFilter
namespace Text

/-- The number of bytes a text takes. -/
def byteLength : List Char → Nat
  | [] => 0
  | c :: rest => c.utf8Size + byteLength rest

@[simp] theorem byteLength_nil : byteLength [] = 0 := rfl

@[simp] theorem byteLength_cons (c : Char) (rest : List Char) :
    byteLength (c :: rest) = c.utf8Size + byteLength rest := rfl

@[simp] theorem byteLength_append (left right : List Char) :
    byteLength (left ++ right) = byteLength left + byteLength right := by
  induction left with
  | nil => simp
  | cons c rest ih => simp [ih, Nat.add_assoc]

/-- The characters that fill exactly `count` bytes at the start. -/
def take? : Nat → List Char → Option (List Char)
  | 0, _ => some []
  | _ + 1, [] => none
  | count + 1, c :: rest =>
      if c.utf8Size ≤ count + 1 then
        (take? (count + 1 - c.utf8Size) rest).map (c :: ·)
      else none

def drop? : Nat → List Char → Option (List Char)
  | 0, text => some text
  | _ + 1, [] => none
  | count + 1, c :: rest =>
      if c.utf8Size ≤ count + 1 then drop? (count + 1 - c.utf8Size) rest
      else none

/-- The text between two byte offsets, if both fall between characters and are in order. -/
def slice? (text : List Char) (start stop : Nat) : Option (List Char) :=
  if start ≤ stop then (drop? start text).bind (take? (stop - start)) else none

def sliceFrom? (text : List Char) (start : Nat) : Option (List Char) :=
  drop? start text

def encode (text : List Char) : List UInt8 :=
  text.flatMap String.utf8EncodeChar

def byteAt? (text : List Char) (position : Nat) : Option UInt8 :=
  (encode text)[position]?

theorem take?_zero (text : List Char) : take? 0 text = some [] := by
  cases text <;> rfl

theorem drop?_zero (text : List Char) : drop? 0 text = some text := by
  cases text <;> rfl

theorem take?_append (left right : List Char) :
    take? (byteLength left) (left ++ right) = some left := by
  induction left with
  | nil => exact take?_zero right
  | cons c rest ih =>
      have hpos : 0 < c.utf8Size := Char.utf8Size_pos c
      obtain ⟨n, hn⟩ : ∃ n, byteLength (c :: rest) = n + 1 :=
        ⟨c.utf8Size + byteLength rest - 1, by rw [byteLength_cons]; omega⟩
      have hsub : n + 1 - c.utf8Size = byteLength rest := by
        rw [← hn, byteLength_cons]; omega
      have hle : c.utf8Size ≤ n + 1 := by rw [← hn, byteLength_cons]; omega
      rw [hn, List.cons_append, take?, if_pos hle, hsub, ih]
      rfl

theorem drop?_append (left right : List Char) :
    drop? (byteLength left) (left ++ right) = some right := by
  induction left with
  | nil => exact drop?_zero right
  | cons c rest ih =>
      have hpos : 0 < c.utf8Size := Char.utf8Size_pos c
      obtain ⟨n, hn⟩ : ∃ n, byteLength (c :: rest) = n + 1 :=
        ⟨c.utf8Size + byteLength rest - 1, by rw [byteLength_cons]; omega⟩
      have hsub : n + 1 - c.utf8Size = byteLength rest := by
        rw [← hn, byteLength_cons]; omega
      have hle : c.utf8Size ≤ n + 1 := by rw [← hn, byteLength_cons]; omega
      rw [hn, List.cons_append, drop?, if_pos hle, hsub, ih]

/-- A slice between the two ends of a part of the text is that part. -/
theorem slice?_append (left middle right : List Char) :
    slice? (left ++ (middle ++ right)) (byteLength left)
        (byteLength left + byteLength middle) = some middle := by
  have hle : byteLength left ≤ byteLength left + byteLength middle := Nat.le_add_right _ _
  rw [slice?, if_pos hle, drop?_append, Option.bind_some, Nat.add_sub_cancel_left,
    take?_append]

end Text
end RecordFilter
