/-
A serialized text says where it ends.  A reader that succeeds has looked only at the bytes that it
has moved over, so it reads them in the same way whatever follows them.  `Local` says this of a
reader, and readers that are made of local ones are local again: so is the reader of values, over
the depth of arrays and the number of their entries.

A text that is read is therefore read up to its end in front of any other text as well, and what
follows is trailing data: no text that is read is the beginning of another one.
-/
import Mathlib.Data.List.TakeWhile
import RecordFilter.Codec.Basic
import RecordFilter.Proofs.Codec.Shorter
import RecordFilter.Proofs.Text.Utf8

namespace RecordFilter
namespace Text

theorem encode_ne_nil {text : List Char} (h : text ≠ []) : encode text ≠ [] := by
  obtain ⟨c, rest, rfl⟩ := List.exists_cons_of_ne_nil h
  have hpos := Char.utf8Size_pos c
  intro hnil
  have hlength := length_encode (c :: rest)
  rw [hnil, List.length_nil, byteLength_cons] at hlength
  omega

end Text

namespace Serialized

open Number Text

variable {α β : Type}

/-- The reader gets from here to there over a part of the text, which it reads with the same result
whatever follows that part. -/
def Passes (reader : Cursor → Except SerializedFault (α × Cursor)) (here after : Cursor) (a : α) :
    Prop :=
  ∃ part, here.rest = part ++ after.rest ∧ after.position = here.position + part.length ∧
    ∀ rest, reader { rest := part ++ rest, position := here.position } =
      .ok (a, { rest, position := after.position })

/-- A reader that looks only at the bytes that it moves over. -/
def Local (reader : Cursor → Except SerializedFault (α × Cursor)) : Prop :=
  ∀ ⦃here after : Cursor⦄ ⦃a : α⦄, reader here = .ok (a, after) → Passes reader here after a

/-! ## Readers made of readers -/

theorem local_error (fault : SerializedFault) :
    Local fun _ => (.error fault : Except SerializedFault (α × Cursor)) := by
  intro here after a h
  cases h

theorem local_ok (a : α) : Local fun here => .ok (a, here) := by
  intro here after b h
  cases h
  exact ⟨[], rfl, rfl, fun _ => rfl⟩

theorem Local.bind {first : Cursor → Except SerializedFault (α × Cursor)}
    {next : α × Cursor → Except SerializedFault (β × Cursor)} (hfirst : Local first)
    (hnext : ∀ a, Local fun here => next (a, here)) : Local fun here => first here >>= next := by
  intro here after b h
  obtain ⟨⟨a, middle⟩, ha, hb⟩ := bind_eq_ok_iff.mp h
  obtain ⟨part, hrest, hposition, hagain⟩ := hfirst ha
  obtain ⟨more, hmore, hbehind, hagainBehind⟩ := hnext a hb
  refine ⟨part ++ more, ?_, ?_, fun rest => ?_⟩
  · rw [hrest, hmore, List.append_assoc]
  · rw [hbehind, hposition, List.length_append, Nat.add_assoc]
  · dsimp only
    rw [List.append_assoc, hagain, ok_bind]
    exact hagainBehind rest

/-- What is made of a result, without moving on. -/
theorem Local.andThen {first : Cursor → Except SerializedFault (α × Cursor)}
    (hfirst : Local first) (f : α → Except SerializedFault β) :
    Local fun here => first here >>= fun found => f found.1 >>= fun b => .ok (b, found.2) := by
  refine hfirst.bind fun a => ?_
  dsimp only
  cases f a with
  | error fault => exact local_error fault
  | ok b => exact local_ok b

/-- A byte in front of what a reader reads. -/
theorem Passes.cons {reader next : Cursor → Except SerializedFault (α × Cursor)} {tag : UInt8}
    (hreader : ∀ rest position, reader { rest := tag :: rest, position } =
      next { rest, position := position + 1 })
    {rest : List UInt8} {position : Nat} {after : Cursor} {a : α}
    (h : Passes next { rest, position := position + 1 } after a) :
    Passes reader { rest := tag :: rest, position } after a := by
  obtain ⟨part, hrest, hposition, hagain⟩ := h
  refine ⟨tag :: part, congrArg (tag :: ·) hrest, ?_, fun rest => ?_⟩
  · rw [hposition, List.length_cons]
    dsimp only
    omega
  · rw [List.cons_append, hreader]
    exact hagain rest

theorem expect_cons (b : UInt8) (rest : List UInt8) (position : Nat) :
    expect b { rest := b :: rest, position } = .ok { rest, position := position + 1 } :=
  if_pos rfl

theorem expect_cons_of_ne {a b : UInt8} (h : a ≠ b) (rest : List UInt8) (position : Nat) :
    expect b { rest := a :: rest, position } = .error (.expected b position) :=
  if_neg h

theorem Local.behind {next : Cursor → Except SerializedFault (α × Cursor)} (hnext : Local next)
    (b : UInt8) : Local fun here => expect b here >>= next := by
  rintro ⟨_ | ⟨tag, rest⟩, position⟩ after a h
  · cases h
  · by_cases htag : tag = b
    · subst htag
      have hreader : ∀ rest position, (expect tag { rest := tag :: rest, position } >>= next) =
          next { rest, position := position + 1 } := by
        intro rest position
        rw [expect_cons, ok_bind]
      dsimp only at h
      rw [hreader] at h
      exact (hnext h).cons hreader
    · obtain ⟨behind, hbehind, _⟩ := bind_eq_ok_iff.mp h
      rw [expect_cons_of_ne htag] at hbehind
      cases hbehind

/-- Stopping at some positions. -/
theorem Local.unless {next : Cursor → Except SerializedFault (α × Cursor)} (hnext : Local next)
    (stops : Nat → Prop) [DecidablePred stops] (fault : SerializedFault) :
    Local fun here => if stops here.position then .error fault else next here := by
  intro here after a h
  dsimp only at h
  split at h
  · cases h
  · rename_i hgoes
    obtain ⟨part, hrest, hposition, hagain⟩ := hnext h
    refine ⟨part, hrest, hposition, fun rest => ?_⟩
    dsimp only
    rw [if_neg hgoes]
    exact hagain rest

/-- Whether there are so many bytes is asked only about bytes that are then moved over. -/
theorem Local.taking {next : List UInt8 → Cursor → Except SerializedFault (α × Cursor)}
    (hnext : ∀ content, Local (next content)) (length : Nat) (fault : SerializedFault) :
    Local fun here =>
      if here.rest.length < length then .error fault
      else next (here.rest.take length)
        { rest := here.rest.drop length, position := here.position + length } := by
  intro here after a h
  dsimp only at h
  split at h
  · cases h
  · obtain ⟨part, hrest, hposition, hagain⟩ := hnext _ h
    have hlength : (here.rest.take length).length = length := by
      rw [List.length_take]
      omega
    refine ⟨here.rest.take length ++ part, ?_, ?_, fun rest => ?_⟩
    · dsimp only at hrest
      rw [List.append_assoc, ← hrest, List.take_append_drop]
    · rw [hposition, List.length_append, hlength, Nat.add_assoc]
    · have hlong : ¬ (here.rest.take length ++ (part ++ rest)).length < length := by
        rw [List.length_append, hlength]
        omega
      dsimp only
      rw [List.append_assoc, if_neg hlong, List.take_left' hlength, List.drop_left' hlength]
      exact hagain rest

/-! ## The readers -/

theorem local_upTo (b : UInt8) : Local (upTo b) := by
  intro here after text h
  rw [upTo] at h
  split at h
  · cases h
  · rename_i c tail hdrop
    obtain ⟨text', htext, heq⟩ := map_eq_ok_iff.mp h
    cases heq
    have hwithin : ∀ a ∈ here.rest.takeWhile (· != b), (a != b) = true := fun a ha =>
      List.mem_takeWhile_imp (p := (· != b)) ha
    have hends : ¬ (c != b) = true := by
      have hhead := List.head?_dropWhile_not (· != b) here.rest
      rw [hdrop] at hhead
      simpa using hhead
    refine ⟨here.rest.takeWhile (· != b) ++ [c], ?_, ?_, fun rest => ?_⟩
    · rw [List.append_assoc, List.singleton_append, ← hdrop, List.takeWhile_append_dropWhile]
    · rw [List.length_append, List.length_singleton, Nat.add_assoc]
    · have hpart : (here.rest.takeWhile (· != b) ++ c :: rest).takeWhile (· != b) =
          here.rest.takeWhile (· != b) := by
        rw [List.takeWhile_append_of_pos hwithin,
          List.takeWhile_cons_of_neg (p := (· != b)) hends, List.append_nil]
      have htail : (here.rest.takeWhile (· != b) ++ c :: rest).dropWhile (· != b) = c :: rest := by
        rw [List.dropWhile_append_of_pos hwithin, List.dropWhile_cons_of_neg (p := (· != b)) hends]
      rw [upTo, List.append_assoc, List.singleton_append]
      dsimp only
      rw [htail, hpart, htext]
      rfl

theorem local_readString : Local readString := by
  have hclose : ∀ content, Local fun here =>
      characters content >>= fun text => expect (byte '"') here >>= fun here =>
        expect (byte ';') here >>= fun here => .ok (String.ofList text, here) := by
    intro content
    cases characters content with
    | error fault => exact local_error fault
    | ok text => exact ((local_ok (String.ofList text)).behind (byte ';')).behind (byte '"')
  unfold readString
  refine (local_upTo (byte ':')).bind fun lengthText => ?_
  dsimp only
  cases readCount? lengthText with
  | none => exact local_error _
  | some length =>
      refine Local.behind ?_ (byte '"')
      refine Local.unless ?_ (fun position => greatestPosition < position + length) _
      exact Local.taking hclose length .stringPastEnd

theorem local_readScalar (tag : UInt8) : Local (readScalar tag) := by
  unfold readScalar
  split
  · exact (local_upTo (byte ';')).andThen readBool
  · split
    · exact (local_upTo (byte ';')).andThen readInt
    · split
      · exact (local_upTo (byte ';')).andThen readFloat
      · split
        · refine local_readString.bind fun s => ?_
          exact local_ok (Value.str s)
        · exact local_error (.unknownTag tag)

theorem local_readArrayStart : Local readArrayStart := by
  unfold readArrayStart
  refine (local_upTo (byte ':')).bind fun countText => ?_
  dsimp only
  cases readCount? countText with
  | none => exact local_error _
  | some count => exact (local_ok count).behind (byte '\x7b')

theorem local_readEntries {readValue : Cursor → Except SerializedFault (Value × Cursor)}
    (hread : Local readValue) (count : Nat) : Local (readEntries readValue count) := by
  induction count with
  | zero => exact local_ok []
  | succ count ih =>
      refine hread.bind fun key => ?_
      dsimp only
      cases keyName key with
      | error fault => exact local_error fault
      | ok name =>
          refine hread.bind fun v => ?_
          dsimp only
          refine ih.bind fun entries => ?_
          exact local_ok ((name, v) :: entries)

/-- A value is null, or an array that is read in some way, or a scalar. -/
theorem local_readValue_of_array {depth : Nat}
    {array : Nat → Cursor → Except SerializedFault (Value × Cursor)}
    (harray : ∀ count, Local (array count))
    (heq : ∀ {tag}, tag ≠ byte 'N' → ∀ rest position,
      readValue depth { rest := tag :: rest, position } =
        (expect (byte ':') { rest, position := position + 1 } >>= fun here =>
          if tag = byte 'a' then readArrayStart here >>= fun found => array found.1 found.2
          else readScalar tag here)) :
    Local (readValue depth) := by
  rintro ⟨_ | ⟨tag, rest⟩, position⟩ after v h
  · rw [readValue.eq_def] at h
    cases h
  · by_cases hnull : tag = byte 'N'
    · have hreader : ∀ rest position, readValue depth { rest := tag :: rest, position } =
          (expect (byte ';') { rest, position := position + 1 } >>= fun here =>
            .ok (.null, here)) := by
        intro rest position
        rw [readValue.eq_def]
        exact if_pos hnull
      rw [hreader] at h
      exact ((local_ok Value.null).behind (byte ';') h).cons hreader
    · have hlocal : Local fun here =>
          if tag = byte 'a' then readArrayStart here >>= fun found => array found.1 found.2
          else readScalar tag here := by
        split
        · exact local_readArrayStart.bind harray
        · exact local_readScalar tag
      rw [heq hnull] at h
      exact (hlocal.behind (byte ':') h).cons (heq hnull)

/-- The reader of values looks only at what it reads. -/
theorem local_readValue (depth : Nat) : Local (readValue depth) := by
  induction depth with
  | zero =>
      refine local_readValue_of_array (fun count => local_error (.tooDeep depthLimit)) ?_
      intro tag hnull rest position
      rw [readValue.eq_def]
      exact if_neg hnull
  | succ depth ih =>
      have harray : ∀ count, Local fun here =>
          readEntries (readValue depth) count here >>= fun filled =>
            expect (byte '\x7d') filled.2 >>= fun here => .ok (ofEntries filled.1, here) := by
        intro count
        refine (local_readEntries ih count).bind fun entries => ?_
        exact (local_ok (ofEntries entries)).behind (byte '\x7d')
      refine local_readValue_of_array harray ?_
      intro tag hnull rest position
      rw [readValue.eq_def]
      exact if_neg hnull

/-! ## Whole texts -/

/-- A text that is read is read up to its end, in front of anything else too. -/
theorem readValue_of_read {text : List Char} {v : Value} (h : read text = .ok v)
    (rest : List UInt8) :
    readValue depthLimit { rest := encode text ++ rest, position := 0 } =
      .ok (v, { rest, position := byteLength text }) := by
  obtain ⟨⟨w, after⟩, hread, h⟩ := bind_eq_ok_iff.mp h
  obtain ⟨part, hpart, hposition, hagain⟩ := local_readValue depthLimit hread
  dsimp only at h
  split at h
  · rename_i hend
    cases h
    rw [List.isEmpty_iff.mp hend, List.append_nil] at hpart
    dsimp only at hpart hposition hagain
    rw [hposition, ← hpart, length_encode, Nat.zero_add] at hagain
    exact hagain rest
  · cases h

/-- Behind a text that is read, everything is trailing data. -/
theorem read_append {text more : List Char} {v : Value} (h : read text = .ok v)
    (hmore : more ≠ []) : read (text ++ more) = .error (.trailingData (byteLength text)) := by
  have hrest : ¬ (encode more).isEmpty = true := by
    rw [List.isEmpty_iff]
    exact encode_ne_nil hmore
  rw [read, encode_append, readValue_of_read h, ok_bind]
  exact if_neg hrest

end Serialized

namespace Codec

open Serialized

theorem decode_serialized_eq_ok_iff {field text : String} {v : Value} :
    serialized.decode field text = .ok v ↔ read text.toList = .ok v := by
  rw [decode, decode?]
  cases read text.toList with
  | ok w => simp
  | error fault => simp

theorem decode_serialized_append {field text more : String} {v : Value}
    (h : serialized.decode field text = .ok v) (hmore : more ≠ "") :
    serialized.decode field (text ++ more) =
      .error (.codec field (.serialized (.trailingData (Text.byteLength text.toList)))) := by
  have hne : more.toList ≠ [] := fun hnil => hmore (String.toList_eq_nil_iff.mp hnil)
  rw [decode, decode?, String.toList_append, read_append (decode_serialized_eq_ok_iff.mp h) hne]

theorem exists_append_of_prefix {front text : String} (h : front.toList <+: text.toList) :
    ∃ more, text = front ++ more := by
  obtain ⟨tail, htail⟩ := h
  refine ⟨String.ofList tail, String.toList_inj.mp ?_⟩
  rw [String.toList_append, String.toList_ofList, htail]

theorem decode_cases (codec : Codec) (field text : String) :
    (∃ v, codec.decode field text = .ok v) ∨
      ∃ fault, codec.decode field text = .error (.codec field fault) := by
  rw [decode]
  cases codec.decode? text with
  | ok v => exact .inl ⟨v, rfl⟩
  | error fault => exact .inr ⟨fault, rfl⟩

/-- A serialized text that is read is followed by nothing that could belong to it.  With more behind
it there is trailing data, so it isn't the beginning of another text that is read, and no beginning
of it is read. -/
theorem serialized_self_delimiting {field text : String} {v : Value}
    (h : serialized.decode field text = .ok v) :
    (∀ more, more ≠ "" → ∃ fault,
      serialized.decode field (text ++ more) = .error (.codec field fault) ∧
        fault.message = "Trailing data at " ++ toString (Text.byteLength text.toList)) ∧
    (∀ other w, serialized.decode field other = .ok w → text.toList <+: other.toList →
      other = text) ∧
    ∀ front, front.toList <+: text.toList → front ≠ text →
      ∃ fault, serialized.decode field front = .error (.codec field fault) := by
  refine ⟨?_, ?_, ?_⟩
  · intro more hmore
    exact ⟨_, decode_serialized_append h hmore, rfl⟩
  · intro other w hother hprefix
    obtain ⟨more, rfl⟩ := exists_append_of_prefix hprefix
    by_cases hmore : more = ""
    · rw [hmore, String.append_empty]
    · rw [decode_serialized_append h hmore] at hother
      cases hother
  · intro front hprefix hne
    obtain ⟨more, rfl⟩ := exists_append_of_prefix hprefix
    have hmore : more ≠ "" := by
      rintro rfl
      exact hne String.append_empty.symm
    rcases serialized.decode_cases field front with ⟨w, hw⟩ | hfault
    · rw [decode_serialized_append hw hmore] at h
      cases h
    · exact hfault

/-- A list of null, with a digit behind it and without its brace. -/
theorem serialized_self_delimiting_of_list :
    (∃ fault, serialized.decode "tags" ("a:1:\x7bi:0;N;\x7d" ++ "7") =
        .error (.codec "tags" fault) ∧ fault.message = "Trailing data at 12") ∧
      ∃ fault, serialized.decode "tags" "a:1:\x7bi:0;N;" = .error (.codec "tags" fault) := by
  have hread : serialized.decode "tags" "a:1:\x7bi:0;N;\x7d" = .ok (.list [.null]) := by
    decide +kernel
  obtain ⟨hlonger, _, hshorter⟩ := serialized_self_delimiting hread
  refine ⟨hlonger "7" (by decide), hshorter "a:1:\x7bi:0;N;" ?_ (by decide)⟩
  exact ⟨['\x7d'], by decide⟩

end Codec
end RecordFilter
