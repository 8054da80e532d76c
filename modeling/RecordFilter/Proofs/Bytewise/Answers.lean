/-
Reading by position always answers.  Every position, every difference and every slice that the
readers of templates, clauses, conditions and stored texts take is there: each of them ends with the
result or the fault that the reader in terms of characters has, whatever it is given.

Access does fail elsewhere: a part of a text is there only between two positions at which characters
of it start or end, `textBetween_eq_ok_iff`.
-/
import RecordFilter.Proofs.Bytewise.Filter
import RecordFilter.Proofs.Bytewise.Serialized

namespace RecordFilter

namespace Text

theorem exists_of_drop? {text rest : List Char} {count : Nat} (h : drop? count text = some rest) :
    ∃ front, text = front ++ rest ∧ byteLength front = count := by
  induction text generalizing count with
  | nil =>
      cases count with
      | zero => exact ⟨[], (Option.some.inj h), rfl⟩
      | succ count => cases h
  | cons c text ih =>
      cases count with
      | zero => exact ⟨[], Option.some.inj h, rfl⟩
      | succ count =>
          rw [drop?] at h
          split at h
          · rename_i hle
            obtain ⟨front, rfl, hlength⟩ := ih h
            refine ⟨c :: front, rfl, ?_⟩
            rw [byteLength_cons, hlength]
            omega
          · cases h

theorem exists_of_take? {text part : List Char} {count : Nat} (h : take? count text = some part) :
    ∃ back, text = part ++ back ∧ byteLength part = count := by
  induction text generalizing count part with
  | nil =>
      cases count with
      | zero =>
          cases h
          exact ⟨[], rfl, rfl⟩
      | succ count => cases h
  | cons c text ih =>
      cases count with
      | zero =>
          cases h
          exact ⟨c :: text, rfl, rfl⟩
      | succ count =>
          rw [take?] at h
          split at h
          · rename_i hle
            obtain ⟨more, hmore, rfl⟩ := Option.map_eq_some_iff.mp h
            obtain ⟨back, rfl, hlength⟩ := ih hmore
            refine ⟨back, rfl, ?_⟩
            rw [byteLength_cons, hlength]
            omega
          · cases h

end Text

namespace Bytewise

open Text

variable {ε α β : Type}

/-! ## Where access fails -/

/-- A text is cut in front of a character or behind one, and nowhere else. -/
theorem textBetween_eq_ok_iff {text part : List Char} {start stop : Nat} :
    textBetween (ε := ε) text start stop = .ok part ↔
      ∃ front back, text = front ++ (part ++ back) ∧ start = byteLength front ∧
        stop = byteLength front + byteLength part := by
  constructor
  · intro h
    cases hslice : slice? text start stop with
    | none =>
        rw [textBetween, hslice] at h
        cases h
    | some middle =>
        rw [textBetween, hslice] at h
        cases h
        rw [slice?] at hslice
        split at hslice
        · rename_i hle
          obtain ⟨rest, hdrop, htake⟩ := Option.bind_eq_some_iff.mp hslice
          obtain ⟨front, rfl, rfl⟩ := exists_of_drop? hdrop
          obtain ⟨back, rfl, hlength⟩ := exists_of_take? htake
          exact ⟨front, back, rfl, rfl, by omega⟩
        · cases hslice
  · rintro ⟨front, back, rfl, rfl, rfl⟩
    exact textBetween_append front part back

/-- Inside of a character there is no position, and no part is there the other way round. -/
example : textBetween (ε := Error) ['a', 'é', 'b'] 1 3 = .ok ['é'] ∧
    textBetween (ε := Error) ['a', 'é', 'b'] 1 2 = .error .outside ∧
    textBetween (ε := Error) ['a', 'é', 'b'] 3 1 = .error .outside ∧
    textBetween (ε := Error) ['a', 'é', 'b'] 3 5 = .error .outside := by
  decide

/-! ## Answers -/

/-- A computation by position that does not go outside: it answers with this result or fault. -/
structure Answers (x : Except (Stop ε) α) (answer : Except ε α) : Prop where
  inside : x ≠ .error .outside
  eq_answer : x = lift answer

theorem answers_of_eq {x : Except (Stop ε) α} {answer : Except ε α} (h : x = lift answer) :
    Answers x answer :=
  ⟨h ▸ lift_ne_outside answer, h⟩

/-- The texts of all tokens of a template. -/
def tokenTexts (template : List Char) : Except (Stop Error) (List (List Char)) := do
  let toks ← tokens template
  toks.mapM (tokenText template)

theorem mapM_eq_lift {f : α → Except (Stop ε) β} {g : α → Except ε β} {items : List α}
    (h : ∀ a ∈ items, f a = lift (g a)) : items.mapM f = lift (items.mapM g) := by
  induction items with
  | nil => rfl
  | cons a items ih =>
      rw [List.forall_mem_cons] at h
      rw [List.mapM_cons, List.mapM_cons, h.1, ih h.2]
      cases g a with
      | error e => rfl
      | ok b => cases items.mapM g <;> rfl

theorem tokenTexts_eq (template : List Char) :
    tokenTexts template =
      lift (Template.tokens template >>= fun toks => toks.mapM (Template.tokenText template)) := by
  rw [tokenTexts, tokens_eq]
  cases htokens : Template.tokens template with
  | error e => rfl
  | ok toks => exact mapM_eq_lift fun token hmem => tokenText_eq htokens hmem

/-- Whatever the template, the values, the schema, the backend and the stored text: nothing that is
read by position goes outside, and the answers are those of the readers in terms of characters. -/
theorem answers_by_position (template fragment pattern : List Char) (values : List Value)
    (s : Storage) (c : Condition) (field stored : String) :
    Answers (tokens template) (Template.tokens template) ∧
      Answers (tokenTexts template)
        (Template.tokens template >>= fun toks => toks.mapM (Template.tokenText template)) ∧
      Answers (findOperator fragment) (.ok (Operator.find? fragment)) ∧
      Answers (readFragment fragment values) (Clause.read fragment values) ∧
      Answers (ofLike pattern) (.ok (Pattern.ofLike pattern)) ∧
      Answers (filterFor s c) (s.filterFor c) ∧
      Answers (decode field stored) (Codec.serialized.decode field stored) := by
  refine ⟨?_, ?_, ?_, ?_, ?_, ?_, ?_⟩
  · exact answers_of_eq (tokens_eq template)
  · exact answers_of_eq (tokenTexts_eq template)
  · exact answers_of_eq (findOperator_eq fragment)
  · exact answers_of_eq (readFragment_eq fragment values)
  · exact answers_of_eq (ofLike_eq pattern)
  · exact answers_of_eq (filterFor_eq s c)
  · exact answers_of_eq (decode_eq field stored)

end Bytewise
end RecordFilter
