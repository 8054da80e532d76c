/-
Branches that no condition reaches.  `operatorKey` and `Operator.holds` have a case for LIKE, and
`literal` one for lists and maps, that stand there only because a case analysis has to say something.

To say that a case is never reached, each user of the three is given once more, with a table in
place of the function.  The table need not answer, and where it is asked and does not, there is no
result: these are `treeDocumentBy?`, `Tree.holdsBy?` and `treeExpressionBy?`.  With the function
itself as the table they are the definitions that run.  `reads_regular` says that for the tree of a
condition they have the same result with any table that answers for the other cases.
-/
import RecordFilter.Evaluation
import RecordFilter.Backend.FlatFile
import RecordFilter.Proofs.Document.Names

namespace RecordFilter

namespace Clause

/-- The operators that a clause applies to two values. -/
def applied : Clause → List Operator
  | .compare _ operator (.value _) _ => [operator]
  | .fields _ operator _ => [operator]
  | .compare _ _ (.pattern _) _ | .bare _ => []

/-- The values of a clause that are put into an expression as literals. -/
def inlined : Clause → List Value
  | .compare _ _ (.value v) .written => [v]
  | _ => []

theorem ne_like_of_regular {clause : Clause} (h : clause.Regular) :
    ∀ operator ∈ clause.applied, operator ≠ .like := by
  intro operator happlied
  match clause, h with
  | .compare _ _ (.value v) _, ⟨_, _, hlike, _⟩ =>
      obtain rfl := List.mem_singleton.mp happlied
      intro heq
      obtain ⟨p, hp⟩ := hlike.mp heq
      cases hp
  | .fields _ _ _, ⟨_, _, _, hlike⟩ =>
      obtain rfl := List.mem_singleton.mp happlied
      exact hlike
  | .compare _ _ (.pattern _) _, _ | .bare _, _ => cases happlied

theorem isScalar_of_regular {clause : Clause} (h : clause.Regular) :
    ∀ v ∈ clause.inlined, v.isScalar = true := by
  intro v hinlined
  match clause, h with
  | .compare _ _ (.value _) .written, ⟨_, _, _, hscalar⟩ =>
      obtain rfl := List.mem_singleton.mp hinlined
      exact hscalar v rfl rfl
  | .compare _ _ (.value _) .placeholder, _ | .compare _ _ (.pattern _) _, _
  | .fields _ _ _, _ | .bare _, _ => cases hinlined

end Clause

/-! ## Documents -/

namespace Document

section

variable (key? : Operator → Option String)

/-- `comparison` with the keys of a table. -/
def comparisonBy? (operator : Operator) (v : Value) : Option Json :=
  match operator, v with
  | .eq, .null => some (.object (("$eq", .null) :: existing))
  | .eq, v => some v.toJson
  | operator, v =>
      let coerced := v.coerceNumeric
      let guard := if operator = .ne || coerced = .null then existing else []
      (key? operator).map fun key => .object ((key, coerced.toJson) :: guard)

/-- `clauseDocument` with the keys of a table. -/
def clauseDocumentBy? : Clause → Option (Except Error Json)
  | .compare field operator (.value v) _ =>
      if v.isScalar then (comparisonBy? key? operator v).map fun asked => .ok (.single field asked)
      else some (.error (.typeMismatch field v.typeName))
  | .fields left operator right =>
      (key? operator).map fun key => .ok (.single "$and" (.array [
        .single left (.object existing),
        .single right (.object existing),
        .single "$expr" (.single key
          (.array [.string ("$" ++ left), .string ("$" ++ right)]))]))
  | .compare field operator (.pattern p) source =>
      some (clauseDocument (.compare field operator (.pattern p) source))
  | .bare text => some (clauseDocument (.bare text))

mutual
/-- `treeDocument` with the keys of a table. -/
def treeDocumentBy? : Tree → Option (Except Error Json)
  | .leaf clause => clauseDocumentBy? key? clause
  | .all children =>
      (treeDocumentsBy? children).map (·.map fun docs => .single "$and" (.array docs))
  | .any children =>
      (treeDocumentsBy? children).map (·.map fun docs => .single "$or" (.array docs))

def treeDocumentsBy? : List Tree → Option (Except Error (List Json))
  | [] => some (.ok [])
  | t :: rest =>
      match treeDocumentBy? t with
      | none => none
      | some (.error e) => some (.error e)
      | some (.ok doc) => (treeDocumentsBy? rest).map (·.map (doc :: ·))
end

end

variable {key? : Operator → Option String}

theorem comparisonBy?_eq {operator : Operator} (h : key? operator = some (operatorKey operator))
    (v : Value) : comparisonBy? key? operator v = some (comparison operator v) := by
  cases operator with
  | eq => cases v <;> rfl
  | ne | lt | le | gt | ge | like => simp [comparisonBy?, comparison, h]

theorem clauseDocumentBy?_eq {clause : Clause}
    (h : ∀ operator ∈ clause.applied, key? operator = some (operatorKey operator)) :
    clauseDocumentBy? key? clause = some (clauseDocument clause) := by
  match clause with
  | .compare field operator (.value v) source =>
      rw [clauseDocumentBy?, clauseDocument, comparisonBy?_eq (h operator List.mem_cons_self)]
      split <;> rfl
  | .fields left operator right =>
      rw [clauseDocumentBy?, h operator List.mem_cons_self]
      rfl
  | .compare _ _ (.pattern _) _ | .bare _ => rfl

mutual
/-- Only the operators that a leaf applies are looked up. -/
theorem treeDocumentBy?_eq {t : Tree} (h : ∀ clause ∈ t.leaves, ∀ operator ∈ clause.applied,
    key? operator = some (operatorKey operator)) :
    treeDocumentBy? key? t = some (treeDocument t) := by
  match t with
  | .leaf clause => exact clauseDocumentBy?_eq (h clause List.mem_cons_self)
  | .all children | .any children =>
      rw [treeDocumentBy?, treeDocumentsBy?_eq h]
      rfl

theorem treeDocumentsBy?_eq {ts : List Tree} (h : ∀ clause ∈ Tree.leavesOf ts,
    ∀ operator ∈ clause.applied, key? operator = some (operatorKey operator)) :
    treeDocumentsBy? key? ts = some (treeDocuments ts) := by
  match ts with
  | [] => rfl
  | t :: rest =>
      rw [treeDocumentsBy?, treeDocuments,
        treeDocumentBy?_eq fun clause hclause => h clause (List.mem_append_left _ hclause),
        treeDocumentsBy?_eq fun clause hclause => h clause (List.mem_append_right _ hclause)]
      cases treeDocument t <;> rfl
end

/-- With `operatorKey` as the table, the document of any tree is the one that runs. -/
theorem treeDocumentBy?_operatorKey (t : Tree) :
    treeDocumentBy? (fun operator => some (operatorKey operator)) t = some (treeDocument t) :=
  treeDocumentBy?_eq fun _ _ _ _ => rfl

/-- The keys of all operators but LIKE. -/
def keyButLike? : Operator → Option String
  | .like => none
  | operator => some (operatorKey operator)

/-- No condition has this tree. -/
example : treeDocumentBy? keyButLike? (.all [.leaf (.fields "a" .like "b")]) = none := by
  rfl

end Document

/-! ## Evaluation -/

section Evaluation

variable (test? : Operator → Value → Value → Option Bool)

/-- `Operand.holdsFor` with the tests of a table. -/
def Operand.holdsBy? (operator : Operator) (v : Value) : Operand → Option Bool
  | .value bound => test? operator v bound
  | .pattern p => some (v.patternText?.any p.matchesText)

variable {ρ : Type} [Record ρ] (record : ρ)

/-- `Clause.holds` with the tests of a table. -/
def Clause.holdsBy? : Clause → Option Bool
  | .compare field operator operand _ =>
      match Record.field? record field with
      | some v => operand.holdsBy? test? operator v
      | none => some false
  | .fields left operator right =>
      match Record.field? record left, Record.field? record right with
      | some l, some r => test? operator l r
      | _, _ => some false
  | .bare text => some ((Clause.bare text).holds record)

mutual
/-- `Tree.holds` with the tests of a table.  What stands behind the clause that decides is not
looked at. -/
def Tree.holdsBy? : Tree → Option Bool
  | .leaf clause => clause.holdsBy? test? record
  | .all children => Tree.allHoldBy? children
  | .any children => Tree.anyHoldsBy? children

def Tree.allHoldBy? : List Tree → Option Bool
  | [] => some true
  | t :: rest => (Tree.holdsBy? t).bind fun b => if b then Tree.allHoldBy? rest else some false

def Tree.anyHoldsBy? : List Tree → Option Bool
  | [] => some false
  | t :: rest => (Tree.holdsBy? t).bind fun b => if b then some true else Tree.anyHoldsBy? rest
end

variable {test? record}

theorem Clause.holdsBy?_eq {clause : Clause}
    (h : ∀ operator ∈ clause.applied, ∀ l r, test? operator l r = some (operator.holds l r)) :
    clause.holdsBy? test? record = some (clause.holds record) := by
  match clause with
  | .compare field operator (.value bound) source =>
      rw [Clause.holdsBy?, Clause.holds]
      cases Record.field? record field with
      | none => rfl
      | some v => exact h operator List.mem_cons_self v bound
  | .compare field operator (.pattern p) source =>
      rw [Clause.holdsBy?, Clause.holds]
      cases Record.field? record field <;> rfl
  | .fields left operator right =>
      rw [Clause.holdsBy?, Clause.holds]
      cases Record.field? record left with
      | none => rfl
      | some l =>
          cases Record.field? record right with
          | none => rfl
          | some r => exact h operator List.mem_cons_self l r
  | .bare text => rfl

mutual
/-- Only the operators that a leaf applies are tested. -/
theorem Tree.holdsBy?_eq {t : Tree} (h : ∀ clause ∈ t.leaves, ∀ operator ∈ clause.applied,
    ∀ l r, test? operator l r = some (operator.holds l r)) :
    t.holdsBy? test? record = some (t.holds record) := by
  match t with
  | .leaf clause => exact Clause.holdsBy?_eq (h clause List.mem_cons_self)
  | .all children => exact (Tree.holdBy?_eq h).1
  | .any children => exact (Tree.holdBy?_eq h).2

theorem Tree.holdBy?_eq {ts : List Tree} (h : ∀ clause ∈ Tree.leavesOf ts,
    ∀ operator ∈ clause.applied, ∀ l r, test? operator l r = some (operator.holds l r)) :
    Tree.allHoldBy? test? record ts = some (Tree.allHold record ts) ∧
      Tree.anyHoldsBy? test? record ts = some (Tree.anyHolds record ts) := by
  match ts with
  | [] => exact ⟨rfl, rfl⟩
  | t :: rest =>
      have hfirst := Tree.holdsBy?_eq fun clause hclause =>
        h clause (List.mem_append_left _ hclause)
      have hrest := Tree.holdBy?_eq fun clause hclause =>
        h clause (List.mem_append_right _ hclause)
      rw [Tree.allHoldBy?, Tree.anyHoldsBy?, hfirst, hrest.1, hrest.2, Tree.allHold, Tree.anyHolds]
      cases t.holds record <;> exact ⟨rfl, rfl⟩
end

/-- With `Operator.holds` as the table, the evaluation of any tree is the one that runs. -/
theorem Tree.holdsBy?_holds (t : Tree) :
    t.holdsBy? (fun operator l r => some (operator.holds l r)) record = some (t.holds record) :=
  Tree.holdsBy?_eq fun _ _ _ _ _ _ => rfl

/-- The tests of all operators but LIKE. -/
def Operator.holdsButLike? (operator : Operator) (l r : Value) : Option Bool :=
  if operator = .like then none else some (operator.holds l r)

/-- A clause that is not looked at is not tested. -/
example :
    let like : Tree := .leaf (.compare "a" .like (.value .null) .written)
    let row : Row := FieldMap.ofList [("a", Value.null)]
    like.holdsBy? Operator.holdsButLike? row = none ∧
      (Tree.any [.all [], like]).holdsBy? Operator.holdsButLike? row = some true := by
  decide

end Evaluation

/-! ## Expressions -/

namespace FlatFile

section

variable (literal? : Value → Option (List Char))

def argumentBy? (source : Source) (v : Value) : Option Expression :=
  match source with
  | .placeholder => some (argument .placeholder v [])
  | .written => (literal? v).map (argument .written v)

/-- `clauseExpression` with the literals of a table. -/
def clauseExpressionBy? : Clause → Option Expression
  | .compare field operator (.value v) source =>
      (argumentBy? literal? source v).map fun bound =>
        .ofText ('(' :: isSet field ++ " && @".toList ++ field.toList ++ [' '] ++
          operatorText operator ++ [' ']) ++ bound ++ .ofText [')']
  | .compare field operator (.pattern p) source =>
      some (clauseExpression (.compare field operator (.pattern p) source))
  | .fields left operator right => some (clauseExpression (.fields left operator right))
  | .bare text => some (clauseExpression (.bare text))

mutual
/-- `treeExpression` with the literals of a table. -/
def treeExpressionBy? : Tree → Option Expression
  | .leaf clause => clauseExpressionBy? literal? clause
  | .all children => joinedBy? andText children
  | .any children => joinedBy? orText children

def operandExpressionBy? : Tree → Option Expression
  | .leaf clause => clauseExpressionBy? literal? clause
  | .all children => (joinedBy? andText children).map parenthesised
  | .any children => (joinedBy? orText children).map parenthesised

def joinedBy? (joiner : List Char) : List Tree → Option Expression
  | [] => some (.ofText [])
  | t :: rest =>
      (operandExpressionBy? t).bind fun e => (joinedAfterBy? joiner rest).map (e ++ ·)

def joinedAfterBy? (joiner : List Char) : List Tree → Option Expression
  | [] => some (.ofText [])
  | t :: rest =>
      (operandExpressionBy? t).bind fun e =>
        (joinedAfterBy? joiner rest).map (.ofText joiner ++ e ++ ·)
end

end

variable {literal? : Value → Option (List Char)}

theorem clauseExpressionBy?_eq {clause : Clause}
    (h : ∀ v ∈ clause.inlined, literal? v = some (literal v)) :
    clauseExpressionBy? literal? clause = some (clauseExpression clause) := by
  match clause with
  | .compare field operator (.value v) .placeholder => rfl
  | .compare field operator (.value v) .written =>
      rw [clauseExpressionBy?, argumentBy?, h v List.mem_cons_self]
      rfl
  | .compare _ _ (.pattern _) _ | .fields _ _ _ | .bare _ => rfl

mutual
/-- Only the values that were written in a leaf are looked up. -/
theorem treeExpressionBy?_eq {t : Tree} (h : ∀ clause ∈ t.leaves, ∀ v ∈ clause.inlined,
    literal? v = some (literal v)) :
    treeExpressionBy? literal? t = some (treeExpression t) := by
  match t with
  | .leaf clause => exact clauseExpressionBy?_eq (h clause List.mem_cons_self)
  | .all children | .any children => exact joinedBy?_eq h _

theorem operandExpressionBy?_eq {t : Tree} (h : ∀ clause ∈ t.leaves, ∀ v ∈ clause.inlined,
    literal? v = some (literal v)) :
    operandExpressionBy? literal? t = some (operandExpression t) := by
  match t with
  | .leaf clause => exact clauseExpressionBy?_eq (h clause List.mem_cons_self)
  | .all children | .any children =>
      rw [operandExpressionBy?, joinedBy?_eq h]
      rfl

theorem joinedBy?_eq {ts : List Tree} (h : ∀ clause ∈ Tree.leavesOf ts, ∀ v ∈ clause.inlined,
    literal? v = some (literal v)) (joiner : List Char) :
    joinedBy? literal? joiner ts = some (joined joiner ts) := by
  match ts with
  | [] => rfl
  | t :: rest =>
      rw [joinedBy?,
        operandExpressionBy?_eq fun clause hclause => h clause (List.mem_append_left _ hclause),
        joinedAfterBy?_eq (fun clause hclause => h clause (List.mem_append_right _ hclause))]
      rfl

theorem joinedAfterBy?_eq {ts : List Tree} (h : ∀ clause ∈ Tree.leavesOf ts,
    ∀ v ∈ clause.inlined, literal? v = some (literal v)) (joiner : List Char) :
    joinedAfterBy? literal? joiner ts = some (joinedAfter joiner ts) := by
  match ts with
  | [] => rfl
  | t :: rest =>
      rw [joinedAfterBy?,
        operandExpressionBy?_eq fun clause hclause => h clause (List.mem_append_left _ hclause),
        joinedAfterBy?_eq (fun clause hclause => h clause (List.mem_append_right _ hclause))]
      rfl
end

/-- With `literal` as the table, the expression of any tree is the one that runs. -/
theorem treeExpressionBy?_literal (t : Tree) :
    treeExpressionBy? (fun v => some (literal v)) t = some (treeExpression t) :=
  treeExpressionBy?_eq fun _ _ _ _ => rfl

/-- The literals of all values but lists and maps. -/
def literalOfScalar? (v : Value) : Option (List Char) :=
  if v.isScalar then some (literal v) else none

end FlatFile

/-! ## Conditions -/

/-- Every clause that a fragment is read as is regular.  In the document of a condition the names
that start with a dollar sign are keys of documents, and the others are the fields of the leaves, one
for one.  The document, the evaluation and the expression of a condition are the same with any keys
and tests that are right but for LIKE, and with any literals that are right but for lists and
maps. -/
theorem reads_regular :
    (∀ fragment values clause left, Clause.read fragment values = .ok (clause, left) →
      clause.Regular) ∧
    ∀ (c : Condition) (t : Tree), c.parse = .ok (some t) →
      (∀ doc, Document.treeDocument t = .ok doc →
        doc.names = (Document.treeNames t).map Document.Name.text) ∧
      (Document.treeNames t).filterMap Document.Name.field? =
        t.leaves.flatMap Clause.fieldNames ∧
      (∀ name ∈ Document.treeNames t,
        Document.StartsWithDollar name.text ↔ name.isOwn = true) ∧
      (∀ key? : Operator → Option String,
        (∀ operator ≠ .like, key? operator = some (Document.operatorKey operator)) →
          Document.treeDocumentBy? key? t = some (Document.treeDocument t)) ∧
      (∀ test? : Operator → Value → Value → Option Bool,
        (∀ operator ≠ .like, ∀ l r, test? operator l r = some (operator.holds l r)) →
          ∀ {ρ : Type} [Record ρ] (record : ρ),
            t.holdsBy? test? record = some (t.holds record)) ∧
      ∀ literal? : Value → Option (List Char),
        (∀ v : Value, v.isScalar = true → literal? v = some (FlatFile.literal v)) →
          FlatFile.treeExpressionBy? literal? t = some (FlatFile.treeExpression t) := by
  refine ⟨fun _ _ _ _ => Clause.regular_of_read, fun c t hparse => ?_⟩
  have hregular := Condition.regular_of_parse hparse
  have hlike : ∀ clause ∈ t.leaves, ∀ operator ∈ clause.applied, operator ≠ .like :=
    fun clause hclause => Clause.ne_like_of_regular (hregular clause hclause)
  refine ⟨fun _ => Document.names_treeDocument, Document.field?_treeNames t,
    Document.startsWithDollar_iff_isOwn hregular, ?_, ?_, ?_⟩
  · intro key? hkey
    exact Document.treeDocumentBy?_eq fun clause hclause operator happlied =>
      hkey operator (hlike clause hclause operator happlied)
  · intro test? htest ρ _ record
    exact Tree.holdsBy?_eq fun clause hclause operator happlied =>
      htest operator (hlike clause hclause operator happlied)
  · intro literal? hliteral
    exact FlatFile.treeExpressionBy?_eq fun clause hclause v hinlined =>
      hliteral v (Clause.isScalar_of_regular (hregular clause hclause) v hinlined)

/-- LIKE, a number that was written, and a comparison of two fields. -/
def likesOrMore : Condition :=
  { template := "likes LIKE ? AND (num >= 5 OR a != b)", values := [.str "%x"] }

def likesTree : Tree :=
  .all [.leaf (.compare "likes" .like (.pattern (Pattern.ofLike ['%', 'x'])) .placeholder),
    .any [.leaf (.compare "num" .ge (.value (.int 5)) .written), .leaf (.fields "a" .ne "b")]]

theorem reads_regular_of_likes :
    likesOrMore.parse = .ok (some likesTree) ∧
      Document.treeDocumentBy? Document.keyButLike? likesTree =
        some (Document.treeDocument likesTree) ∧
      (∀ row : Row, likesTree.holdsBy? Operator.holdsButLike? row = some (likesTree.holds row)) ∧
      FlatFile.treeExpressionBy? FlatFile.literalOfScalar? likesTree =
        some (FlatFile.treeExpression likesTree) := by
  have hparse : likesOrMore.parse = .ok (some likesTree) := rfl
  obtain ⟨_, _, _, hdocument, hholds, hexpression⟩ := reads_regular.2 likesOrMore likesTree hparse
  refine ⟨hparse, hdocument _ fun operator hlike => ?_, fun row => hholds _ ?_ row,
    hexpression _ fun v hscalar => if_pos hscalar⟩
  · cases operator with
    | like => exact absurd rfl hlike
    | eq | ne | lt | le | gt | ge => rfl
  · exact fun operator hlike l r => if_neg hlike

end RecordFilter
