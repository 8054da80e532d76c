/-
The expression of a condition is read back as its tree, up to two things.  A conjunction or
disjunction of one tree is that tree, because its joiner is never written; and a literal that is a
number with a fraction may be read as an integer that compares equal.

The texts of the operands of a level are read one behind the other, from the level that the first of
them leaves; so nothing in a literal can open, close or join a level.
-/
import RecordFilter.Backend.Dispatch
import RecordFilter.Proofs.FlatFile.Values

namespace RecordFilter

namespace Tree

/-! ## Trees that are read alike -/

/-- A node over some trees; over one tree there is none. -/
def unlessOne (node : List Tree → Tree) : List Tree → Tree
  | [t] => t
  | ts => node ts

mutual
/-- A tree without the conjunctions and disjunctions of one tree. -/
def collapse : Tree → Tree
  | .leaf clause => .leaf clause
  | .all children => unlessOne .all (collapseAll children)
  | .any children => unlessOne .any (collapseAll children)

def collapseAll : List Tree → List Tree
  | [] => []
  | t :: rest => collapse t :: collapseAll rest
end

mutual
/-- Two trees of one shape, each clause of the first being read as the clause of the second. -/
inductive ReadAs : Tree → Tree → Prop where
  | leaf {a b : Clause} (h : a.ReadAs b) : ReadAs (.leaf a) (.leaf b)
  | all {as bs : List Tree} (h : AllReadAs as bs) : ReadAs (.all as) (.all bs)
  | any {as bs : List Tree} (h : AllReadAs as bs) : ReadAs (.any as) (.any bs)

inductive AllReadAs : List Tree → List Tree → Prop where
  | nil : AllReadAs [] []
  | cons {a b : Tree} {as bs : List Tree} (h : ReadAs a b) (hrest : AllReadAs as bs) :
      AllReadAs (a :: as) (b :: bs)
end

end Tree

namespace FlatFile

open RecordFilter.Tree

def Joiner.node : Joiner → List Tree → Tree
  | .and => .all
  | .or => .any

theorem readAs_node (joiner : Joiner) {as bs : List Tree} (h : AllReadAs as bs) :
    ReadAs (unlessOne joiner.node as) (unlessOne joiner.node bs) := by
  cases h with
  | nil => cases joiner with
    | and => exact .all .nil
    | or => exact .any .nil
  | cons h hrest =>
      cases hrest with
      | nil => exact h
      | cons h' hrest =>
          cases joiner with
          | and => exact .all (.cons h (.cons h' hrest))
          | or => exact .any (.cons h (.cons h' hrest))

/-! ## Levels -/

/-- A level behind some more operands, of one term each. -/
def Level.extend (joiner : Joiner) (l : Level) : List Term → Level
  | [] => l
  | t :: rest =>
      Level.extend joiner
        { joiner := some joiner, operands := l.operands ++ [l.last], last := [t] } rest

theorem close?_extend (joiner : Joiner) {l : Level} (hlast : l.last ≠ []) (ts : List Term) :
    (l.extend joiner ts).close? =
      some (.group (if ts = [] then l.joiner else some joiner)
        (l.operands ++ l.last :: ts.map fun t => [t])) := by
  induction ts generalizing l with
  | nil => rw [Level.extend, Level.close?, List.isEmpty_eq_false_iff.mpr hlast]; rfl
  | cons t rest ih =>
      rw [Level.extend, ih (List.cons_ne_nil t [])]
      simp

theorem endsWord_joinedAfter (joiner : Joiner) (ts : List Tree) {rest : List Char}
    (hrest : EndsWord rest) : EndsWord ((joinedAfter (joinerText joiner) ts).text ++ rest) := by
  cases ts with
  | nil => exact hrest
  | cons t ts => cases joiner <;> exact endsWord_cons rfl _

/-- Operands of one term each are no clause. -/
theorem clause?_singletons (values : List Value) (ts : List Term) :
    clause? values (ts.map fun t => [t]) = none := by
  have hguard : ∀ t, isSet? [t] = none := by
    intro t
    cases t <;> rfl
  match ts with
  | [] | [_] => rfl
  | [t, u] => simp [clause?, hguard]
  | [t, u, w] => simp [clause?, hguard]
  | _ :: _ :: _ :: _ :: _ => rfl

/-- Operands of one term each mean the node over their trees. -/
theorem tree?_operands (joiner : Joiner) {term : Term} {terms : List Term} {read : Tree}
    {reads : List Tree} {values more : List Value} (hlength : reads.length = terms.length)
    (h : trees? ((term :: terms).map fun t => [t]) values = some (read :: reads, more)) :
    tree? (.group (if terms = [] then none else some joiner) ([term] :: terms.map fun t => [t]))
      values = some (unlessOne joiner.node (read :: reads), more) := by
  have hclause := clause?_singletons values (term :: terms)
  rw [List.map_cons] at h hclause
  cases terms with
  | nil =>
      obtain rfl := List.eq_nil_of_length_eq_zero hlength
      rw [if_pos rfl, tree?, if_neg (by decide), h]
      rfl
  | cons second terms =>
      obtain ⟨read', reads, rfl⟩ := List.exists_cons_of_length_eq_add_one hlength
      rw [if_neg (List.cons_ne_nil _ _), tree?, hclause, ite_self, h]
      cases joiner <;> rfl

/-- The text of a level fills a level that closes to a term, and the term means the tree. -/
def MeansLevel (e : Expression) (read : Tree) : Prop :=
  ∃ l t, (∀ stack rest, EndsWord rest →
      termFrom? .empty stack (e.text ++ rest) = termFrom? l stack rest) ∧
    l.close? = some t ∧ ∀ more, tree? t (e.values ++ more) = some (read, more)

/-- A level in parentheses is an operand. -/
theorem MeansLevel.parenthesised {e : Expression} {read : Tree} (h : MeansLevel e read) :
    Means (parenthesised e) read := by
  obtain ⟨l, t, htext, hclose, hmeans⟩ := h
  refine ⟨t, ?_, ?_⟩
  · intro level stack rest _
    have hparens : (FlatFile.parenthesised e).text ++ rest = '(' :: (e.text ++ ')' :: rest) := by
      simp [FlatFile.parenthesised]
    rw [hparens, termFrom?_opening, htext _ _ (endsWord_cons rfl _), termFrom?_closing _ _ _ hclose]
  · intro more
    rw [values_parenthesised, hmeans]

/-- The operands behind the first one extend the level that it leaves. -/
def MeansRest (joiner : Joiner) (e : Expression) (terms : List Term) (reads : List Tree) : Prop :=
  (∀ (level : Level) (stack : List Level) (rest : List Char), level.last ≠ [] →
      (level.joiner = none ∨ level.joiner = some joiner) → EndsWord rest →
      termFrom? level stack (e.text ++ rest) = termFrom? (level.extend joiner terms) stack rest) ∧
    ∀ more, trees? (terms.map fun t => [t]) (e.values ++ more) = some (reads, more)

mutual
theorem exists_operand {t : Tree} (hleaves : ∀ clause ∈ t.leaves, Readable clause)
    (hbranches : t.Branches 1) :
    ∃ read, ReadAs t.collapse read ∧ Means (operandExpression t) read := by
  match t with
  | .leaf clause =>
      obtain ⟨read, hread, hmeans⟩ :=
        exists_clause (hleaves clause (List.mem_singleton_self clause))
      exact ⟨.leaf read, .leaf hread, hmeans⟩
  | .all children =>
      obtain ⟨read, hread, hmeans⟩ := exists_level .and hleaves hbranches.1 hbranches.2
      exact ⟨read, hread, hmeans.parenthesised⟩
  | .any children =>
      obtain ⟨read, hread, hmeans⟩ := exists_level .or hleaves hbranches.1 hbranches.2
      exact ⟨read, hread, hmeans.parenthesised⟩

theorem exists_level (joiner : Joiner) {ts : List Tree}
    (hleaves : ∀ clause ∈ leavesOf ts, Readable clause) (hne : 1 ≤ ts.length)
    (hbranches : BranchesOf 1 ts) :
    ∃ read, ReadAs (unlessOne joiner.node (collapseAll ts)) read ∧
      MeansLevel (joined (joinerText joiner) ts) read := by
  match ts with
  | [] => exact absurd hne (by decide)
  | t :: rest =>
      obtain ⟨first, hfirst, term, htext, hmeans⟩ := exists_operand
        (fun clause hclause => hleaves clause (List.mem_append_left _ hclause)) hbranches.1
      obtain ⟨terms, reads, hlength, hreads, hrest, hrestMeans⟩ := exists_rest joiner
        (fun clause hclause => hleaves clause (List.mem_append_right _ hclause)) hbranches.2
      have htextOf : ∀ tail, (joined (joinerText joiner) (t :: rest)).text ++ tail =
          (operandExpression t).text ++ ((joinedAfter (joinerText joiner) rest).text ++ tail) := by
        intro tail
        rw [joined, text_append, List.append_assoc]
      have hvalues : (joined (joinerText joiner) (t :: rest)).values =
          (operandExpression t).values ++ (joinedAfter (joinerText joiner) rest).values := by
        rw [joined, values_append]
      refine ⟨unlessOne joiner.node (first :: reads), readAs_node joiner (.cons hfirst hreads),
        (Level.empty.push term).extend joiner terms, _, ?_,
        close?_extend joiner (List.cons_ne_nil term []) terms, ?_⟩
      · intro stack tail htail
        rw [htextOf, htext _ _ _ (endsWord_joinedAfter joiner rest htail),
          hrest _ _ _ (List.cons_ne_nil term []) (Or.inl rfl) htail]
      · intro more
        have htrees : trees? ((term :: terms).map fun t => [t])
            ((joined (joinerText joiner) (t :: rest)).values ++ more) =
            some (first :: reads, more) := by
          rw [hvalues, List.append_assoc]
          simp [trees?, operandTree?, hmeans, hrestMeans]
        exact tree?_operands joiner hlength htrees

theorem exists_rest (joiner : Joiner) {ts : List Tree}
    (hleaves : ∀ clause ∈ leavesOf ts, Readable clause) (hbranches : BranchesOf 1 ts) :
    ∃ terms reads, reads.length = terms.length ∧ AllReadAs (collapseAll ts) reads ∧
      MeansRest joiner (joinedAfter (joinerText joiner) ts) terms reads := by
  match ts with
  | [] => exact ⟨[], [], rfl, .nil, fun _ _ _ _ _ _ => rfl, fun _ => rfl⟩
  | t :: rest =>
      obtain ⟨first, hfirst, term, htext, hmeans⟩ := exists_operand
        (fun clause hclause => hleaves clause (List.mem_append_left _ hclause)) hbranches.1
      obtain ⟨terms, reads, hlength, hreads, hrest, hrestMeans⟩ := exists_rest joiner
        (fun clause hclause => hleaves clause (List.mem_append_right _ hclause)) hbranches.2
      refine ⟨term :: terms, first :: reads, congrArg (· + 1) hlength, .cons hfirst hreads, ?_, ?_⟩
      · intro level stack tail hlast hjoiner htail
        have htextOf : (joinedAfter (joinerText joiner) (t :: rest)).text ++ tail =
            joinerText joiner ++ ((operandExpression t).text ++
              ((joinedAfter (joinerText joiner) rest).text ++ tail)) := by
          simp only [joinedAfter, text_append, text_ofText, List.append_assoc]
        have hnext : level.join? joiner = some
            { joiner := some joiner, operands := level.operands ++ [level.last], last := [] } := by
          rw [Level.join?, List.isEmpty_eq_false_iff.mpr hlast]
          rcases hjoiner with hnone | hsome
          · simp [hnone]
          · simp [hsome]
        rw [htextOf, termFrom?_joiner _ _ _ hnext,
          htext _ _ _ (endsWord_joinedAfter joiner rest htail),
          hrest _ _ _ (List.cons_ne_nil term []) (Or.inr rfl) htail]
        rfl
      · intro more
        have hvalues : (joinedAfter (joinerText joiner) (t :: rest)).values =
            (operandExpression t).values ++ (joinedAfter (joinerText joiner) rest).values := by
          simp only [joinedAfter, values_append, values_ofText, List.nil_append]
        rw [hvalues, List.append_assoc]
        simp [trees?, operandTree?, hmeans, hrestMeans]
end

theorem read?_of_meansLevel {e : Expression} {read : Tree} (h : MeansLevel e read) :
    read? e.text e.values = some read := by
  obtain ⟨l, t, htext, hclose, hmeans⟩ := h
  have hterm : term? e.text = some t := by
    have hwhole := htext [] [] (fun c hc => by cases hc)
    rw [List.append_nil, termFrom?_nil, hclose] at hwhole
    exact hwhole
  have htree := hmeans []
  rw [List.append_nil] at htree
  rw [read?, hterm]
  simp [htree]

/-- An operand alone is a level. -/
theorem meansLevel_of_means {e : Expression} {read : Tree} (h : Means e read) :
    MeansLevel e read := by
  obtain ⟨t, htext, hmeans⟩ := h
  refine ⟨Level.empty.push t, .group none [[t]], fun stack rest hrest => htext _ _ _ hrest, rfl, ?_⟩
  intro more
  have htrees : trees? ([t].map fun t => [t]) (e.values ++ more) = some ([read], more) := by
    simp [trees?, operandTree?, hmeans]
  exact tree?_operands .and rfl htrees

theorem exists_read? {t : Tree} (hleaves : ∀ clause ∈ t.leaves, Readable clause)
    (hbranches : t.Branches 1) :
    ∃ read, ReadAs t.collapse read ∧
      read? (treeExpression t).text (treeExpression t).values = some read := by
  match t with
  | .leaf clause =>
      obtain ⟨read, hread, hmeans⟩ := exists_operand hleaves hbranches
      exact ⟨read, hread, read?_of_meansLevel (meansLevel_of_means hmeans)⟩
  | .all children =>
      obtain ⟨read, hread, hmeans⟩ := exists_level .and hleaves hbranches.1 hbranches.2
      exact ⟨read, hread, read?_of_meansLevel hmeans⟩
  | .any children =>
      obtain ⟨read, hread, hmeans⟩ := exists_level .or hleaves hbranches.1 hbranches.2
      exact ⟨read, hread, read?_of_meansLevel hmeans⟩

/-! ## Conditions -/

/-- The filter of a condition without bare fragments is an expression that is read back as the tree
of the condition.  Reading takes each quoted text as one literal, and refuses parentheses that do
not match and levels that mix their joiners.  The expression has a question mark outside its
literals for each of its values, and these are the operands that were bound. -/
theorem read?_of_parse {s : Storage} {c : Condition} {t : Tree} (hbackend : s.backend = .flatFile)
    (hparse : c.parse = .ok (some t)) (hbare : ∀ text, .bare text ∉ t.leaves) :
    ∃ text values, s.filterFor c = .ok (some (.expression text values)) ∧
      (term? text.toList).isSome ∧
      (∃ read, read? text.toList values = some read ∧ t.collapse.ReadAs read) ∧
      holes text.toList = values.length ∧ values = t.leaves.filterMap Clause.handed? := by
  have hleaves : ∀ clause ∈ t.leaves, Readable clause := fun clause hclause =>
    ⟨Condition.wellFormed_of_parse hparse clause hclause,
      fun text heq => hbare text (heq ▸ hclause)⟩
  obtain ⟨read, hread, htree⟩ := exists_read? hleaves (Condition.branches_of_parse hparse)
  refine ⟨String.ofList (treeExpression t).text, (treeExpression t).values, ?_, ?_, ?_, ?_,
    values_treeExpression t⟩
  · rw [Storage.filterFor, hparse]
    simp only [Storage.filterOfTree, hbackend]
    rfl
  · rw [String.toList_ofList]
    obtain ⟨term, hterm, _⟩ := Option.bind_eq_some_iff.mp htree
    rw [hterm, Option.isSome_some]
  · rw [String.toList_ofList]
    exact ⟨read, htree, hread⟩
  · rw [String.toList_ofList]
    exact (counted_treeExpression hleaves).holes_eq

/-- A literal that looks like the end of its group, in front of a bound pattern. -/
theorem read?_of_parse_of_quoted :
    let flatFile : Storage := { backend := .flatFile, schema := .empty }
    let c : Condition := ⟨"(a = \"x') || (b = ?\" OR b LIKE ?) AND d < 1.5", [.str "y%"]⟩
    ∃ text values, flatFile.filterFor c = .ok (some (.expression text values)) ∧
      (term? text.toList).isSome ∧ holes text.toList = 1 ∧ values = [.str "/^y/"] := by
  have hparse : Condition.parse
      ⟨"(a = \"x') || (b = ?\" OR b LIKE ?) AND d < 1.5", [.str "y%"]⟩ =
      .ok (some (.all [.any [.leaf (.compare "a" .eq (.value (.str "x') || (b = ?")) .written),
          .leaf (.compare "b" .like (.pattern (Pattern.ofLike ['y', '%'])) .placeholder)],
        .leaf (.compare "d" .lt (.value (.float (.finite false
          ⟨4609434218613702656, by decide⟩))) .written)])) := rfl
  obtain ⟨text, values, hfilter, hterm, _, hholes, hvalues⟩ :=
    @read?_of_parse { backend := .flatFile, schema := .empty } _ _ rfl hparse (by
      intro text hmem
      simp [Tree.leaves, Tree.leavesOf] at hmem)
  refine ⟨text, values, hfilter, hterm, ?_, ?_⟩
  · rw [hholes, hvalues]
    rfl
  · rw [hvalues]
    cbv

end FlatFile
end RecordFilter
