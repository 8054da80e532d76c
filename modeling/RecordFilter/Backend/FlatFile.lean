/-
Filters for flat files: boolean expressions such as `(isset(@num) && @num > ?)`, in which a field
stands behind a sigil and every comparison asks first whether its fields are there. Values that
were bound stay out of the expression and follow in a list of their own, one for each question
mark; values that were written become literals.
-/
import RecordFilter.Clause.Basic
import RecordFilter.Condition.Tree
import RecordFilter.Pattern.Regex
import RecordFilter.Query.Options
import RecordFilter.Text.Word

namespace RecordFilter
namespace FlatFile

/-! ## Literals and sigils -/

/-- A text with a backslash before each single quote and each backslash. -/
def escapeQuotes : List Char → List Char
  | [] => []
  | c :: rest =>
      if c == '\'' || c == '\\' then '\\' :: c :: escapeQuotes rest else c :: escapeQuotes rest

def quoted (text : List Char) : List Char :=
  '\'' :: escapeQuotes text ++ ['\'']

/-- A value as a literal. Lists and maps cannot be written in a condition, so none of them comes
here; they would be null. -/
def literal : Value → List Char
  | .null => "NULL".toList
  | .bool true => "TRUE".toList
  | .bool false => "FALSE".toList
  | .int n => Number.integerText n.toInt
  | .float x => x.plainText
  | .str s => quoted s.toList
  | .list _ | .map _ => "NULL".toList

/-- A word that is a literal of the expression language rather than a field. -/
def isLiteralWord (word : List Char) : Bool :=
  Text.sameLetters word "null".toList || Text.sameLetters word "true".toList ||
    Text.sameLetters word "false".toList

/-- A field name starts here: a letter or an underscore that no word character precedes, and the
word is not a literal. -/
def startsField (inWord : Bool) (text : List Char) : Bool :=
  match text with
  | [] => false
  | c :: _ =>
      !inWord && (Text.isAsciiLetter c || c == '_') && !isLiteralWord (text.takeWhile Text.isWord)

/-- Puts a sigil before each field name of a text that starts in the given literal, behind a word
character or not. Literals are copied as they are. -/
def markFieldsFrom (opened : Option Char) (inWord : Bool) : List Char → List Char
  | [] => []
  | c :: rest =>
      let more := markFieldsFrom (Quote.step opened c) (opened.isNone && Text.isWord c) rest
      if opened.isNone && startsField inWord (c :: rest) then '@' :: c :: more else c :: more

/-- Puts a sigil before each field name of a text. -/
def markFields (text : List Char) : List Char :=
  markFieldsFrom none false text

/-! ## Expressions -/

structure Expression where
  text : List Char
  values : List Value
deriving DecidableEq

def Expression.ofText (text : List Char) : Expression :=
  { text, values := [] }

def Expression.append (left right : Expression) : Expression :=
  { text := left.text ++ right.text, values := left.values ++ right.values }

instance : Append Expression := ⟨Expression.append⟩

def operatorText : Operator → List Char
  | .eq => ['=', '=']
  | .ne => ['!', '=']
  | operator => operator.symbol.toList

def isSet (field : String) : List Char :=
  "isset(@".toList ++ field.toList ++ [')']

/-- A question mark for a value that was bound, or else the literal of it. -/
def argument (source : Source) (bound : Value) (written : List Char) : Expression :=
  match source with
  | .placeholder => { text := ['?'], values := [bound] }
  | .written => .ofText written

def clauseExpression : Clause → Expression
  | .compare field operator (.value v) source =>
      .ofText ('(' :: isSet field ++ " && @".toList ++ field.toList ++ [' '] ++
          operatorText operator ++ [' ']) ++
        argument source v (literal v) ++ .ofText [')']
  | .compare field _ (.pattern p) source =>
      .ofText ('(' :: isSet field ++ " && preg_match(".toList) ++
        argument source (.str (String.ofList p.delimited)) (quoted p.delimited) ++
        .ofText (",@".toList ++ field.toList ++ "))".toList)
  | .fields left operator right =>
      .ofText ('(' :: isSet left ++ " && ".toList ++ isSet right ++ " && (@".toList ++
        left.toList ++ [' '] ++ operatorText operator ++ " @".toList ++ right.toList ++
        "))".toList)
  | .bare text => .ofText (markFields text.toList)

def parenthesised (e : Expression) : Expression :=
  .ofText ['('] ++ e ++ .ofText [')']

def andText : List Char := " && ".toList

def orText : List Char := " || ".toList

mutual
def treeExpression : Tree → Expression
  | .leaf clause => clauseExpression clause
  | .all children => joined andText children
  | .any children => joined orText children

/-- The expression of an operand: in parentheses unless it is a clause. -/
def operandExpression : Tree → Expression
  | .leaf clause => clauseExpression clause
  | .all children => parenthesised (joined andText children)
  | .any children => parenthesised (joined orText children)

def joined (joiner : List Char) : List Tree → Expression
  | [] => .ofText []
  | t :: rest => operandExpression t ++ joinedAfter joiner rest

def joinedAfter (joiner : List Char) : List Tree → Expression
  | [] => .ofText []
  | t :: rest => .ofText joiner ++ operandExpression t ++ joinedAfter joiner rest
end

/-! ## Sort orders -/

def sortKeyText (key : SortKey) : String :=
  match key.direction with
  | .asc => key.field ++ " SORT_ASC"
  | .desc => key.field ++ " SORT_DESC"

def options (o : QueryOptions) : Except Error BackendOptions :=
  match o.orderKeys with
  | .error e => .error e
  | .ok keys =>
      let order := if keys.isEmpty then none
        else some (SortOrder.expression (", ".intercalate (keys.map sortKeyText)))
      .ok (o.withOrder order)

end FlatFile
end RecordFilter
