/-
What an engine is handed: the filter of an optional condition and optional query options, in the
form that its backend takes. A blank condition and empty options ask for nothing and are not handed
on.

Preparing a filter leaves a trace: a warning for every level that mixes its keywords, and a note
when it succeeds.
-/
import RecordFilter.Backend.Document
import RecordFilter.Backend.FlatFile
import RecordFilter.Backend.Relational

namespace RecordFilter

inductive Filter where
  | expression (text : String) (values : List Value)
  | template (text : String) (values : List Value)
  | document (doc : Json)
deriving DecidableEq

inductive Event where
  /-- A level of this template has both AND and OR in it. -/
  | mixedLevel (template : String)
  | prepared (backend : Backend) (template : String)
  | found (backend : Backend) (rows : Nat)
  | erased (backend : Backend) (rows : Nat)
deriving DecidableEq, Repr

inductive Severity where
  | debug
  | warning
deriving DecidableEq, Repr

/-- The severity of an event: a mixed condition deserves a look, the other events are notes. -/
def Event.severity : Event → Severity
  | .mixedLevel _ => .warning
  | .prepared _ _ | .found _ _ | .erased _ _ => .debug

def Event.message : Event → String
  | .mixedLevel _ =>
      "AND and OR mixed on one level without parentheses, treating the level as AND"
  | .prepared _ _ => "translated filter"
  | .found _ _ => "find"
  | .erased _ _ => "erase"

structure Logged (α : Type) where
  result : Except Error α
  events : List Event

namespace Storage

def filterOfTree (s : Storage) (c : Condition) (tree : Tree) : Except Error Filter :=
  match s.backend with
  | .flatFile =>
      let e := FlatFile.treeExpression tree
      .ok (.expression (String.ofList e.text) e.values)
  | .relational =>
      (Relational.values s.schema c tree).map fun values => .template c.template values
  | .document => (Document.treeDocument tree).map .document

/-- The filter of a condition for a backend; none if the condition wants every record. -/
def filterFor (s : Storage) (c : Condition) : Except Error (Option Filter) :=
  match c.parse with
  | .error e => .error e
  | .ok none => .ok none
  | .ok (some tree) => (s.filterOfTree c tree).map some

def prepareFilter (s : Storage) : Option Condition → Logged (Option Filter)
  | none => { result := .ok none, events := [] }
  | some c =>
      if c.isBlank then { result := .ok none, events := [] }
      else
        let warnings := c.read.mixed.map fun _ => Event.mixedLevel c.template
        match s.filterFor c with
        | .error e => { result := .error e, events := warnings }
        | .ok filter =>
            { result := .ok filter, events := warnings ++ [.prepared s.backend c.template] }

def optionsFor (s : Storage) (o : QueryOptions) : Except Error BackendOptions :=
  match s.backend with
  | .flatFile => FlatFile.options o
  | .relational => Relational.options o
  | .document => Document.options o

def prepareOptions (s : Storage) : Option QueryOptions → Except Error (Option BackendOptions)
  | none => .ok none
  | some o => if o.isEmpty then .ok none else (s.optionsFor o).map some

end Storage
end RecordFilter
