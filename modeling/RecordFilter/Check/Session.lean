/-
A session of the checker. The arguments decide where filters are stored and what is said first;
then every line of input is a condition in its list form, written as a JSON array, and is answered
by the filter that the backend would be handed. A line that cannot be answered is reported, and
the session goes on.
-/
import RecordFilter.Backend.Dispatch
import RecordFilter.Check.Arguments
import RecordFilter.Schema.Json

namespace RecordFilter
namespace Check

/-! ## Lines -/

inductive Refusal where
  /-- It is not a JSON array. -/
  | notItems
  | fault (error : Error)
deriving DecidableEq, Repr

def Refusal.message : Refusal → String
  | .notItems => "not a JSON array"
  | .fault e => e.message

inductive Line where
  | version
  | help
  /-- The sort order in the form that the backend takes. -/
  | order (order : Option SortOrder)
  | event (event : Event)
  | refused (refusal : Refusal)
  | answer (filter : Option Filter)
deriving DecidableEq

def inspectDirection : Json → String
  | .int n => "Number(" ++ String.ofList (Number.integerText n) ++ ")"
  | other => other.text

def inspectOrder : Option SortOrder → String
  | none => "None"
  | some (.expression text) => "Some(Expression(" ++ Text.inspect text ++ "))"
  | some (.document members) =>
      "Some(Document(\x7b" ++ ", ".intercalate (members.map fun (field, direction) =>
        Text.inspect field ++ ": " ++ inspectDirection direction) ++ "\x7d))"

def particulars : Event → String
  | .mixedLevel template => "template=" ++ Text.inspect template
  | .prepared backend template =>
      "backend=" ++ backend.name ++ " template=" ++ Text.inspect template
  | .found backend rows => "backend=" ++ backend.name ++ " rows=" ++ toString rows
  | .erased backend rows => "backend=" ++ backend.name ++ " erased=" ++ toString rows

def severityName : Severity → String
  | .debug => "DEBUG"
  | .warning => "WARN"

def eventText (e : Event) : String :=
  severityName e.severity ++ " " ++ e.message ++ " " ++ particulars e

def valuesText (values : List Value) : String :=
  (Json.array (Value.toJsonItems values)).text

def answerText : Option Filter → String
  | none => "no filter"
  | some (.expression text values) => text ++ "  " ++ valuesText values
  | some (.template text values) => text ++ "  " ++ valuesText values
  | some (.document doc) => doc.text

def refusalHead : String := "Error translating input: "

def versionText : String := "filter_check 0.1.0"

def helpText : String :=
  "\n".intercalate
    ["Reads conditions from standard input, one JSON array a line, and prints the filters.",
      "",
      "Usage: filter_check [OPTIONS]",
      "",
      "Options:",
      "  -b, --backend <BACKEND>  jig/flat_file, sql/relational or mongo/document [default: flat_file]",
      "  -s, --schema <SCHEMA>    JSON file with the field configuration",
      "  -o, --order <ORDER>      Sort order to print first, such as: title, num desc",
      "  -v, --verbose            Print notes as well as warnings",
      "  -h, --help               Print help",
      "  -V, --version            Print version"]

def Line.text : Line → String
  | .version => versionText
  | .help => helpText
  | .order o => "order: " ++ inspectOrder o
  | .event e => eventText e
  | .refused r => refusalHead ++ r.message
  | .answer f => answerText f

/-! ## Sessions -/

/-- A session that is open: where filters are stored, and whether notes are printed. -/
structure Session where
  storage : Storage
  verbose : Bool

/-- Why the checker stops early. -/
inductive Failure where
  | usage (fault : UsageFault)
  /-- There is no field configuration in the file of this name. -/
  | schema (file : String)
  | order (error : Error)
deriving DecidableEq, Repr

def Failure.message : Failure → String
  | .usage fault => "error: " ++ fault.message
  | .schema file => "Can't load schema from " ++ file
  | .order e => "Error translating order: " ++ e.message

def Failure.exitCode : Failure → UInt32
  | .usage _ => 2
  | .schema _ | .order _ => 1

/-- How the checker starts: it is done, or it opens a session with some lines. -/
inductive Start where
  | done (line : Line)
  | failed (failure : Failure)
  | opened (session : Session) (lines : List Line)

/-- The field configuration that settings name; without a name there is an empty one. -/
def loadSchema (readFile : String → Option String) : Option String → Except Failure Schema
  | none => .ok .empty
  | some file =>
      match (readFile file).bind fun text => Schema.readJson? text.toList with
      | some schema => .ok schema
      | none => .error (.schema file)

def orderLines (storage : Storage) : Option String → Except Failure (List Line)
  | none => .ok []
  | some order =>
      match storage.prepareOptions (some { order := some order, limit := none, offset := none }) with
      | .error e => .error (.order e)
      | .ok options => .ok [.order (options.bind BackendOptions.order)]

def open? (readFile : String → Option String) (s : Settings) :
    Except Failure (Session × List Line) :=
  match loadSchema readFile s.schema with
  | .error failure => .error failure
  | .ok schema =>
      let storage : Storage := { backend := s.backend.getD .flatFile, schema }
      (orderLines storage s.order).map fun lines => ({ storage, verbose := s.verbose }, lines)

/-- Starts with arguments; files are read by name, and a file that cannot be read has no text. -/
def start (readFile : String → Option String) (arguments : List String) : Start :=
  match readArguments arguments with
  | .error fault => .failed (.usage fault)
  | .ok .version => .done .version
  | .ok .help => .done .help
  | .ok (.run settings) =>
      match open? readFile settings with
      | .error failure => .failed failure
      | .ok (session, lines) => .opened session lines

namespace Session

/-- An event is printed if it is a warning, or if the session prints notes. -/
def prints (session : Session) (e : Event) : Bool :=
  session.verbose || e.severity == .warning

def answerItems (session : Session) (items : List Value) : List Line :=
  match Condition.ofItems items with
  | .error e => [.refused (.fault e)]
  | .ok condition =>
      let prepared := session.storage.prepareFilter (some condition)
      let last := match prepared.result with
        | .error e => Line.refused (.fault e)
        | .ok filter => .answer filter
      (prepared.events.filter session.prints).map .event ++ [last]

/-- The lines that answer a line of input; a blank line has no answer. A carriage return at its
end is a blank for JSON as well. -/
def answer (session : Session) (input : List Char) : List Line :=
  if input.all Text.isBlank then []
  else
    match Json.read? input with
    | some (.array items) => session.answerItems (Value.ofJsonItems items)
    | _ => [.refused .notItems]

end Session

/-! ## Whole runs -/

structure Outcome where
  exitCode : UInt32
  lines : List Line
  failure : Option Failure

def Session.answerAll (session : Session) (input : List Char) : List Line :=
  (Text.splitOn (· == '\n') input).flatMap session.answer

def run (readFile : String → Option String) (arguments : List String) (input : String) : Outcome :=
  match start readFile arguments with
  | .done line => { exitCode := 0, lines := [line], failure := none }
  | .failed failure =>
      { exitCode := failure.exitCode, lines := [], failure := some failure }
  | .opened session lines =>
      { exitCode := 0, lines := lines ++ session.answerAll input.toList, failure := none }

end Check
end RecordFilter
