/-
The kinds of storage that filters are made for.
-/
import RecordFilter.Error
import RecordFilter.Text.Word

namespace RecordFilter

inductive Backend where
  /-- Flat files: filters are boolean expressions over the fields of a record. -/
  | flatFile
  /-- Relational tables: filters are conditions as they are written. -/
  | relational
  /-- Documents: filters are documents of operators. -/
  | document
deriving DecidableEq, Repr

namespace Backend

def name : Backend → String
  | .flatFile => "flat_file"
  | .relational => "relational"
  | .document => "document"

def aliases : List (String × Backend) :=
  [("jig", .flatFile), ("flat_file", .flatFile), ("flatfile", .flatFile),
    ("sql", .relational), ("relational", .relational),
    ("mongo", .document), ("document", .document)]

def ofName (name : String) : Except Error Backend :=
  match aliases.find? fun entry => entry.1.toList == Text.lower name.toList with
  | some (_, backend) => .ok backend
  | none => .error (.unsupportedBackend name)

end Backend
end RecordFilter
