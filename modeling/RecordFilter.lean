import RecordFilter.Backend.Basic
import RecordFilter.Backend.Dispatch
import RecordFilter.Backend.Document
import RecordFilter.Backend.FlatFile
import RecordFilter.Backend.Relational
import RecordFilter.Bytewise.Access
import RecordFilter.Bytewise.Clause
import RecordFilter.Bytewise.Filter
import RecordFilter.Bytewise.Logged
import RecordFilter.Bytewise.Serialized
import RecordFilter.Bytewise.Template
import RecordFilter.Check.Arguments
import RecordFilter.Check.Session
import RecordFilter.Clause.Basic
import RecordFilter.Clause.Operator
import RecordFilter.Clause.Reader
import RecordFilter.Codec.Basic
import RecordFilter.Codec.Fault
import RecordFilter.Codec.Serialized
import RecordFilter.Codec.Storage
import RecordFilter.Condition.Basic
import RecordFilter.Condition.Grouping
import RecordFilter.Condition.Tree
import RecordFilter.Error
import RecordFilter.Evaluation
import RecordFilter.FieldMap
import RecordFilter.Json.Basic
import RecordFilter.Json.Printer
import RecordFilter.Json.Reader
import RecordFilter.Json.Struct
import RecordFilter.Json.Written
import RecordFilter.Main
import RecordFilter.Mapper.Basic
import RecordFilter.Mapper.Engine
import RecordFilter.Mapper.Memory
import RecordFilter.Mapper.Operation
import RecordFilter.Number.Binary64
import RecordFilter.Number.Decimal
import RecordFilter.Number.Integer
import RecordFilter.Number.Layout
import RecordFilter.Number.Shortest
import RecordFilter.Pattern.Basic
import RecordFilter.Pattern.Regex
import RecordFilter.Query.Json
import RecordFilter.Query.Options
import RecordFilter.Record
import RecordFilter.Schema.Basic
import RecordFilter.Schema.Json
import RecordFilter.Template.Quote
import RecordFilter.Template.Token
import RecordFilter.Text.Blank
import RecordFilter.Text.Bytes
import RecordFilter.Text.Inspect
import RecordFilter.Text.InspectRanges
import RecordFilter.Text.Utf8
import RecordFilter.Text.Word
import RecordFilter.Text.WordRanges
import RecordFilter.Value.Basic
import RecordFilter.Value.Inspect
import RecordFilter.Value.Json
import RecordFilter.Value.Numeric
import RecordFilter.Value.Order
import RecordFilter.Proofs.Backend.Agreement
import RecordFilter.Proofs.Backend.Refusal
import RecordFilter.Proofs.Backend.Storing
import RecordFilter.Proofs.Backend.Unreached
import RecordFilter.Proofs.Bytewise.Access
import RecordFilter.Proofs.Bytewise.Answers
import RecordFilter.Proofs.Bytewise.Clause
import RecordFilter.Proofs.Bytewise.Filter
import RecordFilter.Proofs.Bytewise.Logged
import RecordFilter.Proofs.Bytewise.Operator
import RecordFilter.Proofs.Bytewise.Passed
import RecordFilter.Proofs.Bytewise.Serialized
import RecordFilter.Proofs.Bytewise.Template
import RecordFilter.Proofs.Bytewise.Trail
import RecordFilter.Proofs.Bytewise.Words
import RecordFilter.Proofs.Clause.Binding
import RecordFilter.Proofs.Clause.Grammar
import RecordFilter.Proofs.Clause.NormalForm
import RecordFilter.Proofs.Clause.Split
import RecordFilter.Proofs.Clause.Written
import RecordFilter.Proofs.Codec.Json
import RecordFilter.Proofs.Codec.Listing
import RecordFilter.Proofs.Codec.Locality
import RecordFilter.Proofs.Codec.Nesting
import RecordFilter.Proofs.Codec.RoundTrip
import RecordFilter.Proofs.Codec.Scan
import RecordFilter.Proofs.Codec.Shorter
import RecordFilter.Proofs.Condition.Binding
import RecordFilter.Proofs.Condition.Blank
import RecordFilter.Proofs.Condition.Connectives
import RecordFilter.Proofs.Condition.Counting
import RecordFilter.Proofs.Condition.Layout
import RecordFilter.Proofs.Condition.Leaves
import RecordFilter.Proofs.Condition.Levels
import RecordFilter.Proofs.Condition.Mixed
import RecordFilter.Proofs.Condition.Printing
import RecordFilter.Proofs.Condition.Reading
import RecordFilter.Proofs.Condition.Regular
import RecordFilter.Proofs.Condition.Unbalanced
import RecordFilter.Proofs.Document.Complement
import RecordFilter.Proofs.Document.Guarding
import RecordFilter.Proofs.Document.Meaning
import RecordFilter.Proofs.Document.Names
import RecordFilter.Proofs.Evaluation
import RecordFilter.Proofs.FieldMap
import RecordFilter.Proofs.FlatFile.Clauses
import RecordFilter.Proofs.FlatFile.Meaning
import RecordFilter.Proofs.FlatFile.Nesting
import RecordFilter.Proofs.FlatFile.Operands
import RecordFilter.Proofs.FlatFile.ReadBack
import RecordFilter.Proofs.FlatFile.Sigils
import RecordFilter.Proofs.FlatFile.Values
import RecordFilter.Proofs.Grouping.Alternation
import RecordFilter.Proofs.Grouping.Mixed
import RecordFilter.Proofs.Grouping.Nesting
import RecordFilter.Proofs.Grouping.Parts
import RecordFilter.Proofs.Grouping.Run
import RecordFilter.Proofs.Grouping.Shape
import RecordFilter.Proofs.Grouping.Unpaired
import RecordFilter.Proofs.Grouping.Written
import RecordFilter.Proofs.Json.Floats
import RecordFilter.Proofs.Json.Members
import RecordFilter.Proofs.Json.Numerals
import RecordFilter.Proofs.Json.Printed
import RecordFilter.Proofs.Json.Strings
import RecordFilter.Proofs.Mapper.Casting
import RecordFilter.Proofs.Mapper.Copying
import RecordFilter.Proofs.Mapper.Failure
import RecordFilter.Proofs.Mapper.History
import RecordFilter.Proofs.Mapper.Operation
import RecordFilter.Proofs.Mapper.ReadBack
import RecordFilter.Proofs.Mapper.Storable
import RecordFilter.Proofs.Number.Bounds
import RecordFilter.Proofs.Number.Digits
import RecordFilter.Proofs.Number.Numeral
import RecordFilter.Proofs.Number.Ordering
import RecordFilter.Proofs.Number.ReadBack
import RecordFilter.Proofs.Number.Rounding
import RecordFilter.Proofs.Pattern.Delimited
import RecordFilter.Proofs.Pattern.Escapes
import RecordFilter.Proofs.Pattern.Wildcards
import RecordFilter.Proofs.Query.Canonical
import RecordFilter.Proofs.Query.Ordered
import RecordFilter.Proofs.Query.SortKeys
import RecordFilter.Proofs.Record
import RecordFilter.Proofs.Schema.ReadBack
import RecordFilter.Proofs.Template.Cutting
import RecordFilter.Proofs.Template.Delimiters
import RecordFilter.Proofs.Template.Layout
import RecordFilter.Proofs.Template.Lexeme
import RecordFilter.Proofs.Template.Placeholders
import RecordFilter.Proofs.Template.Tokens
import RecordFilter.Proofs.Text.Utf8
import RecordFilter.Proofs.Text.Words
import RecordFilter.Proofs.Value.Cycles
import RecordFilter.Proofs.Value.Integers
import RecordFilter.Proofs.Value.Order
