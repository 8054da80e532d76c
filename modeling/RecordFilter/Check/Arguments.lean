/-
The arguments of the checker. Options have a long name and a letter; letters may be joined behind
one hyphen, and a value follows its option directly, behind an equals sign, or as the next
argument. The reading has two steps: the arguments are cut into items, each an option with its
value or something that is none, and the items are taken from left to right. The first faulty item
decides, unless the version or the help was asked for before it.
-/
import RecordFilter.Backend.Basic

namespace RecordFilter
namespace Check

/-! ## Options -/

inductive Setting where
  | backend
  | schema
  | order
deriving DecidableEq, Repr

inductive Switch where
  | verbose
  | version
  | help
deriving DecidableEq, Repr

inductive OptionKind where
  | setting (setting : Setting)
  | switch (switch : Switch)
deriving DecidableEq, Repr

structure OptionName where
  long : String
  letter : Char
  kind : OptionKind
deriving DecidableEq, Repr

def optionNames : List OptionName :=
  [⟨"backend", 'b', .setting .backend⟩, ⟨"schema", 's', .setting .schema⟩,
    ⟨"order", 'o', .setting .order⟩, ⟨"verbose", 'v', .switch .verbose⟩,
    ⟨"version", 'V', .switch .version⟩, ⟨"help", 'h', .switch .help⟩]

def ofLong? (name : List Char) : Option OptionKind :=
  (optionNames.find? fun n => n.long.toList == name).map OptionName.kind

def ofLetter? (letter : Char) : Option OptionKind :=
  (optionNames.find? fun n => n.letter == letter).map OptionName.kind

/-! ## Items -/

inductive Item where
  | set (setting : Setting) (value : String)
  /-- An option that takes a value and has none. -/
  | missing (setting : Setting)
  | switch (switch : Switch)
  /-- An option that takes no value and has one. -/
  | unneeded (switch : Switch)
  /-- What is no option, or a value that belongs to none. -/
  | unexpected (argument : String)
deriving DecidableEq, Repr

/-- Items, and the option that takes the argument behind them as its value, if one does. -/
structure Cut where
  items : List Item
  awaiting : Option Setting
deriving DecidableEq, Repr

def Cut.single (item : Item) : Cut :=
  { items := [item], awaiting := none }

def cutLong (argument : String) (text : List Char) : Cut :=
  let name := text.takeWhile (· != '=')
  let value := text.dropWhile (· != '=')
  match ofLong? name, value with
  | none, _ => .single (.unexpected argument)
  | some (.setting s), [] => { items := [], awaiting := some s }
  | some (.setting s), _ :: value => .single (.set s (String.ofList value))
  | some (.switch s), [] => .single (.switch s)
  | some (.switch s), _ :: _ => .single (.unneeded s)

/-- The value that follows a letter directly; an equals sign before it is not part of it. -/
def directValue : List Char → List Char
  | '=' :: value => value
  | value => value

/-- Cuts the letters behind one hyphen. What follows the letter of an option with a value is the
value. -/
def cutLetters (argument : String) : List Char → Cut
  | [] => { items := [], awaiting := none }
  | c :: rest =>
      match ofLetter? c with
      | none => .single (.unexpected argument)
      | some (.setting s) =>
          match rest with
          | [] => { items := [], awaiting := some s }
          | _ :: _ => .single (.set s (String.ofList (directValue rest)))
      | some (.switch s) =>
          let cut := cutLetters argument rest
          { cut with items := .switch s :: cut.items }

/-- Cuts the arguments, the first of which is the value of an option that awaits one. A hyphen
alone is a value, and anything else that starts with one is not. Behind two hyphens alone there
are no options. -/
def items (awaiting : Option Setting) : List String → List Item
  | [] => (awaiting.map Item.missing).toList
  | argument :: rest =>
      match argument.toList, awaiting with
      | '-' :: _ :: _, some s => [.missing s]
      | ['-', '-'], none => rest.map .unexpected
      | '-' :: '-' :: text, none =>
          let cut := cutLong argument text
          cut.items ++ items cut.awaiting rest
      | '-' :: c :: text, none =>
          let cut := cutLetters argument (c :: text)
          cut.items ++ items cut.awaiting rest
      | _, some s => .set s argument :: items none rest
      | _, none => .unexpected argument :: items none rest

/-! ## Settings -/

structure Settings where
  backend : Option Backend
  /-- The file that holds the field configuration. -/
  schema : Option String
  order : Option String
  verbose : Bool
deriving DecidableEq, Repr

def Settings.initial : Settings :=
  { backend := none, schema := none, order := none, verbose := false }

inductive UsageFault where
  | unexpected (argument : String)
  | missing (setting : Setting)
  | unneeded (switch : Switch)
  | badBackend (error : Error)
  | noSchema
  | repeated (kind : OptionKind)
deriving DecidableEq, Repr

inductive Request where
  | run (settings : Settings)
  | version
  | help
deriving DecidableEq, Repr

/-- Sets an option, unless it has been set. -/
def Settings.set (s : Settings) (setting : Setting) (value : String) :
    Except UsageFault Settings :=
  match setting with
  | .backend =>
      match s.backend, Backend.ofName value with
      | some _, _ => .error (.repeated (.setting .backend))
      | none, .error e => .error (.badBackend e)
      | none, .ok backend => .ok { s with backend := some backend }
  | .schema =>
      if s.schema.isSome then .error (.repeated (.setting .schema))
      else if value = "" then .error .noSchema
      else .ok { s with schema := some value }
  | .order =>
      if s.order.isSome then .error (.repeated (.setting .order))
      else .ok { s with order := some value }

def Settings.take (s : Settings) : List Item → Except UsageFault Request
  | [] => .ok (.run s)
  | item :: rest =>
      match item with
      | .set setting value =>
          match s.set setting value with
          | .error fault => .error fault
          | .ok s => s.take rest
      | .missing setting => .error (.missing setting)
      | .switch .verbose =>
          if s.verbose then .error (.repeated (.switch .verbose))
          else Settings.take { s with verbose := true } rest
      | .switch .version => .ok .version
      | .switch .help => .ok .help
      | .unneeded switch => .error (.unneeded switch)
      | .unexpected argument => .error (.unexpected argument)

def readArguments (arguments : List String) : Except UsageFault Request :=
  Settings.initial.take (items none arguments)

def OptionKind.name (kind : OptionKind) : String :=
  match optionNames.find? fun n => n.kind == kind with
  | some n => "--" ++ n.long
  | none => ""

def UsageFault.message : UsageFault → String
  | .unexpected argument => "unexpected argument '" ++ argument ++ "'"
  | .missing setting => "no value for " ++ (OptionKind.setting setting).name
  | .unneeded switch => (OptionKind.switch switch).name ++ " takes no value"
  | .badBackend e => e.message
  | .noSchema => "the name of the schema file is empty"
  | .repeated kind => kind.name ++ " is given twice"

end Check
end RecordFilter
