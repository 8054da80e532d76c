/-
JSON values. An integer stays apart from a number with a fraction, as the two are written
differently and read into different values; an object keeps its members in the order in which
they were put in, and a member that is put in again keeps its place and takes the new value.

JSON is the work of the `serde_json` library, with its feature `preserve_order`. The modules beside
this one stand for the part of it that values, schemas and options need: this one for its values,
`Json/Printer` for its writer, `Json/Written` and `Json/Reader` for its reader, and `Json/Struct`
for the reading of sets of fields that is derived with `serde`. Each of them says what it takes from
there.
-/
import RecordFilter.Number.Binary64

namespace RecordFilter

open Number

inductive Json where
  | null
  | bool (b : Bool)
  | int (n : Int)
  | float (x : Binary64)
  | string (s : String)
  | array (items : List Json)
  | object (members : List (String × Json))
deriving Inhabited

namespace Json

/-- Puts a member into an object: at the end if the name is new, in place of the old value
otherwise. -/
def putMember (name : String) (value : Json) :
    List (String × Json) → List (String × Json)
  | [] => [(name, value)]
  | (k, v) :: rest =>
      if k = name then (k, value) :: rest else (k, v) :: putMember name value rest

def collect (members : List (String × Json)) : List (String × Json) :=
  members.foldl (fun object member => putMember member.1 member.2 object) []

def member? (name : String) : List (String × Json) → Option Json
  | [] => none
  | (k, v) :: rest => if k = name then some v else member? name rest

def single (name : String) (value : Json) : Json :=
  .object [(name, value)]

mutual
def same : Json → Json → Bool
  | .null, .null => true
  | .bool a, .bool b => a == b
  | .int a, .int b => a == b
  | .float a, .float b => a == b
  | .string a, .string b => a == b
  | .array as, .array bs => sameItems as bs
  | .object as, .object bs => sameMembers as bs
  | _, _ => false

def sameItems : List Json → List Json → Bool
  | [], [] => true
  | a :: as, b :: bs => same a b && sameItems as bs
  | _, _ => false

def sameMembers : List (String × Json) → List (String × Json) → Bool
  | [], [] => true
  | (k, a) :: as, (l, b) :: bs => k == l && same a b && sameMembers as bs
  | _, _ => false
end

mutual
theorem same_iff_eq (a b : Json) : same a b = true ↔ a = b := by
  match a, b with
  | .array as, .array bs => simp [same, sameItems_iff_eq as bs]
  | .object as, .object bs => simp [same, sameMembers_iff_eq as bs]
  | .null, b => cases b <;> simp [same]
  | .bool _, b => cases b <;> simp [same]
  | .int _, b => cases b <;> simp [same]
  | .float _, b => cases b <;> simp [same]
  | .string _, b => cases b <;> simp [same]
  | .array _, .null | .array _, .bool _ | .array _, .int _ | .array _, .float _
  | .array _, .string _ | .array _, .object _ => simp [same]
  | .object _, .null | .object _, .bool _ | .object _, .int _ | .object _, .float _
  | .object _, .string _ | .object _, .array _ => simp [same]

theorem sameItems_iff_eq (as bs : List Json) : sameItems as bs = true ↔ as = bs := by
  match as, bs with
  | [], [] => simp [sameItems]
  | [], _ :: _ | _ :: _, [] => simp [sameItems]
  | a :: as, b :: bs => simp [sameItems, same_iff_eq a b, sameItems_iff_eq as bs]

theorem sameMembers_iff_eq (as bs : List (String × Json)) :
    sameMembers as bs = true ↔ as = bs := by
  match as, bs with
  | [], [] => simp [sameMembers]
  | [], _ :: _ | _ :: _, [] => simp [sameMembers]
  | (k, a) :: as, (l, b) :: bs =>
      simp [sameMembers, same_iff_eq a b, sameMembers_iff_eq as bs, and_assoc]
end

instance : DecidableEq Json := fun a b =>
  decidable_of_iff (same a b = true) (same_iff_eq a b)

end Json
end RecordFilter
