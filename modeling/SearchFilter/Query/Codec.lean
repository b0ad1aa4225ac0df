import SearchFilter.Document.Basic
import SearchFilter.Query.Basic

/-!
# Queries as documents

A query is written as an object: its kind under `type`, and the fields of that kind. It is read from such an object
with its members in any order and any others among them, or from an array of the kind and the fields in their order.
A bound that is absent is left out when written, and may be left out or null when read.

* `Query.toDocument` — the object of a query.
* `Query.ofDocument?` — the query of an object or array.
-/

namespace SearchFilter

/-- The kinds of query, in the order of their ordinals. -/
inductive QueryKind where
  | and
  | or
  | not
  | fieldEquals
  | fieldRange
  | text
  | wildcard
  deriving DecidableEq, Repr

namespace QueryKind

def all : List QueryKind := [and, or, not, fieldEquals, fieldRange, text, wildcard]

/-- The name of a kind under `type`. -/
def name : QueryKind → String
  | and => "and"
  | or => "or"
  | not => "not"
  | fieldEquals => "field_equals"
  | fieldRange => "field_range"
  | text => "text"
  | wildcard => "wildcard"

/-- The fields of a kind, in order. -/
def fields : QueryKind → List String
  | and | or => ["queries"]
  | not => ["exclude", "include"]
  | fieldEquals => ["field", "value"]
  | fieldRange => ["field", "lower_inclusive", "upper_inclusive"]
  | text => ["text"]
  | wildcard => []

def ofName? (s : String) : Option QueryKind := all.find? (·.name = s)

def ofOrdinal? (n : Nat) : Option QueryKind := all[n]?

end QueryKind

/-- The kind of a group. -/
def Connective.kind : Connective → QueryKind
  | and => .and
  | or => .or

namespace Query

/-! ## Writing -/

/-- An object of a kind with its fields. -/
def ofKind (kind : QueryKind) (fields : List (String × Document)) : Document :=
  .object (("type", .string kind.name) :: fields)

/-- A bound that is present, under its key. -/
def boundMember (key : String) : Option String → List (String × Document)
  | none => []
  | some value => [(key, .string value)]

mutual

/-- The query as an object. -/
def toDocument : Query → Document
  | group link members => ofKind link.kind [("queries", .array (toDocuments members))]
  | not excluded included => ofKind .not [("exclude", excluded.toDocument), ("include", included.toDocument)]
  | fieldEquals field value => ofKind .fieldEquals [("field", .string field), ("value", .string value)]
  | fieldRange field lower upper =>
    ofKind .fieldRange
      (("field", .string field) :: boundMember "lower_inclusive" lower ++ boundMember "upper_inclusive" upper)
  | text words => ofKind .text [("text", .string words)]
  | wildcard => ofKind .wildcard []

def toDocuments : List Query → List Document
  | [] => []
  | q :: qs => q.toDocument :: toDocuments qs

end

/-! ## Reading

A document is read once as everything that it may stand for where a query has a field; the kind of query around it then
decides. -/

/-- What a document may stand for. -/
structure Reading where
  isNull : Bool := false
  string : Option String := none
  ordinal : Option Nat := none
  query : Option Query := none
  queries : Option (List Query) := none

namespace Reading

/-- The kind that a document names. Inside another query it may also be given by its ordinal. -/
def kind? (r : Reading) : Option QueryKind :=
  match r.string with
  | some s => QueryKind.ofName? s
  | none => r.ordinal.bind QueryKind.ofOrdinal?

/-- A bound, which may be absent or null. -/
def bound? : Option Reading → Option (Option String)
  | none => some none
  | some r => if r.isNull then some none else r.string.map some

end Reading

/-- The query of a kind with the given fields, in order; none if one is missing or not what the kind needs. -/
def ofFields? : QueryKind → List (Option Reading) → Option Query
  | .and, [some members] => members.queries.map (.group .and)
  | .or, [some members] => members.queries.map (.group .or)
  | .not, [some excluded, some included] => do return .not (← excluded.query) (← included.query)
  | .fieldEquals, [some field, some value] => do return .fieldEquals (← field.string) (← value.string)
  | .fieldRange, [some field, lower, upper] => do
    return .fieldRange (← field.string) (← Reading.bound? lower) (← Reading.bound? upper)
  | .text, [some words] => words.string.map .text
  | .wildcard, [] => some .wildcard
  | _, _ => none

/-- The query of an object whose members are read as `members`. -/
def ofMembers? (members : List (String × Reading)) : Option Query := do
  let kind ← (← members.lookup "type").kind?
  ofFields? kind (kind.fields.map fun key => members.lookup key)

/-- The query of an array whose items are read as `items`. -/
def ofItems? : List Reading → Option Query
  | [] => none
  | first :: rest => do
    let kind ← first.kind?
    if rest.length ≤ kind.fields.length then
      ofFields? kind (rest.map some ++ List.replicate (kind.fields.length - rest.length) none)
    else none

mutual

/-- Everything that a document may stand for. -/
def reading : Document → Reading
  | .null => { isNull := true }
  | .boolean _ => {}
  | .number mantissa exponent => { ordinal := if exponent = 0 ∧ 0 ≤ mantissa then some mantissa.toNat else none }
  | .string s => { string := some s }
  | .array items =>
    let items := readItems items
    { query := ofItems? items, queries := items.mapM (·.query) }
  | .object members => { query := ofMembers? (readMembers members) }

def readItems : List Document → List Reading
  | [] => []
  | d :: rest => reading d :: readItems rest

def readMembers : List (String × Document) → List (String × Reading)
  | [] => []
  | (key, d) :: rest => (key, reading d) :: readMembers rest

end

/-- Whether a document gives its kind by name, as the outermost query must. -/
def namesKind : Document → Bool
  | .object members => namesIt (members.lookup "type")
  | .array items => namesIt items.head?
  | _ => false
where
  namesIt : Option Document → Bool
    | some (.string _) => true
    | _ => false

/-- The query that a document stands for. -/
def ofDocument? (d : Document) : Option Query := if namesKind d then (reading d).query else none

end Query

end SearchFilter
