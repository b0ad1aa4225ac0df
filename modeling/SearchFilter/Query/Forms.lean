import SearchFilter.Query.Codec

/-!
# The forms of a query

A query may be written as a document in many ways. Each of its nodes is an object, whose members have any order and may
have others among them, or an array of the kind and the fields in order. A bound that is absent may be missing or null;
in an array only what would stand at the end may be missing.

* `Query.WrittenAs` — the documents that stand for a query.
-/

namespace SearchFilter

/-- The kind of a query. -/
def Query.kind : Query → QueryKind
  | group link _ => link.kind
  | not .. => .not
  | fieldEquals .. => .fieldEquals
  | fieldRange .. => .fieldRange
  | text _ => .text
  | wildcard => .wildcard

/-- The members of an object: what is written under each of the keys, without what is missing. -/
def present : List String → List (Option Document) → List (String × Document)
  | key :: keys, some d :: fields => (key, d) :: present keys fields
  | _ :: keys, none :: fields => present keys fields
  | _, _ => []

namespace Query

/-- What may be written for a bound. -/
inductive BoundAs : Option String → Option Document → Prop
  | value (s : String) : BoundAs (some s) (some (.string s))
  | missing : BoundAs none none
  | null : BoundAs none (some .null)

mutual

/-- What may be written for a query. -/
inductive WrittenAs : Query → Document → Prop
  | object {q : Query} {fields : List (Option Document)} {members others : List (String × Document)} :
    FieldsAs q fields → (∀ m ∈ others, m.1 ∉ "type" :: q.kind.fields) →
    members.Perm (("type", .string q.kind.name) :: present q.kind.fields fields ++ others) →
    WrittenAs q (.object members)
  | array {q : Query} {items : List Document} {missing : Nat} :
    FieldsAs q (items.map some ++ List.replicate missing none) → WrittenAs q (.array (.string q.kind.name :: items))

/-- What may be written for the fields of a query, in their order. -/
inductive FieldsAs : Query → List (Option Document) → Prop
  | group (link : Connective) {members : List Query} {items : List Document} :
    AllWrittenAs members items → FieldsAs (group link members) [some (.array items)]
  | not {excluded included : Query} {d e : Document} :
    WrittenAs excluded d → WrittenAs included e → FieldsAs (not excluded included) [some d, some e]
  | fieldEquals (field value : String) :
    FieldsAs (fieldEquals field value) [some (.string field), some (.string value)]
  | fieldRange (field : String) {lower upper : Option String} {l u : Option Document} :
    BoundAs lower l → BoundAs upper u → FieldsAs (fieldRange field lower upper) [some (.string field), l, u]
  | text (words : String) : FieldsAs (text words) [some (.string words)]
  | wildcard : FieldsAs wildcard []

/-- What may be written for queries, one by one. -/
inductive AllWrittenAs : List Query → List Document → Prop
  | nil : AllWrittenAs [] []
  | cons {q : Query} {d : Document} {qs : List Query} {ds : List Document} :
    WrittenAs q d → AllWrittenAs qs ds → AllWrittenAs (q :: qs) (d :: ds)

end

end Query

end SearchFilter
