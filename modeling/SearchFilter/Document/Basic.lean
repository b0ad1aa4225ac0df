import SearchFilter.KeyOrder

/-!
# Documents

A document is a value of nested arrays and objects. The members of an object keep their order; `sorted` puts them in the
order of their keys, level by level.
-/

namespace SearchFilter

/-- A nested value. -/
inductive Document where
  | null
  | boolean (value : Bool)
  /-- `mantissa` times ten to the power `exponent`. -/
  | number (mantissa exponent : Int)
  | string (value : String)
  | array (items : List Document)
  | object (members : List (String × Document))
  deriving Repr, Inhabited

namespace Document

def boolean? : Document → Option Bool
  | boolean b => some b
  | _ => none

def string? : Document → Option String
  | string s => some s
  | _ => none

mutual

/-- All objects with their members in the order of their keys. -/
def sorted : Document → Document
  | array items => array (sortedItems items)
  | object members => object (sortedMembers members)
  | d => d

def sortedItems : List Document → List Document
  | [] => []
  | d :: rest => d.sorted :: sortedItems rest

def sortedMembers : List (String × Document) → List (String × Document)
  | [] => []
  | (key, d) :: rest => insertByKey (key, d.sorted) (sortedMembers rest)

end

/-- Documents without numbers, of which different ones may be written alike: 1 with exponent 2 as well as 100. -/
inductive NumberFree : Document → Prop
  | null : NumberFree null
  | boolean (b : Bool) : NumberFree (boolean b)
  | string (s : String) : NumberFree (string s)
  | array {items : List Document} (h : ∀ d ∈ items, NumberFree d) : NumberFree (array items)
  | object {members : List (String × Document)} (h : ∀ m ∈ members, NumberFree m.2) : NumberFree (object members)

end Document

end SearchFilter
