/-!
# Filters

A filter is a tree of comparisons between fields and literals, joined by `AND` and `OR` and negated by `NOT`. A filter
that was read from text compares with literals only; a tree built in another way may hold any tree as a value, and
literals outside comparisons.

* `Filter.tag` — the name of a tree's topmost kind.
* `Literal.toText` — the text that a literal is compared as.
-/

namespace SearchFilter

/-- How two conditions are joined. -/
inductive Connective where
  | and
  | or
  deriving DecidableEq, Repr

/-- How a field is compared with a value. -/
inductive Operator where
  | has
  | equals
  | greater
  | greaterEq
  | less
  | lessEq
  deriving DecidableEq, Repr

/-- A value written in a filter. -/
inductive Literal where
  | text (value : String)
  | number (value : Int64)
  | boolean (value : Bool)
  | null
  deriving DecidableEq, Repr

/-- A tree of comparisons. -/
inductive Filter where
  | join (link : Connective) (left right : Filter)
  | not (operand : Filter)
  | compare (op : Operator) (field : String) (value : Filter)
  | literal (value : Literal)
  deriving DecidableEq, Repr

namespace Connective

/-- The word that joins two statements. -/
def keyword : Connective → String
  | and => "AND"
  | or => "OR"

end Connective

namespace Operator

/-- The operator as it is written between a field and a value. -/
def symbol : Operator → String
  | has => ":"
  | equals => "="
  | greater => ">"
  | greaterEq => ">="
  | less => "<"
  | lessEq => "<="

def tag : Operator → String
  | has => "MATCH"
  | equals => "EQUALS"
  | greater => "GT"
  | greaterEq => "GTE"
  | less => "LT"
  | lessEq => "LTE"

end Operator

namespace Literal

def tag : Literal → String
  | text _ => "STRING"
  | number _ => "NUMBER"
  | boolean _ => "BOOLEAN"
  | null => "NULL"

/-- The text a literal is compared as: numbers in decimal, the other words as they are written. -/
def toText : Literal → String
  | text s => s
  | number n => toString n.toInt
  | boolean b => if b then "true" else "false"
  | null => "null"

end Literal

namespace Filter

/-- The name of the topmost kind. -/
def tag : Filter → String
  | join link _ _ => link.keyword
  | not _ => "NOT"
  | compare op _ _ => op.tag
  | literal value => value.tag

end Filter

end SearchFilter
