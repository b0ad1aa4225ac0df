import SearchFilter.Filter.Basic
import SearchFilter.Filter.Token

/-!
# Filters as text

A filter that is well-formed can be written so that reading the text gives the filter back. Connectives nest to the
right and a negation takes all that follows, so only left sides that are not comparisons need parentheses.

* `Filter.WellFormed` — the filters that some text stands for.
* `Filter.print` — the text of a filter.
* `Filter.nesting` — how deep the text nests its statements.
-/

namespace SearchFilter

/-- The literals that can be written: numbers without a sign, and texts that stand between double quotes. -/
def Literal.WellFormed : Literal → Prop
  | text s => ∀ c ∈ s.toList, isBareChar c
  | number n => 0 ≤ n.toInt
  | boolean _ => True
  | null => True

namespace Filter

/-- Filters made of comparisons between field names and literals that can be written. -/
inductive WellFormed : Filter → Prop
  | join {left right : Filter} (link : Connective) : WellFormed left → WellFormed right →
    WellFormed (join link left right)
  | not {operand : Filter} : WellFormed operand → WellFormed (not operand)
  | compare (op : Operator) {field : String} {v : Literal} : field ≠ "" → (∀ c ∈ field.toList, isFieldChar c) →
    v.WellFormed → WellFormed (compare op field (literal v))

def isComparison : Filter → Bool
  | compare .. => true
  | _ => false

end Filter

/-- A literal with its text between double quotes. -/
def Literal.print : Literal → String
  | text s => "\"" ++ s ++ "\""
  | number n => toString n.toInt
  | boolean b => if b then "true" else "false"
  | null => "null"

namespace Filter

/-- The text of a filter. -/
def print : Filter → String
  | join link left right =>
    (if left.isComparison then left.print else "(" ++ left.print ++ ")") ++ " " ++ link.keyword ++ " " ++ right.print
  | not operand => "NOT " ++ operand.print
  | compare op field value =>
    field ++ (if op = .has then op.symbol else " " ++ op.symbol ++ " ") ++ value.print
  | literal v => v.print

/-- How many groups and negations stand around the most nested statement of the text. -/
def nesting : Filter → Nat
  | join _ left right => max (if left.isComparison then 0 else left.nesting + 1) right.nesting
  | not operand => operand.nesting + 1
  | compare .. => 0
  | literal _ => 0

end Filter

end SearchFilter
