import SearchFilter.Filter.Basic

/-!
# What filters mean

Where every field holds an integer of 64 bits and every comparison is with a number, a filter means what its operators
and connectives mean on integers.

* `Filter.holds` — whether a filter holds of given fields.
* `Filter.IsNumeric` — filters of comparisons with numbers, none of which asks for more than the largest number or less
  than the least one.
* `Filter.comparisons` — the comparisons of a filter, from left to right.
-/

namespace SearchFilter

/-- What an operator means on integers; `:` and `=` mean the same. -/
def Operator.holds : Operator → Int → Int → Bool
  | has, a, b => a = b
  | equals, a, b => a = b
  | greater, a, b => b < a
  | greaterEq, a, b => b ≤ a
  | less, a, b => a < b
  | lessEq, a, b => a ≤ b

/-- A comparison and where it stands: its operator, field and value. -/
structure Comparison where
  op : Operator
  field : String
  value : Filter
  deriving DecidableEq, Repr

namespace Filter

/-- Whether a filter holds of fields with the given values; comparisons with anything but numbers do not. -/
def holds (values : String → Int64) : Filter → Bool
  | join .and left right => left.holds values && right.holds values
  | join .or left right => left.holds values || right.holds values
  | not operand => !operand.holds values
  | compare op field (literal (.number n)) => op.holds (values field).toInt n.toInt
  | compare _ _ _ => false
  | literal _ => false

/-- Filters of comparisons with numbers that some 64-bit integer may pass, strict bounds at either end apart. -/
inductive IsNumeric : Filter → Prop
  | join {left right : Filter} (link : Connective) : IsNumeric left → IsNumeric right →
    IsNumeric (join link left right)
  | not {operand : Filter} : IsNumeric operand → IsNumeric (not operand)
  | compare {op : Operator} (field : String) {n : Int64} : (op = .greater → n ≠ Int64.maxValue) →
    (op = .less → n ≠ Int64.minValue) → IsNumeric (compare op field (literal (.number n)))

/-- The comparisons that `AND`, `OR` and `NOT` lead to, from left to right; what stands in their values does not
count. -/
def comparisons : Filter → List Comparison
  | join _ left right => left.comparisons ++ right.comparisons
  | not operand => operand.comparisons
  | compare op field value => [⟨op, field, value⟩]
  | literal _ => []

end Filter

end SearchFilter
