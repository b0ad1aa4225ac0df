import SearchFilter.Filter.Basic
import SearchFilter.Text.Quoted

/-!
# Outlines

The outline of a filter is its tree on one line: `OR(MATCH(a, 1), NOT(GTE(b, "x")))`. Texts are quoted, so that the
number `1` and the text `1`, or the word `null` and the text `null`, look different.
-/

namespace SearchFilter

/-- A literal as an outline shows it. -/
def Literal.outline : Literal → String
  | text s => Text.quote s
  | number n => toString n.toInt
  | boolean b => if b then "true" else "false"
  | null => "null"

/-- The tree of a filter on one line. -/
def Filter.outline : Filter → String
  | join link left right => link.keyword ++ "(" ++ left.outline ++ ", " ++ right.outline ++ ")"
  | not operand => "NOT(" ++ operand.outline ++ ")"
  | compare op field value => op.tag ++ "(" ++ field ++ ", " ++ value.outline ++ ")"
  | literal value => value.outline

end SearchFilter
