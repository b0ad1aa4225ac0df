import SearchFilter.Query.Basic

/-!
# Compiling filters

A filter becomes the query that its matches answer. Backends offer inclusive bounds only, so a strict bound that is a
number moves by one; other values have no next value and their bounds stay as they are. `null` has no order: an ordering
comparison with it constrains nothing, and vanishes together with the connective beside it.

* `Filter.compile` — the query, none if the filter constrains nothing, or the first comparison with a tree.
* `Filter.compile_join`, `compile_not`, `compile_compare`, `compile_literal` — what it does with each kind of filter.
-/

namespace SearchFilter

/-- A comparison whose value is a tree instead of a literal. -/
structure ContractViolation where
  /-- The tag of the comparison. -/
  token : String
  field : String
  /-- The tag of the value. -/
  found : String
  deriving DecidableEq, Repr

/-- The violation in words. -/
def ContractViolation.message (v : ContractViolation) : String :=
  "Contract violation: " ++ v.token ++ " on field '" ++ v.field ++ "' expects a literal value, got " ++ v.found

namespace Literal

/-- The literal as a bound of a range. -/
def bound? : Literal → Option String
  | null => none
  | v => some v.toText

/-- The least bound above the literal: numbers below the largest one move up by one. -/
def above? : Literal → Option String
  | number n => some (toString (if n = Int64.maxValue then n else n + 1).toInt)
  | v => v.bound?

/-- The greatest bound below the literal: numbers above the least one move down by one. -/
def below? : Literal → Option String
  | number n => some (toString (if n = Int64.minValue then n else n - 1).toInt)
  | v => v.bound?

end Literal

/-- The condition that a comparison with a literal sets, if it sets one. -/
def Operator.condition (op : Operator) (field : String) (v : Literal) : Option Query :=
  match op with
  | has | equals => some (.fieldEquals field v.toText)
  | greater => v.above?.map (.atLeast field)
  | greaterEq => v.bound?.map (.atLeast field)
  | less => v.below?.map (.atMost field)
  | lessEq => v.bound?.map (.atMost field)

/-- The condition of a comparison, whose value must be a literal. -/
def Filter.compileComparison (op : Operator) (field : String) (value : Filter) :
    Except ContractViolation (Option Query) :=
  match value with
  | literal v => .ok (op.condition field v)
  | other => .error ⟨op.tag, field, other.tag⟩

/-- Both sides joined, or the only one there is. -/
def Connective.combine (link : Connective) : Option Query → Option Query → Option Query
  | some left, some right => some (.group link [left, right])
  | some left, none => some left
  | none, right => right

/-- The left sides of a chain that are compiled already, nearest first, joined to its last one. -/
def Filter.unwind (last : Option Query) (lefts : List (Option Query × Connective)) : Option Query :=
  lefts.foldl (fun right (left, link) => link.combine left right) last

/-- Compile a filter at the right end of a chain with the given left sides. Chains nest to the right and may be long, so
the walk along them keeps what it passed instead of waiting for the end. -/
def Filter.compileOnto (lefts : List (Option Query × Connective)) : Filter → Except ContractViolation (Option Query)
  | join link left right =>
    match left.compileOnto [] with
    | .ok q => right.compileOnto ((q, link) :: lefts)
    | .error v => .error v
  | not operand =>
    match operand.compileOnto [] with
    | .ok q => .ok (unwind (q.map .negate) lefts)
    | .error v => .error v
  | compare op field value =>
    match compileComparison op field value with
    | .ok q => .ok (unwind q lefts)
    | .error v => .error v
  | literal _ => .ok (unwind none lefts)

/-- The query that a filter asks for; none if it constrains nothing. -/
def Filter.compile (f : Filter) : Except ContractViolation (Option Query) := f.compileOnto []

/-! ## Part by part

A filter compiles part by part, from left to right; the walk along chains is only the way to do it. -/

namespace Filter

theorem compileOnto_eq (f : Filter) (lefts : List (Option Query × Connective)) :
    f.compileOnto lefts = f.compile.map (unwind · lefts) := by
  induction f generalizing lefts with
  | join link left right ihl ihr =>
    simp only [compile, compileOnto]
    cases left.compileOnto [] with
    | error v => rfl
    | ok q =>
      simp only
      rw [ihr ((q, link) :: lefts), ihr [(q, link)]]
      cases right.compile <;> rfl
  | not operand ih =>
    simp only [compile, compileOnto]
    cases operand.compileOnto [] <;> rfl
  | compare op field value =>
    simp only [compile, compileOnto]
    cases compileComparison op field value <;> rfl
  | literal value => rfl

theorem compile_join (link : Connective) (left right : Filter) :
    (join link left right).compile =
      left.compile.bind fun l => right.compile.map fun r => link.combine l r := by
  simp only [compile, compileOnto]
  cases left.compileOnto [] with
  | error v => rfl
  | ok q => exact right.compileOnto_eq [(q, link)]

theorem compile_not (operand : Filter) : (not operand).compile = operand.compile.map (·.map .negate) := by
  simp only [compile, compileOnto]
  cases operand.compileOnto [] <;> rfl

theorem compile_compare (op : Operator) (field : String) (value : Filter) :
    (compare op field value).compile = compileComparison op field value := by
  simp only [compile, compileOnto]
  cases compileComparison op field value <;> rfl

theorem compile_literal (v : Literal) : (literal v).compile = .ok none := rfl

end Filter

end SearchFilter
