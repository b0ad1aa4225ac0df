import SearchFilter.Filter.SyntaxError
import SearchFilter.Filter.Basic

/-!
# The grammar of filters

The rules that say what a filter is, read as a parsing expression grammar: alternatives are tried in order and the first
that succeeds is kept.

    start      = Space* block Space*
    block      = statement / "(" Space* statement Space* ")"
    statement  = expression Space+ "AND" Space+ statement / expression Space+ "OR" Space+ statement
               / "NOT" Space+ statement / expression
    expression = word ":" value / word Space* (">=" / ">" / "<=" / "<" / "=") Space* value
               / "(" Space* statement Space* ")"
    value      = number / boolean / null / text

Nothing is remembered between alternatives and nesting has no limit, so reading by these rules may take exponentially
many steps. They are what a reader of filters has to agree with.

* `Grammar.derivation` — how a whole text is derived, and everything that was missing on the way.
* `Grammar.Statement.toFilter` — the filter that a derivation stands for.
* `Grammar.Statement.levels` — how deep every statement of a derivation is nested.
-/

namespace SearchFilter.Grammar

/-! ## Derivations -/

mutual

/-- How a statement is derived. `start` is the number of characters before it. -/
inductive Statement where
  | join (start : Nat) (left : Expression) (link : Connective) (right : Statement)
  | not (start : Nat) (operand : Statement)
  | expression (start : Nat) (only : Expression)
  deriving Repr

/-- How an expression is derived. -/
inductive Expression where
  | comparison (op : Operator) (field : String) (value : Literal)
  | group (inner : Statement)
  deriving Repr

end

mutual

def Statement.toFilter : Statement → Filter
  | .join _ left link right => .join link left.toFilter right.toFilter
  | .not _ operand => .not operand.toFilter
  | .expression _ only => only.toFilter

def Expression.toFilter : Expression → Filter
  | .comparison op field value => .compare op field (.literal value)
  | .group inner => inner.toFilter

end

mutual

/-- The level and the start of a statement at level `level` and of every statement in it, from left to right. Groups and
negations nest, connectives do not. -/
def Statement.levels (level : Nat) : Statement → List (Nat × Nat)
  | .join start left _ right => (level, start) :: left.levels level ++ right.levels level
  | .not start operand => (level, start) :: operand.levels (level + 1)
  | .expression start only => (level, start) :: only.levels level

def Expression.levels (level : Nat) : Expression → List (Nat × Nat)
  | .comparison .. => []
  | .group inner => inner.levels (level + 1)

end

/-! ## Trials -/

/-- Something that was missing, and where. -/
structure Miss where
  index : Nat
  expectation : Expectation
  deriving DecidableEq, Repr

/-- What became of reading: the value, if it was read, and all that was missing on the way, in order. -/
structure Trial (α : Type) where
  result : Option α
  misses : List Miss
  deriving Repr

namespace Trial

variable {α β : Type}

def pure (a : α) : Trial α := ⟨some a, []⟩

def bind (t : Trial α) (f : α → Trial β) : Trial β :=
  match t with
  | ⟨some a, misses⟩ => ⟨(f a).result, misses ++ (f a).misses⟩
  | ⟨none, misses⟩ => ⟨none, misses⟩

/-- The first trial, or the second if the first fails. -/
def orElse (t : Trial α) (u : Unit → Trial α) : Trial α :=
  match t with
  | ⟨some a, misses⟩ => ⟨some a, misses⟩
  | ⟨none, misses⟩ => ⟨(u ()).result, misses ++ (u ()).misses⟩

instance : Monad Trial where
  pure := pure
  bind := bind

instance : OrElse (Trial α) where
  orElse := orElse

/-- Fail because `e` is missing. -/
def miss (c : Cursor) (e : Expectation) : Trial α := ⟨none, [⟨c.index, e⟩]⟩

@[simp] theorem result_pure (a : α) : (Pure.pure a : Trial α).result = some a := rfl

@[simp] theorem misses_pure (a : α) : (Pure.pure a : Trial α).misses = [] := rfl

@[simp] theorem result_miss (c : Cursor) (e : Expectation) : (miss c e : Trial α).result = none := rfl

@[simp] theorem misses_miss (c : Cursor) (e : Expectation) : (miss c e : Trial α).misses = [⟨c.index, e⟩] := rfl

theorem result_bind (t : Trial α) (f : α → Trial β) : (t >>= f).result = t.result.bind fun a => (f a).result := by
  obtain ⟨_ | a, misses⟩ := t <;> rfl

theorem misses_bind (t : Trial α) (f : α → Trial β) :
    (t >>= f).misses = t.misses ++ (t.result.map fun a => (f a).misses).getD [] := by
  obtain ⟨_ | a, misses⟩ := t
  · exact (List.append_nil misses).symm
  · rfl

theorem result_orElse (t u : Trial α) : (t <|> u).result = t.result.or u.result := by
  obtain ⟨_ | a, misses⟩ := t <;> rfl

theorem misses_orElse (t u : Trial α) :
    (t <|> u).misses = if t.result.isSome then t.misses else t.misses ++ u.misses := by
  obtain ⟨_ | a, misses⟩ := t <;> rfl

end Trial

/-- A rule of the grammar: tried at a place, it gives a value and the place behind it. -/
abbrev Rule (α : Type) := Cursor → Trial (α × Cursor)

/-! ## Tokens -/

/-- A token of a class. -/
def token {α : Type} (kind : TokenClass) (scan : Token α) : Rule α := fun c =>
  match scan c.rest with
  | some t => pure (t.value, c.advance t.length)
  | none => .miss c (.token kind)

/-- A fixed text. -/
def literal (text : String) (c : Cursor) : Trial Cursor :=
  if text.toList.isPrefixOf c.rest then pure (c.advance text.length) else .miss c (.literal text)

/-- `Space*`, which ends where a space is missing. -/
def anySpaces (c : Cursor) : Trial Cursor :=
  let stop := c.advance (c.rest.takeWhile (· == ' ')).length
  ⟨some stop, [⟨stop.index, .token .space⟩]⟩

/-- `Space+`. -/
def someSpaces (c : Cursor) : Trial Cursor := do
  let (_, c) ← token .space Token.spaces c
  anySpaces c

/-! ## Rules -/

def value : Rule Literal := fun c =>
  (do let (n, c) ← token .number Token.number c; return (.number n, c))
  <|> (do let (b, c) ← token .boolean Token.boolean c; return (.boolean b, c))
  <|> (do let (_, c) ← token .null Token.null c; return (.null, c))
  <|> (do let (s, c) ← token .text Token.text c; return (.text s, c))

/-- `word ":" value`. -/
def hasComparison : Rule Expression := fun c => do
  let (field, c) ← token .word Token.word c
  let c ← literal ":" c
  let (v, c) ← value c
  return (.comparison .has field v, c)

/-- `word Space* op Space* value`. -/
def comparison (op : Operator) : Rule Expression := fun c => do
  let (field, c) ← token .word Token.word c
  let c ← anySpaces c
  let c ← literal op.symbol c
  let c ← anySpaces c
  let (v, c) ← value c
  return (.comparison op field v, c)

section

variable (statement : Rule Statement)

/-- A statement in parentheses. -/
def group : Rule Statement := fun c => do
  let c ← literal "(" c
  let c ← anySpaces c
  let (inner, c) ← statement c
  let c ← anySpaces c
  let c ← literal ")" c
  return (inner, c)

def expression : Rule Expression := fun c =>
  hasComparison c
  <|> comparison .greaterEq c
  <|> comparison .greater c
  <|> comparison .lessEq c
  <|> comparison .less c
  <|> comparison .equals c
  <|> (do let (inner, c) ← group statement c; return (.group inner, c))

/-- An expression and a statement with a connective between them. -/
def joined (link : Connective) : Rule Statement := fun c => do
  let (left, d) ← expression statement c
  let d ← someSpaces d
  let d ← literal link.keyword d
  let d ← someSpaces d
  let (right, d) ← statement d
  return (.join c.index left link right, d)

/-- `NOT` and a statement. -/
def negated : Rule Statement := fun c => do
  let d ← literal "NOT" c
  let d ← someSpaces d
  let (operand, d) ← statement d
  return (.not c.index operand, d)

end

/-- A statement. A statement in another one starts behind it, so that `fuel` is enough if it is larger than the number
of characters ahead. -/
def statement : Nat → Rule Statement
  | 0 => fun _ => ⟨none, []⟩
  | fuel + 1 => fun c =>
    joined (statement fuel) .and c
    <|> joined (statement fuel) .or c
    <|> negated (statement fuel) c
    <|> (do let (only, d) ← expression (statement fuel) c; return (.expression c.index only, d))

/-- A block between spaces. -/
def start (fuel : Nat) : Rule Statement := fun c => do
  let c ← anySpaces c
  let (block, c) ← statement fuel c <|> group (statement fuel) c
  let c ← anySpaces c
  return (block, c)

/-- How a whole text is derived, if it is. Behind a block that is not the whole text its end is missing. -/
def derivation (text : List Char) : Trial Statement := do
  let (block, c) ← start (text.length + 1) ⟨0, text⟩
  if c.rest.isEmpty then return block else .miss c .endOfInput

end SearchFilter.Grammar
