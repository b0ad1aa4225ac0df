import Mathlib.Logic.Relation
import SearchFilter.Filter.Grammar
import SearchFilter.Filter.Offsets

/-!
# The calls of the machine

The rules of the machine of byte offsets call each other. Where such a call is made and what the machine looks like
there, and what a rule is held to: a rule that fails goes back, a rule that succeeds has moved on, and what is
remembered across failures only grows.

* `Makes`, `Reached` — the calls that are made while a text is read.
* `Precedes` — how the machine may change.
* `Sound` — what the machine remembers is true.
* `Leaves` — how a call may end.
* `Disciplined` — what is so at every call.
-/

namespace SearchFilter

/-- A token of the class is ahead. -/
def TokenClass.isAhead (rest : List Char) : TokenClass → Bool
  | space => (Token.spaces rest).isSome
  | word => (Token.word rest).isSome
  | number => (Token.number rest).isSome
  | boolean => (Token.boolean rest).isSome
  | null => (Token.null rest).isSome
  | text => (Token.text rest).isSome

/-- What is expected is not ahead. -/
def Expectation.IsMissing (rest : List Char) : Expectation → Prop
  | literal word => ¬ word.toList <+: rest
  | token kind => kind.isAhead rest = false
  | endOfInput => rest ≠ []

namespace Offsets

/-! ## Calls -/

/-- The rules that read statements, and the rounds of a chain. -/
inductive Call where
  | start
  | statement
  | chain
  | expression
  /-- A negation that goes back if it fails. -/
  | negation
  /-- A group that goes back if it fails. -/
  | group
  /-- The rest of a chain, behind the operands `earlier` and `last`. -/
  | links (fuel : Nat) (last : Filter) (earlier : List (Filter × Connective))

/-- The number of bytes that are read at least, unless the call fails. -/
def Call.least : Call → Nat
  | start => 0
  | links .. => 0
  | statement => 1
  | chain => 1
  | expression => 1
  | negation => 1
  | group => 1

/-- A call, in the state where it is made. Statements in it may call each other `calls` times. -/
structure Point where
  call : Call
  calls : Nat
  state : State

section

variable (text : List Char)

def Call.reader (calls : Nat) : Call → Reader Filter
  | start => Offsets.start text
  | statement => Offsets.statement text calls
  | chain => Offsets.chain text (Offsets.statement text calls)
  | expression => Offsets.expression text (Offsets.statement text calls)
  | negation => (Offsets.negation text (Offsets.statement text calls)).attempt
  | group => (Offsets.group text (Offsets.statement text calls)).attempt
  | links fuel last earlier => Offsets.links text (Offsets.statement text calls) fuel last earlier

def Point.run (p : Point) : Except Fault (Option Filter × State) := p.call.reader text p.calls p.state

/-- A comparison, whatever its operator. -/
def anyComparison : Reader Filter :=
  (hasComparison text).attempt
  <|> (comparison text .greaterEq).attempt
  <|> (comparison text .greater).attempt
  <|> (comparison text .lessEq).attempt
  <|> (comparison text .less).attempt
  <|> (comparison text .equals).attempt

/-- One call makes another. There is a constructor for every place where a rule calls a rule. -/
inductive Makes : Point → Point → Prop
  | startStatement {calls : Nat} {s t : State} : anySpaces text s = .ok (some (), t) →
    Makes ⟨.start, calls, s⟩ ⟨.statement, nestingLimit + 1, t⟩
  | startGroup {calls : Nat} {s t u : State} : anySpaces text s = .ok (some (), t) →
    statement text (nestingLimit + 1) t = .ok (none, u) → Makes ⟨.start, calls, s⟩ ⟨.group, nestingLimit + 1, u⟩
  | statementChain {calls : Nat} {s : State} : s.overflow = none → s.depth < nestingLimit →
    Makes ⟨.statement, calls + 1, s⟩ ⟨.chain, calls, { s with depth := s.depth + 1 }⟩
  | statementNegation {calls : Nat} {s t : State} : s.overflow = none → s.depth < nestingLimit →
    chain text (statement text calls) { s with depth := s.depth + 1 } = .ok (none, t) →
    Makes ⟨.statement, calls + 1, s⟩ ⟨.negation, calls, t⟩
  | chainExpression {calls : Nat} {s : State} : Makes ⟨.chain, calls, s⟩ ⟨.expression, calls, s⟩
  | chainLinks {calls : Nat} {s t : State} {first : Filter} :
    expression text (statement text calls) s = .ok (some first, t) →
    Makes ⟨.chain, calls, s⟩ ⟨.links text.length first [], calls, t⟩
  | linksExpression {calls fuel : Nat} {s t : State} {last : Filter} {earlier : List (Filter × Connective)}
    {link : Connective} : connective text s = .ok (some link, t) →
    Makes ⟨.links (fuel + 1) last earlier, calls, s⟩ ⟨.expression, calls, t⟩
  | linksLinks {calls fuel : Nat} {s t u : State} {last operand : Filter} {earlier : List (Filter × Connective)}
    {link : Connective} : connective text s = .ok (some link, t) →
    expression text (statement text calls) t = .ok (some operand, u) →
    Makes ⟨.links (fuel + 1) last earlier, calls, s⟩ ⟨.links fuel operand ((last, link) :: earlier), calls, u⟩
  | linksNegation {calls fuel : Nat} {s t u : State} {last : Filter} {earlier : List (Filter × Connective)}
    {link : Connective} : connective text s = .ok (some link, t) →
    expression text (statement text calls) t = .ok (none, u) →
    Makes ⟨.links (fuel + 1) last earlier, calls, s⟩ ⟨.negation, calls, u⟩
  | expressionGroup {calls : Nat} {s t : State} : s.known[s.offset]? = none → anyComparison text s = .ok (none, t) →
    Makes ⟨.expression, calls, s⟩ ⟨.group, calls, t⟩
  | negationStatement {calls : Nat} {s t u : State} : literal text "NOT" s = .ok (some (), t) →
    someSpaces text t = .ok (some (), u) → Makes ⟨.negation, calls, s⟩ ⟨.statement, calls, u⟩
  | groupStatement {calls : Nat} {s t u : State} : literal text "(" s = .ok (some (), t) →
    anySpaces text t = .ok (some (), u) → Makes ⟨.group, calls, s⟩ ⟨.statement, calls, u⟩

/-- The call that reads a whole text. -/
def Point.first : Point := ⟨.start, nestingLimit + 1, {}⟩

/-- The call is made while the text is read. -/
def Reached : Point → Prop := Relation.ReflTransGen (Makes text) Point.first

/-! ## What calls keep -/

/-- What is expected is not ahead at a byte offset, which is between two characters of the text. -/
def MissingAt (offset : Nat) (e : Expectation) : Prop := ∃ rest, behind offset text = .ok rest ∧ e.IsMissing rest

/-- How the machine may change: `t` may come some steps after `s`. -/
structure Precedes (s t : State) : Prop where
  furthest_le : s.furthest ≤ t.furthest
  /-- What was missing is kept unless something is missing further on, and only what is missing there is added. -/
  expected : ∃ new, t.expected = new ++ (if t.furthest = s.furthest then s.expected else []) ∧
    ∀ e ∈ new, MissingAt text t.furthest e
  overflow : ∀ offset, s.overflow = some offset → t.overflow = some offset
  /-- Only expressions between two characters of the text are remembered. -/
  known : ∀ offset result, t.known[offset]? = some result →
    s.known[offset]? = some result ∨ ∃ i ≤ text.length, offset = byteLength (text.take i)

/-- What the rules of the grammar give for an expression at place number `i`, and the byte offset of its end. -/
def afresh (i : Nat) : Option (Filter × Nat) :=
  (Grammar.expression (Grammar.statement (text.length + 1)) ⟨i, text.drop i⟩).result.map fun (e, d) =>
    (e.toFilter, byteLength (text.take d.index))

/-- What the machine remembers is true. -/
structure Sound (s : State) : Prop where
  expected : ∀ e ∈ s.expected, MissingAt text s.furthest e
  /-- An expression is remembered with an offset behind its own. As long as the nesting limit is not passed, it is what
  the grammar gives there. -/
  known : ∀ offset result, s.known[offset]? = some result → (∀ f stop, result = some (f, stop) → offset < stop) ∧
    ∃ i ≤ text.length, offset = byteLength (text.take i) ∧ (s.overflow = none → result = afresh text i)

/-- How a call may end. Only the first one need not go back if it fails. -/
structure Leaves (p : Point) (result : Option Filter) (t : State) : Prop where
  depth_eq : t.depth = p.state.depth
  offset_eq : p.call ≠ .start → result = none → t.offset = p.state.offset
  offset_le : result ≠ none → p.state.offset + p.call.least ≤ t.offset ∧ t.offset ≤ byteLength text
  precedes : Precedes text p.state t
  sound : Sound text t
  /-- An expression is stored as it was read, so what is stored before the nesting limit is passed is what the grammar
  gives. -/
  stored : p.call = .expression → t.known[p.state.offset]? = some (result.map fun f => (f, t.offset))

/-- What is so where a call is made. -/
structure Disciplined (p : Point) : Prop where
  sound : Sound text p.state
  /-- The call comes to its end, as would any rule that reads something if it were called in the same state. -/
  leaves : ∀ call, call = p.call ∨ call.least = 1 → ∃ result t,
    (Point.mk call p.calls p.state).run text = .ok (result, t) ∧ Leaves text ⟨call, p.calls, p.state⟩ result t
  /-- A call within this one starts behind its start and ends before its end. -/
  makes : ∀ q, Makes text p q → Precedes text p.state q.state ∧ ∀ result t result' t', p.run text = .ok (result, t) →
    q.run text = .ok (result', t') → Precedes text t' t
  /-- If a filter ends before the text does, the end of the text is missing there. -/
  ends : p.call = .start → ∀ f t, p.run text = .ok (some f, t) → t.offset ≠ byteLength text →
    Precedes text t (t.miss .endOfInput) ∧ Sound text (t.miss .endOfInput)

end

end Offsets

end SearchFilter
