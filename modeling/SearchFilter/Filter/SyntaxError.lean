import SearchFilter.Filter.Token
import SearchFilter.Text.Quoted

/-!
# Syntax errors

Why a text is no filter, and where. An error names the furthest place that reading came to and everything that could
have stood there, or the place where the nesting limit was passed.

* `Position.after` — the place behind a text: its byte offset, line and column.
* `Position.after_append` — it is reached by walking over the text.
* `Expectation.ordered`, `Expectation.pairwise_ordered` — expectations sorted by the way they are shown, each once.
* `SyntaxError.message` — the whole message.
-/

namespace SearchFilter

/-- The most statements that may be nested in each other. -/
def nestingLimit : Nat := 512

/-- Something that could have stood at the place of an error. -/
inductive Expectation where
  | literal (text : String)
  | token (kind : TokenClass)
  | endOfInput
  deriving DecidableEq, Repr

namespace Expectation

/-- An expectation as messages show it. -/
def description : Expectation → String
  | literal text => Text.quote text
  | token kind => kind.name
  | endOfInput => "end of input"

/-- Put an expectation into a list sorted by description, unless it is there. -/
def insert (e : Expectation) : List Expectation → List Expectation
  | [] => [e]
  | x :: rest =>
    if e.description < x.description then e :: x :: rest
    else if x.description < e.description then x :: insert e rest
    else x :: rest

/-- Expectations in the order of their descriptions, each once. -/
def ordered (es : List Expectation) : List Expectation := es.foldr insert []

theorem mem_insert {e x : Expectation} {es : List Expectation} (h : x ∈ insert e es) : x = e ∨ x ∈ es := by
  induction es with
  | nil => exact List.mem_cons.1 h
  | cons y rest ih =>
    unfold insert at h
    split at h
    · exact List.mem_cons.1 h
    · split at h
      · rcases List.mem_cons.1 h with rfl | h
        · exact .inr (.head _)
        · exact (ih h).imp_right (.tail _)
      · exact .inr h

theorem exists_mem_insert (e : Expectation) (es : List Expectation) :
    ∃ x ∈ insert e es, x.description = e.description := by
  induction es with
  | nil => exact ⟨e, .head _, rfl⟩
  | cons y rest ih =>
    unfold insert
    split
    · exact ⟨e, .head _, rfl⟩
    · split
      · obtain ⟨x, hx, h⟩ := ih
        exact ⟨x, .tail _ hx, h⟩
      · next h₁ h₂ => exact ⟨y, .head _, String.le_antisymm (String.not_lt.1 h₁) (String.not_lt.1 h₂)⟩

theorem mem_insert_of_mem {e x : Expectation} {es : List Expectation} (h : x ∈ es) : x ∈ insert e es := by
  induction h with
  | head rest =>
    unfold insert
    split
    · exact .tail _ (.head _)
    · split <;> exact .head _
  | tail y h ih =>
    unfold insert
    split
    · exact .tail _ (.tail _ h)
    · split
      · exact .tail _ ih
      · exact .tail _ h

theorem pairwise_insert (e : Expectation) {es : List Expectation}
    (h : es.Pairwise (·.description < ·.description)) : (insert e es).Pairwise (·.description < ·.description) := by
  induction h with
  | nil => exact List.pairwise_singleton _ _
  | @cons y rest hy hrest ih =>
    unfold insert
    split
    · next h =>
      refine .cons (fun x hx => ?_) (.cons hy hrest)
      rcases List.mem_cons.1 hx with rfl | hx
      · exact h
      · exact String.lt_trans h (hy x hx)
    · split
      · next h =>
        refine .cons (fun x hx => ?_) ih
        rcases mem_insert hx with rfl | hx
        · exact h
        · exact hy x hx
      · exact .cons hy hrest

/-- Expectations in order are shown in strictly increasing order. -/
theorem pairwise_ordered (es : List Expectation) : (ordered es).Pairwise (·.description < ·.description) := by
  induction es with
  | nil => exact .nil
  | cons e es ih => exact pairwise_insert e ih

theorem mem_of_mem_ordered {x : Expectation} {es : List Expectation} (h : x ∈ ordered es) : x ∈ es := by
  induction es with
  | nil => exact h
  | cons e es ih =>
    rcases mem_insert h with rfl | h
    · exact .head _
    · exact .tail _ (ih h)

/-- Whatever is put in order is shown. -/
theorem exists_mem_ordered {x : Expectation} {es : List Expectation} (h : x ∈ es) :
    ∃ y ∈ ordered es, y.description = x.description := by
  induction h with
  | head es => exact exists_mem_insert x (ordered es)
  | tail e h ih =>
    obtain ⟨y, hy, heq⟩ := ih
    exact ⟨y, mem_insert_of_mem hy, heq⟩

/-- A list of expectations in words. -/
def describe (es : List Expectation) : String :=
  match es.map description with
  | [] => "nothing"
  | [only] => only
  | [first, second] => first ++ " or " ++ second
  | many => ", ".intercalate many.dropLast ++ ", or " ++ many.getLastD ""

end Expectation

/-- A place in a text. -/
structure Position where
  /-- Bytes of UTF-8 before it. -/
  offset : Nat
  /-- Line, from 1. -/
  line : Nat
  /-- Characters before it on its line, plus 1. -/
  column : Nat
  deriving DecidableEq, Repr

/-- How many bytes characters take in UTF-8. -/
def byteLength : List Char → Nat
  | [] => 0
  | c :: rest => c.utf8Size + byteLength rest

/-- The place behind the characters `before`. -/
def Position.after (before : List Char) : Position where
  offset := byteLength before
  line := before.count '\n' + 1
  column := (before.reverse.takeWhile (· != '\n')).length + 1

/-- The first place of a text. -/
def Position.first : Position := ⟨0, 1, 1⟩

/-- The place behind one character more: a line feed starts a line, any other character takes a column. -/
def Position.next (p : Position) (c : Char) : Position where
  offset := p.offset + c.utf8Size
  line := if c = '\n' then p.line + 1 else p.line
  column := if c = '\n' then 1 else p.column + 1

theorem byteLength_append (cs ds : List Char) : byteLength (cs ++ ds) = byteLength cs + byteLength ds := by
  induction cs with
  | nil => simp [byteLength]
  | cons c cs ih => simp [byteLength, ih, Nat.add_assoc]

theorem byteLength_eq (cs : List Char) : byteLength cs = (String.ofList cs).utf8ByteSize := by
  induction cs with
  | nil => simp [byteLength]
  | cons c cs ih =>
    rw [byteLength, ih, String.ofList_cons, String.utf8ByteSize_append, String.utf8ByteSize_singleton]

/-- The bytes of a text are those of its characters. -/
theorem byteLength_toList (s : String) : byteLength s.toList = s.utf8ByteSize := by
  rw [byteLength_eq, String.ofList_toList]

/-- The offset of the place behind a text is the size of the text. -/
theorem Position.offset_after (before : List Char) :
    (Position.after before).offset = (String.ofList before).utf8ByteSize := byteLength_eq before

theorem Position.after_concat (before : List Char) (c : Char) :
    Position.after (before ++ [c]) = (Position.after before).next c := by
  by_cases h : c = '\n' <;> simp [Position.after, Position.next, byteLength_append, byteLength, h]

/-- The place behind a text is reached by walking over it. -/
theorem Position.after_append (before cs : List Char) :
    Position.after (before ++ cs) = cs.foldl Position.next (Position.after before) := by
  induction cs generalizing before with
  | nil => rw [List.append_nil]; rfl
  | cons c cs ih => rw [List.append_cons, ih, Position.after_concat]; rfl

/-- Why a text is no filter. -/
inductive SyntaxProblem where
  | unexpected (expected : List Expectation)
  | nestedTooDeep
  deriving DecidableEq, Repr

/-- Why and where a text is no filter. -/
structure SyntaxError where
  problem : SyntaxProblem
  /-- The character at the place of the error, if the text does not end there. -/
  found : Option Char
  start : Position
  stop : Position
  deriving DecidableEq, Repr

namespace SyntaxError

/-- The error in `input` before its character number `index`. -/
def locate (problem : SyntaxProblem) (input : List Char) (index : Nat) : SyntaxError where
  problem := problem
  found := (input.drop index).head?
  start := Position.after (input.take index)
  stop := Position.after (input.take (index + 1))

/-- What could have stood at the place of the error. -/
def expected (e : SyntaxError) : List Expectation :=
  match e.problem with
  | .unexpected expected => expected
  | .nestedTooDeep => []

/-- The character found, quoted. -/
def foundText (e : SyntaxError) : String :=
  match e.found with
  | some c => Text.quote (String.singleton c)
  | none => "end of input"

/-- The message without its place. -/
def detail (e : SyntaxError) : String :=
  match e.problem with
  | .unexpected expected => "Expected " ++ Expectation.describe expected ++ " but " ++ e.foundText ++ " found."
  | .nestedTooDeep => "Filter nests deeper than " ++ toString nestingLimit ++ " levels."

/-- The whole message. -/
def message (e : SyntaxError) : String :=
  "Syntax error at " ++ toString e.start.line ++ ":" ++ toString e.start.column ++ ": " ++ e.detail

end SyntaxError

end SearchFilter
