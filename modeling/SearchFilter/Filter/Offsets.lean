import SearchFilter.Filter.Parser

/-!
# Reading at byte offsets

The reader of filters once more, as a machine that stands at a byte offset of the text and looks at the slice behind it.
Its offset and its depth are part of its state: a rule that fails leaves them where it stopped, and whoever tries
another rule has to put them back. Every slice must begin and end between two characters of the text and every loop must
come to its end; a reader that breaks this stops for good.

* `Offsets.cut`, `Offsets.isSome_cut_iff` — a text cut at a byte offset, which must be between two characters.
* `Offsets.Reader` — a step of the machine.
* `Offsets.locate` — an error at a byte offset.
* `Offsets.parse` — the filter that a text stands for, or the error, or a fault of the machine.
-/

namespace SearchFilter.Offsets

/-! ## Slices -/

/-- What must not happen while a text is read. -/
inductive Fault where
  /-- A slice at a byte offset that is not between two characters of the text, or behind its end. -/
  | slice (offset : Nat)
  /-- A loop or a recursion that goes on for longer than it was given. -/
  | unfinished
  deriving DecidableEq, Repr

/-- A text cut behind its first `offset` bytes, if these are whole characters. -/
def cut (offset : Nat) : List Char → Option (List Char × List Char)
  | [] => if offset = 0 then some ([], []) else none
  | c :: cs =>
    if offset = 0 then some ([], c :: cs)
    else if c.utf8Size ≤ offset then (cut (offset - c.utf8Size) cs).map fun (u, v) => (c :: u, v)
    else none

/-- The text in front of a byte offset. -/
def before (offset : Nat) (text : List Char) : Except Fault (List Char) :=
  match cut offset text with
  | some (u, _) => .ok u
  | none => .error (.slice offset)

/-- The text behind a byte offset. -/
def behind (offset : Nat) (text : List Char) : Except Fault (List Char) :=
  match cut offset text with
  | some (_, v) => .ok v
  | none => .error (.slice offset)

variable {text u v : List Char} {n : Nat}

theorem cut_append (u v : List Char) : cut (byteLength u) (u ++ v) = some (u, v) := by
  induction u with
  | nil => cases v <;> rfl
  | cons c u ih =>
    have hpos := c.utf8Size_pos
    have hne : c.utf8Size + byteLength u ≠ 0 := by omega
    rw [List.cons_append, byteLength, cut, if_neg hne, if_pos (by omega), Nat.add_sub_cancel_left, ih]
    rfl

theorem append_of_cut (h : cut n text = some (u, v)) : text = u ++ v ∧ byteLength u = n := by
  induction text generalizing n u with
  | nil =>
    rw [cut] at h
    split at h
    · cases h
      exact ⟨rfl, by simp [byteLength, *]⟩
    · cases h
  | cons c cs ih =>
    rw [cut] at h
    split at h
    · cases h
      exact ⟨rfl, by simp [byteLength, *]⟩
    · split at h
      · obtain ⟨⟨u', v'⟩, hcut, hp⟩ := Option.map_eq_some_iff.1 h
        cases hp
        obtain ⟨rfl, hlen⟩ := ih hcut
        exact ⟨rfl, by rw [byteLength]; omega⟩
      · cases h

/-- A text can be cut exactly between its characters. -/
theorem isSome_cut_iff {s : String} : (cut n s.toList).isSome ↔ String.Pos.Raw.IsValid s ⟨n⟩ := by
  rw [String.Pos.Raw.isValid_iff_exists_append, Option.isSome_iff_exists]
  constructor
  · rintro ⟨⟨u, v⟩, h⟩
    obtain ⟨hs, hn⟩ := append_of_cut h
    refine ⟨String.ofList u, String.ofList v, ?_, ?_⟩
    · rw [← String.ofList_append, ← hs, String.ofList_toList]
    · rw [← hn, ← String.toList_ofList (l := u), byteLength_toList, String.toList_ofList]
      rfl
  · rintro ⟨s₁, s₂, rfl, h⟩
    have hn : n = byteLength s₁.toList := by
      rw [byteLength_toList]
      exact congrArg String.Pos.Raw.byteIdx h
    exact ⟨_, by rw [hn, String.toList_append, cut_append]⟩

/-! ## The machine -/

/-- Where the machine stands, and what it remembers. -/
structure State where
  offset : Nat := 0
  /-- The furthest offset at which something was missing. -/
  furthest : Nat := 0
  /-- What was missing there, newest first. -/
  expected : List Expectation := []
  /-- For every offset where an expression was tried: what it gave, and where it ended. -/
  known : Std.HashMap Nat (Option (Filter × Nat)) := ∅
  /-- The number of statements around. -/
  depth : Nat := 0
  /-- The first offset at which a statement passed the nesting limit. -/
  overflow : Option Nat := none

/-- Note that `e` is missing here; only the furthest such place counts. -/
def State.miss (s : State) (e : Expectation) : State :=
  if s.offset < s.furthest then s
  else if s.furthest < s.offset then { s with furthest := s.offset, expected := [e] }
  else { s with expected := e :: s.expected }

/-- A step of the machine: it gives an `α` or fails, and goes on in another state. -/
def Reader (α : Type) := State → Except Fault (Option α × State)

namespace Reader

variable {α β : Type}

def pure (a : α) : Reader α := fun s => .ok (some a, s)

def bind (x : Reader α) (f : α → Reader β) : Reader β := fun s =>
  match x s with
  | .ok (some a, s) => f a s
  | .ok (none, s) => .ok (none, s)
  | .error e => .error e

/-- The first step, or the second where the first one stopped. -/
def orElse (x : Reader α) (y : Unit → Reader α) : Reader α := fun s =>
  match x s with
  | .ok (none, s) => y () s
  | r => r

instance : Monad Reader where
  pure := pure
  bind := bind

instance : OrElse (Reader α) where
  orElse := orElse

/-- A step that goes back if it fails. -/
def attempt (x : Reader α) : Reader α := fun s =>
  match x s with
  | .ok (none, t) => .ok (none, { t with offset := s.offset })
  | r => r

/-- What a step gives, if it gives something. -/
def optional (x : Reader α) : Reader (Option α) := fun s =>
  match x s with
  | .ok (a, s) => .ok (some a, s)
  | .error e => .error e

/-- Where the machine stands. -/
def here : Reader Nat := fun s => .ok (some s.offset, s)

def seek (offset : Nat) : Reader Unit := fun s => .ok (some (), { s with offset := offset })

def unfinished : Reader α := fun _ => .error .unfinished

variable {x y : Reader α} {a : α} {s t : State}

theorem bind_apply (x : Reader α) (f : α → Reader β) (s : State) : (x >>= f) s = match x s with
    | .ok (some a, s) => f a s
    | .ok (none, s) => .ok (none, s)
    | .error e => .error e := rfl

theorem bind_of_some {f : α → Reader β} (h : x s = .ok (some a, t)) : (x >>= f) s = f a t := by
  rw [bind_apply, h]

theorem bind_of_none {f : α → Reader β} (h : x s = .ok (none, t)) : (x >>= f) s = .ok (none, t) := by
  rw [bind_apply, h]

theorem bind_of_error {f : α → Reader β} {e : Fault} (h : x s = .error e) : (x >>= f) s = .error e := by
  rw [bind_apply, h]

theorem orElse_apply (x y : Reader α) (s : State) : (x <|> y) s = match x s with
    | .ok (none, s) => y s
    | r => r := rfl

theorem orElse_of_some (h : x s = .ok (some a, t)) : (x <|> y) s = .ok (some a, t) := by
  rw [orElse_apply, h]

theorem orElse_of_none (h : x s = .ok (none, t)) : (x <|> y) s = y t := by
  rw [orElse_apply, h]

theorem orElse_of_error {e : Fault} (h : x s = .error e) : (x <|> y) s = .error e := by
  rw [orElse_apply, h]

theorem attempt_of_some (h : x s = .ok (some a, t)) : x.attempt s = .ok (some a, t) := by
  rw [attempt, h]

theorem attempt_of_none (h : x s = .ok (none, t)) : x.attempt s = .ok (none, { t with offset := s.offset }) := by
  rw [attempt, h]

theorem attempt_of_error {e : Fault} (h : x s = .error e) : x.attempt s = .error e := by
  rw [attempt, h]

end Reader

/-! ## Tokens -/

section

variable (text : List Char)

def token {α : Type} (kind : TokenClass) (scan : Token α) : Reader α := fun s =>
  match behind s.offset text with
  | .error e => .error e
  | .ok rest =>
    match scan rest with
    | some t => .ok (some t.value, { s with offset := byteLength text - byteLength (rest.drop t.length) })
    | none => .ok (none, s.miss (.token kind))

def literal (word : String) : Reader Unit := fun s =>
  match behind s.offset text with
  | .error e => .error e
  | .ok rest =>
    if word.toList.isPrefixOf rest then .ok (some (), { s with offset := s.offset + word.utf8ByteSize })
    else .ok (none, s.miss (.literal word))

/-- Spaces, as long as there are any. -/
def spaces : Nat → Reader Unit
  | 0 => .unfinished
  | fuel + 1 => do
    match ← (token text .space Token.spaces).optional with
    | some _ => spaces fuel
    | none => return ()

/-- A text has no more runs of spaces than characters. -/
def anySpaces : Reader Unit := spaces text (text.length + 1)

def someSpaces : Reader Unit := do
  let _ ← token text .space Token.spaces
  anySpaces text

/-! ## Values and comparisons -/

def value : Reader Literal :=
  (do return .number (← token text .number Token.number))
  <|> (do return .boolean (← token text .boolean Token.boolean))
  <|> (do let _ ← token text .null Token.null; return .null)
  <|> (do return .text (← token text .text Token.text))

def hasComparison : Reader Filter := do
  let field ← token text .word Token.word
  literal text Operator.has.symbol
  let v ← value text
  return .compare .has field (.literal v)

def comparison (op : Operator) : Reader Filter := do
  let field ← token text .word Token.word
  anySpaces text
  literal text op.symbol
  anySpaces text
  let v ← value text
  return .compare op field (.literal v)

/-! ## Statements -/

def group (inner : Reader Filter) : Reader Filter := do
  literal text "("
  anySpaces text
  let f ← inner
  anySpaces text
  literal text ")"
  return f

def negation (inner : Reader Filter) : Reader Filter := do
  literal text "NOT"
  someSpaces text
  let f ← inner
  return .not f

def alternatives (inner : Reader Filter) : Reader Filter :=
  (hasComparison text).attempt
  <|> (comparison text .greaterEq).attempt
  <|> (comparison text .greater).attempt
  <|> (comparison text .lessEq).attempt
  <|> (comparison text .less).attempt
  <|> (comparison text .equals).attempt
  <|> (group text inner).attempt

/-- An expression, read once at each offset and remembered. -/
def expression (inner : Reader Filter) : Reader Filter := fun s =>
  match s.known[s.offset]? with
  | some (some (f, stop)) => .ok (some f, { s with offset := stop })
  | some none => .ok (none, s)
  | none =>
    match alternatives text inner s with
    | .error e => .error e
    | .ok (result, t) =>
      .ok (result, { t with known := t.known.insert s.offset (result.map fun f => (f, t.offset)) })

def connective : Reader Connective := do
  someSpaces text
  let link ← (do literal text Connective.and.keyword; return Connective.and)
    <|> (do literal text Connective.or.keyword; return Connective.or)
  someSpaces text
  return link

/-- The rest of a chain. Where a connective leads to nothing the machine goes back in front of it. -/
def links (inner : Reader Filter) : Nat → Filter → List (Filter × Connective) → Reader Filter
  | 0, _, _ => .unfinished
  | fuel + 1, last, earlier => do
    let place ← Reader.here
    match ← (connective text).optional with
    | none => do
      Reader.seek place
      return Rule.joinAll last earlier
    | some link =>
      match ← (expression text inner).optional with
      | some operand => links inner fuel operand ((last, link) :: earlier)
      | none =>
        match ← (negation text inner).attempt.optional with
        | some operand => return Rule.joinAll operand ((last, link) :: earlier)
        | none => do
          Reader.seek place
          return Rule.joinAll last earlier

/-- A chain has no more connectives than the text has characters. -/
def chain (inner : Reader Filter) : Reader Filter := do
  let first ← expression text inner
  links text inner text.length first []

/-- A statement, one deeper than what is around it. -/
def statement : Nat → Reader Filter
  | 0 => .unfinished
  | calls + 1 => fun s =>
    if s.overflow.isSome then .ok (none, s)
    else if nestingLimit ≤ s.depth then .ok (none, { s with overflow := some s.offset })
    else
      match (chain text (statement calls) <|> (negation text (statement calls)).attempt)
          { s with depth := s.depth + 1 } with
      | .error e => .error e
      | .ok (result, t) => .ok (result, { t with depth := t.depth - 1 })

/-- Statements call each other no deeper than the limit, and once more to find that it is passed. -/
def start : Reader Filter := do
  anySpaces text
  let f ← statement text (nestingLimit + 1) <|> (group text (statement text (nestingLimit + 1))).attempt
  anySpaces text
  return f

end

/-! ## Errors -/

/-- The offset of the last line feed. -/
def lastLineFeed : List Char → Option Nat
  | [] => none
  | c :: cs =>
    match lastLineFeed cs with
    | some offset => some (c.utf8Size + offset)
    | none => if c = '\n' then some 0 else none

/-- The place at a byte offset: the line feeds before it are counted, and the characters behind the last one. -/
def position (text : List Char) (offset : Nat) : Except Fault Position := do
  let all ← before offset text
  let line ← behind ((lastLineFeed all).elim 0 (· + 1)) all
  return ⟨offset, all.count '\n' + 1, line.length + 1⟩

/-- The error at a byte offset, which extends over the character found there. -/
def locate (problem : SyntaxProblem) (text : List Char) (offset : Nat) : Except Fault SyntaxError := do
  let rest ← behind offset text
  let first ← position text offset
  let last ← position text (offset + rest.head?.elim 0 Char.utf8Size)
  return ⟨problem, rest.head?, first, last⟩

def State.error (s : State) (text : List Char) : Except Fault SyntaxError :=
  match s.overflow with
  | some offset => locate .nestedTooDeep text offset
  | none => locate (.unexpected (Expectation.ordered s.expected)) text s.furthest

/-! ## Filters -/

/-- Read a filter at byte offsets. -/
def parse (text : String) : Except Fault (Except SyntaxError Filter) := do
  let input := text.toList
  match ← start input {} with
  | (some f, s) =>
    if s.offset = text.utf8ByteSize ∧ s.overflow = none then return .ok f
    else return .error (← (s.miss .endOfInput).error input)
  | (none, s) => return .error (← s.error input)

end SearchFilter.Offsets
