import SearchFilter.Yaml.Property

/-!
# Tokens of a YAML text

A text is read as a sequence of tokens. Besides signs and scalars there are tokens that no character stands for: where a
block starts or ends, and in front of a key.
-/

namespace SearchFilter.Yaml

inductive Token where
  | directive (directive : Directive)
  /-- Three hyphens. -/
  | documentStart
  /-- Three points. -/
  | documentEnd
  /-- In front of the first hyphen of a sequence that is a block. -/
  | sequenceStart
  /-- In front of the first key of a mapping that is a block. -/
  | mappingStart
  | blockEnd
  | bracketOpen
  | bracketClose
  /-- A brace, or a mapping of one member that has none. -/
  | braceOpen
  | braceClose
  | comma
  /-- In front of an item of a block. -/
  | hyphen
  /-- In front of a key. -/
  | key
  /-- In front of a value. -/
  | colon
  | alias (name : String)
  | name (name : String)
  | tag (tag : Tag)
  /-- A scalar; `isPlain` unless it is quoted or a block. -/
  | scalar (isPlain : Bool) (text : String)
  deriving DecidableEq, Repr

end SearchFilter.Yaml
