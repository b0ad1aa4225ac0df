import SearchFilter.Yaml.Layout
import SearchFilter.Yaml.Node

/-!
# Reading YAML text

The tokens of a text are read as one document. A node that was given a name may be used again by that name. Keys of
mappings are scalars, each given once.

The readers of nodes take fuel, which `Node.ofTokens?` computes from the number of tokens: between two tokens that are
taken there are fewer than four calls.

* `Node.ofTokens?` — the node of the tokens of a text.
* `Node.ofText?` — the node of a text.
-/

namespace SearchFilter.Yaml

/-- What is left of a document, and the nodes that were given names in it. -/
structure Source where
  tokens : List Token
  /-- The nodes with names, newest first; null stands for one that is still being read. -/
  named : List (String × Node) := []
  /-- The directive in force. -/
  directive : Option Directive := none
  deriving Repr

/-- A reader of a part of a document. -/
abbrev Reading := StateT Source Option

/-- Where a node stands. -/
inductive Site where
  /-- Inside brackets, where no block may start. -/
  | brackets
  | block
  /-- In a block, behind the sign of a key or value; the items of a sequence may stand at the column of the key. -/
  | member
  deriving DecidableEq, Repr

namespace Reading

/-! ## Tokens -/

/-- Whether one of the tokens `ts` comes next. -/
def atAny (ts : List Token) : Reading Bool := return (← get).tokens.head?.any fun t => ts.contains t

/-- Pass over the next token. -/
def skip : Reading Unit := modify fun s => { s with tokens := s.tokens.tail }

/-- Pass over the next token if it is `t`. -/
def skips (t : Token) : Reading Bool := do
  if ← atAny [t] then skip *> return true else return false

/-- The next token has to be `t`. -/
def expect (t : Token) : Reading Unit := do
  if ← skips t then return () else failure

/-! ## Names and tags -/

/-- The name of a node, if one comes next. -/
def name? : Reading (Option String) := do
  match (← get).tokens with
  | .name name :: _ => skip *> return some name
  | _ => return none

/-- The tag of a node, if one comes next. -/
def tag? : Reading (Option Tag) := do
  let s ← get
  match s.tokens with
  | .tag tag :: _ =>
    match tag.resolve? s.directive with
    | some tag => skip *> return some tag
    | none => failure
  | _ => return none

/-- The name and the tag in front of a node, in either order. -/
def properties : Reading (Option String × Option Tag) := do
  match ← name? with
  | some name => return (some name, ← tag?)
  | none =>
    let tag ← tag?
    return (← name?, tag)

/-- Read a node that is given a name. -/
def withName (name : Option String) (read : Reading Node) : Reading Node := do
  match name with
  | none => read
  | some name =>
    let count := (← get).named.length
    modify fun s => { s with named := (name, .scalar .null) :: s.named }
    let node ← read
    modify fun s => { s with named := s.named.set (s.named.length - 1 - count) (name, node) }
    return node

/-- The node with a name. -/
def ofName (name : String) : Reading Node := do
  match (← get).named.lookup name with
  | some node => return node
  | none => failure

/-! ## Nodes -/

/-- A node, unless one of the tokens `ts` comes next, which end an empty one. -/
def orNull (ts : List Token) (read : Reading Node) : Reading Node := do
  if ← atAny ts then return .scalar .null else read

/-- A key of a mapping. -/
def key (read : Reading Node) : Reading Scalar := do
  match ← read with
  | .scalar s => return s
  | _ => failure

/-- The mapping of members, unless a key is given twice. -/
def mapping (members : List (Scalar × Node)) : Reading Node :=
  if (members.map (·.1)).Nodup then return .mapping members else failure

mutual

/-- A node. -/
def node (site : Site) : Nat → Reading Node
  | 0 => failure
  | fuel + 1 => do
    match (← get).tokens with
    | .alias name :: _ => skip *> ofName name
    | _ =>
      let (name, tag) ← properties
      withName name (content site (name.isSome || tag.isSome) tag fuel)

/-- A node behind its name and tag; `mayBeEmpty` if it has one. -/
def content (site : Site) (mayBeEmpty : Bool) (tag : Option Tag) : Nat → Reading Node
  | 0 => failure
  | fuel + 1 => do
    match (← get).tokens.head?, site with
    | some (.scalar isPlain text), _ => skip *> return .scalar (.ofText tag isPlain text)
    | some .bracketOpen, _ => skip *> .sequence <$> bracketItems true fuel
    | some .braceOpen, _ => do mapping (← skip *> braceMembers true fuel)
    | some .hyphen, .member => .sequence <$> hyphenItems fuel
    | some .sequenceStart, .block | some .sequenceStart, .member => skip *> .sequence <$> blockItems fuel
    | some .mappingStart, .block | some .mappingStart, .member => do mapping (← skip *> blockMembers fuel)
    | _, _ => if mayBeEmpty then return .scalar (.ofText tag true "") else failure

/-- The items of a sequence in brackets; `first` unless one was read. A key makes a mapping of one member. -/
def bracketItems (first : Bool) : Nat → Reading (List Node)
  | 0 => failure
  | fuel + 1 => do
    if ← skips .bracketClose then return []
    if !first then expect .comma
    if ← skips .bracketClose then return []
    let item ←
      if ← skips .key then do
        let key ← key (node .brackets fuel)
        mapping [(key, ← bracketValue .bracketClose fuel)]
      else node .brackets fuel
    return item :: (← bracketItems false fuel)

/-- The members of a mapping in braces; `first` unless one was read. A node without a colon is a key of null. -/
def braceMembers (first : Bool) : Nat → Reading (List (Scalar × Node))
  | 0 => failure
  | fuel + 1 => do
    if ← skips .braceClose then return []
    if !first then expect .comma
    if ← skips .braceClose then return []
    let isKey ← skips .key
    let key ← key (node .brackets fuel)
    let value ← if isKey then bracketValue .braceClose fuel else pure (.scalar .null)
    return (key, value) :: (← braceMembers false fuel)

/-- The value of a key in brackets that end with `close`; null if there is none. -/
def bracketValue (close : Token) : Nat → Reading Node
  | 0 => failure
  | fuel + 1 => do
    if ← skips .colon then orNull [.comma, close] (node .brackets fuel) else pure (.scalar .null)

/-- The items of a sequence at the column of its key. -/
def hyphenItems : Nat → Reading (List Node)
  | 0 => failure
  | fuel + 1 => do
    if ← skips .hyphen then
      let item ← orNull [.hyphen, .key, .colon, .blockEnd] (node .block fuel)
      return item :: (← hyphenItems fuel)
    else return []

/-- The items of a sequence that is a block of its own. -/
def blockItems : Nat → Reading (List Node)
  | 0 => failure
  | fuel + 1 => do
    if ← skips .blockEnd then return []
    expect .hyphen
    let item ← orNull [.hyphen, .blockEnd] (node .block fuel)
    return item :: (← blockItems fuel)

/-- The members of a mapping that is a block. -/
def blockMembers : Nat → Reading (List (Scalar × Node))
  | 0 => failure
  | fuel + 1 => do
    if ← skips .blockEnd then return []
    expect .key
    let key ← key (node .member fuel)
    let value ←
      if ← skips .colon then orNull [.key, .colon, .blockEnd] (node .member fuel) else pure (.scalar .null)
    return (key, value) :: (← blockMembers fuel)

end

end Reading

/-! ## Documents -/

namespace Token

def directive? : Token → Option Directive
  | directive d => some d
  | _ => none

/-- The tokens that stand between documents. -/
def isBetweenDocuments (t : Token) : Bool := t = documentStart || t = documentEnd || t.directive?.isSome

end Token

namespace Node

/-- The node of a document behind its start, and what follows; null if there is none. -/
def ofBody? (directive : Option Directive) (tokens : List Token) : Option (Node × List Token) :=
  if tokens.head?.all Token.isBetweenDocuments then some (.scalar .null, tokens)
  else
    let fuel := 4 * tokens.length + 4
    ((Reading.node .block fuel).run { tokens := tokens, directive := directive }).map fun (node, s) => (node, s.tokens)

/-- The node of the tokens of a text, which may hold only one document; null if it holds none. -/
def ofTokens? (tokens : List Token) : Option Node := do
  let tokens := tokens.dropWhile (· = .documentEnd)
  let directives := tokens.takeWhile (·.directive?.isSome)
  let body ←
    match tokens.drop directives.length with
    | .documentStart :: body => some body
    | body => if directives.isEmpty then some body else none
  if 1 < directives.count (.directive .version) then none
  let (node, rest) ← ofBody? (directives.getLast?.bind (·.directive?)) body
  if rest.all (· = .documentEnd) then return node else none

/-- The node of a text; null if it holds no document, and none if it is malformed or holds several documents. -/
def ofText? (text : String) : Option Node := (Token.ofText? text).bind ofTokens?

end Node

end SearchFilter.Yaml
