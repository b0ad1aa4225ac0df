import SearchFilter.Request
import SearchFilter.Settings

/-!
# Options of the command line

Arguments are read from left to right. An option that takes a value is held back until the next known argument or the
end: only then is a missing, repeated or unfit value found out. An argument that is not known is refused at once, so it
is what is reported even if a value before it is unfit.

* `Options.parse` — the options that the arguments set, or what is wrong with them.
* `Options.request`, `Options.settings` — the request and the output settings that they ask for.
-/

namespace SearchFilter

/-- What the arguments of the command line set. -/
structure Options where
  /-- Free text. -/
  query : List String := []
  filters : List String := []
  /-- The file of a batch. -/
  requests : Option String := none
  format : Option Format := none
  token : Bool := false
  flatten : Bool := false
  /-- Show the tree of the filters instead of their query. -/
  outline : Bool := false
  /-- The file to write to. -/
  output : Option String := none
  threads : Option Nat := none
  verbose : Bool := false
  deriving DecidableEq, Repr

/-- The arguments that are known. -/
inductive Flag where
  | query
  | filters
  | requests
  | format
  | token
  | flatten
  | outline
  | output
  | threads
  | verbose
  | help
  | version
  deriving DecidableEq, Repr

namespace Flag

def all : List Flag :=
  [query, filters, requests, format, token, flatten, outline, output, threads, verbose, help, version]

/-- The name behind two hyphens. -/
def long : Flag → String
  | query => "query"
  | filters => "filters"
  | requests => "requests"
  | format => "format"
  | token => "token"
  | flatten => "flatten"
  | outline => "cst"
  | output => "output"
  | threads => "threads"
  | verbose => "verbose"
  | help => "help"
  | version => "version"

/-- The letter behind one hyphen. -/
def short? : Flag → Option Char
  | query => some 'q'
  | filters => some 'f'
  | requests => some 'r'
  | output => some 'o'
  | threads => some 't'
  | verbose => some 'v'
  | help => some 'h'
  | version => some 'V'
  | format | token | flatten | outline => none

def takesValue : Flag → Bool
  | query | filters | requests | format | output | threads => true
  | token | flatten | outline | verbose | help | version => false

/-- Whether it may be given more than once. -/
def isRepeatable (flag : Flag) : Bool := flag = query || flag = filters

def ofLong? (name : String) : Option Flag := all.find? (·.long = name)

def ofShort? (letter : Char) : Option Flag := all.find? (·.short? = some letter)

end Flag

/-- What is wrong with the arguments, or what they ask for instead of a run. -/
inductive UsageError where
  | unknownArgument (argument : String)
  | missingValue (flag : Flag)
  | emptyPath (flag : Flag)
  | unknownFormat (name : String)
  | invalidNumber (text : String)
  | repeated (flag : Flag)
  /-- Options that cannot be given together. -/
  | conflict
  /-- A value attached to a switch. -/
  | unexpectedValue (flag : Flag)
  | help
  | version
  deriving DecidableEq, Repr

namespace Options

/-- The largest number of threads that can be asked for. -/
def maxThreads : Nat := 18446744073709551615

/-- A number of threads: digits, with at most one plus sign before them. -/
def threads? (s : String) : Option Nat :=
  let digits :=
    match s.toList with
    | '+' :: rest => rest
    | cs => cs
  let value := Nat.ofDigitChars 10 digits 0
  if digits ≠ [] ∧ digits.all Char.isDigit ∧ value ≤ maxThreads then some value else none

/-- Set an option to a value. -/
def setValue (o : Options) (flag : Flag) (value : String) : Except UsageError Options :=
  match flag with
  | .query => .ok { o with query := o.query ++ [value] }
  | .filters => .ok { o with filters := o.filters ++ [value] }
  | .requests => if value = "" then .error (.emptyPath flag) else .ok { o with requests := some value }
  | .output => if value = "" then .error (.emptyPath flag) else .ok { o with output := some value }
  | .format =>
    match Format.ofName? value with
    | some format => .ok { o with format := some format }
    | none => .error (.unknownFormat value)
  | .threads =>
    match threads? value with
    | some n => .ok { o with threads := some n }
    | none => .error (.invalidNumber value)
  | _ => .ok o

/-- Turn a switch on. -/
def setSwitch (o : Options) : Flag → Except UsageError Options
  | .token => .ok { o with token := true }
  | .flatten => .ok { o with flatten := true }
  | .outline => .ok { o with outline := true }
  | .verbose => .ok { o with verbose := true }
  | .help => .error .help
  | .version => .error .version
  | _ => .ok o

/-- Whether options are set that cannot be given together. -/
def conflicts (o : Options) : Bool :=
  (o.requests.isSome && (o.query ≠ [] || o.filters ≠ [] || o.outline)) || (o.outline && (o.token || o.flatten))

/-! ## Reading arguments -/

/-- Arguments read so far. -/
structure Progress where
  options : Options := {}
  /-- The flags that are set. -/
  seen : List Flag := []
  /-- An option held back, with its value if that was read. -/
  pending : Option (Flag × Option String) := none

namespace Progress

/-- Note a flag as set, unless it is set already and may not be repeated. -/
def mark (p : Progress) (flag : Flag) : Except UsageError Progress :=
  if !flag.isRepeatable && p.seen.contains flag then .error (.repeated flag)
  else .ok { p with seen := flag :: p.seen }

/-- Set the option that is held back. -/
def settle (p : Progress) : Except UsageError Progress :=
  match p.pending with
  | none => .ok p
  | some (flag, none) => .error (.missingValue flag)
  | some (flag, some value) => do
    let p ← p.mark flag
    return { p with options := ← p.options.setValue flag value, pending := none }

/-- Hold an option back, with its value if that is known. -/
def hold (p : Progress) (flag : Flag) (value : Option String) : Except UsageError Progress := do
  return { ← p.settle with pending := some (flag, value) }

/-- Turn a switch on. -/
def switch (p : Progress) (flag : Flag) : Except UsageError Progress := do
  let p ← p.settle
  let options ← p.options.setSwitch flag
  return { ← p.mark flag with options := options }

/-- The name of a long argument and the value attached to it. -/
def splitLong (cs : List Char) : String × Option String :=
  let name := cs.takeWhile (· != '=')
  match cs.drop name.length with
  | [] => (String.ofList name, none)
  | _ :: value => (String.ofList name, some (String.ofList value))

/-- Read an argument behind its two hyphens. -/
def readLong (p : Progress) (cs : List Char) : Except UsageError Progress :=
  let (name, value) := splitLong cs
  match Flag.ofLong? name with
  | none => .error (.unknownArgument ("--" ++ name))
  | some flag =>
    if flag.takesValue then p.hold flag value
    else if value.isSome then .error (.unexpectedValue flag)
    else p.switch flag

/-- The value behind the letter of an option, with or without an equals sign between. -/
def attached? : List Char → Option String
  | [] => none
  | '=' :: value => some (String.ofList value)
  | value => some (String.ofList value)

/-- Read the letters of an argument behind its hyphen. -/
def readShort (p : Progress) : List Char → Except UsageError Progress
  | [] => .ok p
  | letter :: rest =>
    match Flag.ofShort? letter with
    | none => .error (.unknownArgument (String.ofList ['-', letter]))
    | some flag =>
      if flag.takesValue then p.hold flag (attached? rest)
      else
        match p.switch flag with
        | .ok p => p.readShort rest
        | .error e => .error e

/-- Read one argument. -/
def read (p : Progress) (argument : String) : Except UsageError Progress :=
  match argument.toList with
  | '-' :: '-' :: name => p.readLong name
  | '-' :: letter :: letters => p.readShort (letter :: letters)
  | _ =>
    match p.pending with
    | some (flag, none) => .ok { p with pending := some (flag, some argument) }
    | _ => .error (.unknownArgument argument)

/-- Read all arguments. Behind `--` nothing may follow. -/
def readAll (p : Progress) : List String → Except UsageError Progress
  | [] => p.settle
  | ["--"] => p.settle
  | "--" :: argument :: _ => .error (.unknownArgument argument)
  | argument :: rest =>
    match p.read argument with
    | .ok p => p.readAll rest
    | .error e => .error e

end Progress

/-- The options that arguments set. -/
def parse (arguments : List String) : Except UsageError Options := do
  let p ← Progress.readAll {} arguments
  if p.options.conflicts then .error .conflict else .ok p.options

/-! ## What options ask for -/

/-- The request of the arguments. -/
def request (o : Options) : Request := ⟨Terms.ofList? o.query, Terms.ofList? o.filters⟩

/-- The output settings of the arguments, with `fallback` where they say nothing. -/
def settings (o : Options) (fallback : OutputSettings) : OutputSettings where
  format := o.format.or fallback.format
  token := o.token || fallback.token
  flatten := o.flatten || fallback.flatten

end Options

end SearchFilter
