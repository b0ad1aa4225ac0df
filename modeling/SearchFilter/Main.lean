import SearchFilter.Run

/-!
# The command

Reads the batch file if one is named, runs, and writes the outcome to the output file or to standard output.
-/

namespace SearchFilter

/-- How the command is used. -/
def usage : String :=
  "Usage: search-filter [-q TEXT]... [-f FILTER]... [-r FILE] [--format json|yaml] [--token] [--flatten] [--cst]\n" ++
  "                     [-o FILE] [-t NUMBER] [-v]"

/-- What is wrong with the arguments, in words. -/
def UsageError.message : UsageError → String
  | unknownArgument argument => "unexpected argument '" ++ argument ++ "'"
  | missingValue flag => "a value is required for '--" ++ flag.long ++ "'"
  | emptyPath flag => "the path of '--" ++ flag.long ++ "' is empty"
  | unknownFormat name => "the format '" ++ name ++ "' is neither json nor yaml"
  | invalidNumber text => "'" ++ text ++ "' is no number of threads"
  | repeated flag => "'--" ++ flag.long ++ "' is given more than once"
  | conflict => "--requests excludes --query, --filters and --cst, and --cst excludes --token and --flatten"
  | unexpectedValue flag => "'--" ++ flag.long ++ "' takes no value"
  | help => usage
  | version => "search-filter"

/-- The text of a file, unless it cannot be read. -/
def readText? (path : String) : IO (Option String) := do
  try return some (← IO.FS.readFile path) catch _ => return none

/-- Write a text to the file that is named, or to standard output. -/
def writeText (path : Option String) (text : String) : IO Unit :=
  match path with
  | none | some "-" => IO.print text
  | some path => IO.FS.writeFile path text

/-- Run the command with parsed options. -/
def execute (o : Options) : IO UInt32 := do
  let batchText ← match o.requests with
    | some path => readText? path
    | none => pure none
  let outcome := o.outcome batchText
  match outcome.written with
  | some text => writeText o.output text
  | none => pure ()
  match outcome.failure with
  | none => return 0
  | some e =>
    IO.eprintln ("Error: " ++ "\nCaused by: ".intercalate e.causes)
    return 1

end SearchFilter

open SearchFilter in
def main (arguments : List String) : IO UInt32 := do
  match Options.parse arguments with
  | .ok o => execute o
  | .error .help => IO.println UsageError.help.message; return 0
  | .error .version => IO.println UsageError.version.message; return 0
  | .error e =>
    IO.eprintln ("error: " ++ e.message ++ "\n\n" ++ usage)
    return 2
