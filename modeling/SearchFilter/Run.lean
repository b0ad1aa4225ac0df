import SearchFilter.BatchFile
import SearchFilter.Filter.Outline
import SearchFilter.Options

/-!
# Runs of the command

A run compiles the request of the arguments, or shows the tree of its filters, or compiles a batch. It is a function
from the options and the text of the batch file to what is written and what went wrong; reading and writing files is
left to the command line.

* `Options.outcome` — the outcome of a run.
* `RunError.causes` — what went wrong, in words, the outermost cause first.
-/

namespace SearchFilter

/-- Why a run fails. -/
inductive RunError where
  | compile (error : QueryError)
  | parse (error : SyntaxError)
  /-- There is no filter to show. -/
  | noFilters
  /-- The batch file cannot be read, or holds no batch. -/
  | load (path : String)
  | batch (failed total : Nat)
  deriving DecidableEq, Repr

/-- What went wrong, the outermost cause first. -/
def RunError.causes : RunError → List String
  | compile e => ["Compile: Failed to compile request", e.message]
  | parse e => ["Parse: Failed to parse filters", e.message]
  | noFilters => ["CLI: --cst needs at least one --filters value"]
  | load path => ["Config: Failed to load requests from " ++ Text.quote path]
  | batch failed total => ["Batch: " ++ toString failed ++ " of " ++ toString total ++ " requests failed"]

/-- What a run writes, if it comes to that, and why it fails, if it does. -/
structure Outcome where
  written : Option String := none
  failure : Option RunError := none
  deriving DecidableEq, Repr

namespace Outcome

def success (text : String) : Outcome := ⟨some text, none⟩

def failed (e : RunError) : Outcome := ⟨none, some e⟩

end Outcome

namespace Options

/-- The request of the arguments, compiled. -/
def requestOutcome (o : Options) : Outcome :=
  let settings := o.settings {}
  match o.request.toQueryWith settings.flatten with
  | .ok q => .success (settings.encode (settings.document q))
  | .error e => .failed (.compile e)

/-- The tree of the filters. -/
def outlineOutcome (o : Options) : Outcome :=
  match o.request.filters with
  | none => .failed .noFilters
  | some filters =>
    match Filter.parse filters.toFilter with
    | .ok f => .success (f.outline ++ "\n")
    | .error e => .failed (.parse e)

end Options

/-- A compiled request in the document of a batch, unless it failed. -/
def CompiledRequest.member? (settings : OutputSettings) (c : CompiledRequest) : Option (String × Document) :=
  match c.result with
  | .ok q => some (c.name, settings.document q)
  | .error _ => none

/-- Whether a request failed. -/
def CompiledRequest.hasFailed (c : CompiledRequest) : Bool := !c.result.isOk

namespace Options

/-- A batch, compiled. What compiles is written even if some requests fail. -/
def batchOutcome (o : Options) (file : BatchFile) : Outcome :=
  let settings := o.settings file.output
  let compiled := file.batch.compile settings.flatten
  let failed := compiled.countP (·.hasFailed)
  { written := some (settings.encode (.object (compiled.filterMap (·.member? settings))))
    failure := if failed = 0 then none else some (.batch failed compiled.length) }

/-- The outcome of a run, given the text of the batch file if there is one that can be read. The path of the file is for
the message alone: its ending does not matter, and every batch file is read as YAML. -/
def outcome (o : Options) (batchText : Option String) : Outcome :=
  match o.requests with
  | some path =>
    match batchText.bind BatchFile.ofText? with
    | some file => o.batchOutcome file
    | none => .failed (.load path)
  | none => if o.outline then o.outlineOutcome else o.requestOutcome

end Options

end SearchFilter
