import SearchFilter.Document.Path
import SearchFilter.Shape
import SearchFilter.Yaml.Reader

/-!
# Batch files

A batch file is a YAML text with the requests of a batch under `requests`, by name, and optionally output settings under
`output`. The keys of the text may be paths into them, such as `requests.a.query`. Switches may be written as numbers
and as the usual words for on and off, and items behind the fields of a request or of the settings do not matter.

* `BatchFile.ofText?` — the batch of a text.
-/

namespace SearchFilter

/-- A batch, and how its queries are written. -/
structure BatchFile where
  batch : Batch
  output : OutputSettings
  deriving DecidableEq, Repr

namespace BatchFile

/-- The words for on and off, in lower case. -/
def onWords : List String := ["1", "true", "on", "yes"]

def offWords : List String := ["0", "false", "off", "no"]

/-- A switch: a boolean, a number that is on unless it is zero, or one of the words in any case. -/
def switch? : Document → Option Bool
  | .boolean b => some b
  | .number mantissa exponent => some !(Text.Numeral.vanishes ⟨mantissa < 0, mantissa.natAbs, exponent⟩)
  | .string s =>
    if onWords.contains s.toLower then some true
    else if offWords.contains s.toLower then some false
    else none
  | _ => none

/-- A format by name, or as the only key of an object. -/
def format? : Document → Option Format
  | .string s => Format.ofName? s
  | .object [(key, _)] => Format.ofName? key
  | _ => none

/-- The batch file of a document. -/
def ofDocument? : Document → Option BatchFile
  | .object members => do
    let batch ← Batch.ofDocument? (← members.lookup "requests") .ignored
    let output ← defaultField {} (OutputSettings.ofFields? .ignored format? switch?) (members.lookup "output")
    return ⟨batch, output⟩
  | _ => none

/-- The batch file of a text. -/
def ofText? (text : String) : Option BatchFile := do
  match ← (← Yaml.Node.ofText? text).toDocument? with
  | .object members => ofDocument? (Document.ofPaths members)
  | _ => none

end BatchFile

end SearchFilter
