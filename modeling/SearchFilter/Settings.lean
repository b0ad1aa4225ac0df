import SearchFilter.Document.Json
import SearchFilter.Query.Codec
import SearchFilter.Query.IndexToken
import SearchFilter.Yaml.Printer

/-!
# Output settings

How queries are written: as index tokens or in their canonical form, flattened or not, as JSON or as YAML.

* `OutputSettings.document` — the document that is written for a query.
* `OutputSettings.encode` — the text of a document.
-/

namespace SearchFilter

/-- An encoding of documents. -/
inductive Format where
  | json
  | yaml
  deriving DecidableEq, Repr

namespace Format

def name : Format → String
  | json => "json"
  | yaml => "yaml"

def ofName? (s : String) : Option Format := [json, yaml].find? (·.name = s)

/-- The text of a document, with a line end behind it. -/
def encode (d : Document) : Format → String
  | json => d.pretty ++ "\n"
  | yaml => d.yaml

end Format

/-- How queries are written; JSON unless a format is given. -/
structure OutputSettings where
  format : Option Format := none
  /-- Index tokens instead of canonical queries. -/
  token : Bool := false
  /-- Nested groups merged. -/
  flatten : Bool := false
  deriving DecidableEq, Repr

namespace OutputSettings

/-- The document that is written for a query, its keys in order. -/
def document (settings : OutputSettings) (q : Query) : Document :=
  if settings.token then q.toIndexToken else q.toDocument.sorted

/-- The text of a document. -/
def encode (settings : OutputSettings) (d : Document) : String := (settings.format.getD .json).encode d

end OutputSettings

end SearchFilter
