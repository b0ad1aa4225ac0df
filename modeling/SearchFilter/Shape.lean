import SearchFilter.Batch
import SearchFilter.Settings

/-!
# Requests, batches and settings from documents

A structure is read from an object, whose other members do not matter, or from an array of its fields in order, of
which the last ones may be missing. Whether an array may have more items depends on where the document comes from.

* `Terms.ofDocument?`, `Request.ofDocument?`, `Batch.ofDocument?`, `OutputSettings.ofDocument?` — what a document stands
  for, if it has the right shape.
-/

namespace SearchFilter

/-- What becomes of an array with more items than a structure has fields, or of those items. -/
inductive Surplus where
  | refused
  | ignored
  deriving DecidableEq, Repr

namespace Document

/-- The fields `keys` of a structure, in order. -/
def fields? (surplus : Surplus) (keys : List String) : Document → Option (List (Option Document))
  | object members => some (keys.map fun key => members.lookup key)
  | array items =>
    if items.length ≤ keys.length ∨ surplus = .ignored then
      some ((items.take keys.length).map some ++ List.replicate (keys.length - items.length) none)
    else none
  | _ => none

end Document

/-- A field that may be missing or null. -/
def optionalField {α : Type} (read : Document → Option α) : Option Document → Option (Option α)
  | none | some .null => some none
  | some d => (read d).map some

/-- A field with a default, which may be missing but not null. -/
def defaultField {α : Type} (fallback : α) (read : Document → Option α) : Option Document → Option α
  | none => some fallback
  | some d => read d

/-- A string or an array of strings. -/
def Terms.ofDocument? : Document → Option Terms
  | .string s => some (.one s)
  | .array items => (items.mapM Document.string?).map .many
  | _ => none

/-- A request, from its fields `query` and `filters`. -/
def Request.ofDocument? (d : Document) (surplus : Surplus := .refused) : Option Request :=
  match d.fields? surplus ["query", "filters"] with
  | some [query, filters] => do
    return ⟨← optionalField Terms.ofDocument? query, ← optionalField Terms.ofDocument? filters⟩
  | _ => none

/-- A batch, from an object of requests. -/
def Batch.ofDocument? (d : Document) (surplus : Surplus := .refused) : Option Batch :=
  match d with
  | .object members => (members.mapM fun m => (Request.ofDocument? m.2 surplus).map (m.1, ·)).map Batch.mk
  | _ => none

/-- A format by name, or as the only key of an object that holds null. -/
def Format.ofDocument? : Document → Option Format
  | .string s => ofName? s
  | .object [(key, .null)] => ofName? key
  | _ => none

namespace OutputSettings

/-- Output settings from their fields, given how a format and a switch are read. -/
def ofFields? (surplus : Surplus) (format : Document → Option Format) (switch : Document → Option Bool)
    (d : Document) : Option OutputSettings :=
  match d.fields? surplus ["format", "token", "flatten"] with
  | some [f, token, flatten] => do
    return ⟨← optionalField format f, ← defaultField false switch token, ← defaultField false switch flatten⟩
  | _ => none

/-- Output settings whose switches are booleans. -/
def ofDocument? : Document → Option OutputSettings := ofFields? .refused Format.ofDocument? Document.boolean?

end OutputSettings

end SearchFilter
