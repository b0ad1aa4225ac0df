import SearchFilter.Document.Basic
import SearchFilter.Text.Numeral
import SearchFilter.Text.Word

/-!
# Paths into documents

A path leads into a document by the keys of objects and by the indices of arrays, and is written like
`requests.a.filters[0]`. Negative indices count from the end. Changing a document at the end of a path makes the objects
and arrays that are missing on the way.

* `Document.stepsOf` — the path that a key stands for.
* `Document.alter` — change a document at the end of a path.
* `Document.merge` — put a document over another one; objects merge.
* `Document.ofPaths` — the document of members whose keys are paths.
-/

namespace SearchFilter

namespace Document

/-- A step into an object or an array. -/
inductive Step where
  | key (name : String)
  | index (index : Int)
  deriving DecidableEq, Repr

/-! ## Reading paths -/

/-- An index of 64 bits between brackets, with spaces and tabs around it. -/
def index? (cs : List Char) : Option Int :=
  let isSpace := fun c => c = ' ' || c = '\t'
  let body := cs.dropWhile isSpace
  let digits := body.takeWhile (!isSpace ·)
  if digits.head? = some '+' || (body.dropWhile (!isSpace ·)).any (!isSpace ·) then none
  else (Text.integer? 10 digits).filter fun n => -9223372036854775808 ≤ n && n ≤ 9223372036854775807

/-- The steps of a path behind its first key. -/
def laterSteps? : Nat → List Char → Option (List Step)
  | _, [] => some []
  | 0, _ => none
  | fuel + 1, c :: cs =>
    if c = '.' then do
      let name := cs.takeWhile Text.isWordChar
      if name.isEmpty then none
      return .key (String.ofList name) :: (← laterSteps? fuel (cs.dropWhile Text.isWordChar))
    else if c = '[' then
      match cs.dropWhile (· ≠ ']') with
      | [] => none
      | _ :: rest => do return .index (← index? (cs.takeWhile (· ≠ ']'))) :: (← laterSteps? fuel rest)
    else none

/-- The steps of a path: a word, and further words behind points or indices in brackets. -/
def steps? (key : String) : Option (List Step) := laterSteps? (key.length + 1) ('.' :: key.toList)

/-- The path that a key stands for: itself alone if it is not written like one. -/
def stepsOf (key : String) : List Step := (steps? key).getD [.key key]

/-! ## Changing documents -/

/-- The members of an object; other documents have none. -/
def members : Document → List (String × Document)
  | object members => members
  | _ => []

/-- The items of an array; other documents have none. -/
def items : Document → List Document
  | array items => items
  | _ => []

/-- Change the member under a key, which is null if it was missing. -/
def alterMember (key : String) (f : Document → Document) : List (String × Document) → List (String × Document)
  | [] => [(key, f null)]
  | m :: rest => if m.1 = key then (key, f m.2) :: rest else m :: alterMember key f rest

/-- The member under the key is changed. -/
theorem lookup_alterMember (key : String) (f : Document → Document) :
    ∀ members, (alterMember key f members).lookup key = some (f ((members.lookup key).getD null))
  | [] => by simp [alterMember]
  | (k, d) :: rest => by
    rw [alterMember]
    split
    next h => simp [show k = key from h]
    next h =>
      have hk : (key == k) = false := beq_eq_false_iff_ne.2 (Ne.symm h)
      rw [List.lookup_cons, List.lookup_cons, hk]
      exact lookup_alterMember key f rest

/-- No other member is changed. -/
theorem lookup_alterMember_of_ne {key other : String} (h : other ≠ key) (f : Document → Document) :
    ∀ members, (alterMember key f members).lookup other = members.lookup other
  | [] => by
    have hk : (other == key) = false := beq_eq_false_iff_ne.2 h
    rw [alterMember, List.lookup_cons, hk]
  | (k, d) :: rest => by
    rw [alterMember]
    split
    next e =>
      have hk : (other == k) = false := beq_eq_false_iff_ne.2 fun ek => h (ek.trans e)
      have hk' : (other == key) = false := beq_eq_false_iff_ne.2 h
      rw [List.lookup_cons, List.lookup_cons, hk, hk']
    next => rw [List.lookup_cons, List.lookup_cons, lookup_alterMember_of_ne h f rest]

/-- Change the item at an index; nulls fill what is missing behind the last item, or in front of the first one. -/
def alterItem (index : Int) (f : Document → Document) (items : List Document) : List Document :=
  let missing := fun n => List.replicate (n - items.length) null
  if 0 ≤ index then (items ++ missing (index.toNat + 1)).modify index.toNat f
  else (missing index.natAbs ++ items).modify (items.length - index.natAbs) f

/-- Change a document at the end of a path. -/
def alter (f : Document → Document) : List Step → Document → Document
  | [], d => f d
  | .key name :: path, d => object (alterMember name (alter f path) d.members)
  | .index index :: path, d => array (alterItem index (alter f path) d.items)

mutual

/-- A document over one that was there before; an object keeps the members that it does not have itself. -/
def merge (before : Document) : Document → Document
  | object members => object (mergeMembers before.members members)
  | d => d

def mergeMembers (before : List (String × Document)) : List (String × Document) → List (String × Document)
  | [] => before
  | (key, d) :: rest => mergeMembers (alterMember key (merge · d) before) rest

end

/-- The document of members whose keys are paths, put over one another in order. -/
def ofPaths (members : List (String × Document)) : Document :=
  members.foldl (fun d m => d.alter (merge · m.2) (stepsOf m.1)) (object [])

end Document

end SearchFilter
