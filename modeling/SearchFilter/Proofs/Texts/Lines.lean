import SearchFilter.Proofs.Texts.Scalars
import SearchFilter.Yaml.Printer

/-!
# The YAML text of a document by its lines

The printer adds a document to the text in front of it, and starts a line where that text does not end with one. Here
the same text is built from the lines of its parts, each of which depends on how far in it stands and on nothing else.

* `Document.lines` — the lines of a document `indent` spaces in.
* `Document.toList_freshLine` — a line starts behind the end of another one.
* `Document.lineEnded_blockAfter` — the text of an array or object is its lines.
-/

namespace SearchFilter.Document

open Yaml

variable {d e : Document} {s t : List Char} {n : Nat}

/-! ## Lines -/

/-- Documents that stand on the line of their key or hyphen. -/
def isInline : Document → Bool
  | array (_ :: _) => false
  | object (_ :: _) => false
  | _ => true

/-- A value behind the colon of a key `indent` spaces in, given its lines by how far these are in. -/
def valueLines (indent : Nat) (d : Document) (lines : Nat → List Char) : List Char :=
  if d.isInline then ' ' :: lines (indent + 2)
  else '\n' :: (List.replicate (valueIndent indent d) ' ' ++ lines (valueIndent indent d))

/-- A member whose key stands `indent` spaces in. -/
def memberLine (indent : Nat) (key : String) (d : Document) (lines : Nat → List Char) : List Char :=
  if isShortKey key then (write true (indent + 2) key).toList ++ ':' :: valueLines indent d lines
  else
    '?' :: ' ' :: (lineEnded (write false (indent + 2) key).toList ++
      (List.replicate indent ' ' ++ ':' :: ' ' :: lines (indent + 2)))

mutual

/-- The lines of a document `indent` spaces in, behind the spaces of the first one. -/
def lines (indent : Nat) : Document → List Char
  | array (d :: rest) => itemLines indent true (d :: rest)
  | object (m :: rest) => memberLines indent true (m :: rest)
  | d => lineEnded ((inlineYaml? indent d).getD "").toList

def itemLines (indent : Nat) (first : Bool) : List Document → List Char
  | [] => []
  | d :: rest => margin indent (!first) ++ '-' :: ' ' :: (lines (indent + 2) d ++ itemLines indent false rest)

def memberLines (indent : Nat) (first : Bool) : List (String × Document) → List Char
  | [] => []
  | (key, d) :: rest =>
    margin indent (!first) ++ (memberLine indent key d (lines · d) ++ memberLines indent false rest)

end

/-! ## The text by lines -/

theorem toList_pushn (s : String) (c : Char) (n : Nat) : (s.pushn c n).toList = s.toList ++ List.replicate n c := by
  rw [String.pushn_eq_repeat_push]
  induction n with
  | zero => exact (List.append_nil _).symm
  | succ n ih => rw [Nat.repeat, String.toList_push, ih, List.append_assoc, ← List.replicate_succ']

/-- A line starts where one is reached, and behind a line end otherwise. -/
theorem toList_freshLine (before : String) (indent : Nat) :
    (freshLine before indent).toList = lineEnded before.toList ++ List.replicate indent ' ' := by
  have hends : (before.isEmpty || isBreak before.back) = endsLine true before.toList := by
    by_cases hempty : before = ""
    · subst hempty
      rfl
    · have hne : before.toList ≠ [] := fun h => hempty (String.toList_inj.1 (h.trans String.toList_empty.symm))
      rw [Bool.eq_false_iff.2 fun h => hempty (String.isEmpty_iff.1 h), endsLine_eq, String.back_eq, String.back?_eq,
        List.getLast?_eq_some_getLast hne]
      rfl
  rw [freshLine, hends, toList_pushn, lineEnded]
  split
  · rfl
  · rw [String.toList_append]
    rfl

theorem jsonNumber_ne_empty (mantissa exponent : Int) : jsonNumber mantissa exponent ≠ "" := by
  unfold jsonNumber
  split
  · intro h
    have hlist := congrArg String.toList h
    cases hm : mantissa * Nat.pow 10 exponent.toNat <;> rw [hm] at hlist <;>
      simp [toString, Int.repr, Nat.repr_eq_ofList_toDigits] at hlist
  · simp

theorem write_ne_empty (k : Bool) (indent : Nat) (x : String) : write k indent x ≠ "" := by
  intro hempty
  obtain ⟨c, r, hc, _⟩ := exists_head_write k indent x
  rw [hempty] at hc
  cases hc

theorem exists_inlineYaml? (h : d.isInline = true) (indent : Nat) : ∃ text, inlineYaml? indent d = some text ∧
    text ≠ "" ∧ lines indent d = lineEnded text.toList := by
  cases d with
  | null => exact ⟨_, rfl, by decide, rfl⟩
  | boolean b => exact ⟨_, rfl, by cases b <;> decide, rfl⟩
  | number mantissa exponent => exact ⟨_, rfl, jsonNumber_ne_empty _ _, rfl⟩
  | string x => exact ⟨_, rfl, write_ne_empty false indent x, rfl⟩
  | array items =>
    cases items with
    | nil => exact ⟨_, rfl, by decide, rfl⟩
    | cons => cases h
  | object members =>
    cases members with
    | nil => exact ⟨_, rfl, by decide, rfl⟩
    | cons => cases h

theorem inlineYaml?_eq_none (h : d.isInline = false) (indent : Nat) : inlineYaml? indent d = none := by
  cases d with
  | null | boolean | number | string => cases h
  | array items =>
    cases items with
    | nil => cases h
    | cons => rfl
  | object members =>
    cases members with
    | nil => cases h
    | cons => rfl

theorem lineEnded_append_text (start : String) {text : String} (h : text ≠ "") :
    lineEnded (start ++ text).toList = start.toList ++ lineEnded text.toList := by
  rw [String.toList_append]
  exact lineEnded_append _ fun hnil => h (String.toList_inj.1 (hnil.trans String.toList_empty.symm))

/-- What stands in front of items or members: a line that is begun, or lines that are complete. -/
def before (first : Bool) (text : String) : List Char := if first then text.toList else lineEnded text.toList

theorem before_false (text : String) : before false text = lineEnded text.toList := rfl

theorem toList_start (first : Bool) (text : String) (indent : Nat) :
    (if first then text else freshLine text indent).toList = before first text ++ margin indent (!first) := by
  cases first
  · exact toList_freshLine text indent
  · exact (List.append_nil _).symm

mutual

/-- The text of a collection is its lines. -/
theorem lineEnded_blockAfter (text : String) (indent : Nat) : ∀ d, d.isInline = false →
    lineEnded (blockAfter text indent d).toList = text.toList ++ lines indent d
  | array (d :: rest), _ => by
    rw [blockAfter, lines]
    exact lineEnded_blockItems text indent true (d :: rest) (by simp)
  | object (m :: rest), _ => by
    rw [blockAfter, lines]
    exact lineEnded_blockMembers text indent true (m :: rest) (by simp)

theorem lineEnded_blockItems (text : String) (indent : Nat) (first : Bool) : ∀ ds, (first = true → ds ≠ []) →
    lineEnded (blockItems text indent first ds).toList = before first text ++ itemLines indent first ds
  | [], h => by
    cases first
    · exact (List.append_nil _).symm
    · exact absurd rfl (h rfl)
  | d :: rest, _ => by
    have hstart := toList_start first text indent
    rw [blockItems, lineEnded_blockItems _ indent false rest nofun, itemLines]
    generalize (if first then text else freshLine text indent) = start at hstart
    cases hd : d.isInline with
    | true =>
      obtain ⟨value, hvalue, hne, hlines⟩ := exists_inlineYaml? hd (indent + 2)
      simp only [hvalue, before_false]
      rw [lineEnded_append_text _ hne, String.toList_append, hstart, hlines]
      simp
    | false =>
      simp only [inlineYaml?_eq_none hd, before_false]
      rw [lineEnded_blockAfter _ _ d hd, String.toList_append, hstart]
      simp

theorem lineEnded_blockMembers (text : String) (indent : Nat) (first : Bool) : ∀ ms, (first = true → ms ≠ []) →
    lineEnded (blockMembers text indent first ms).toList = before first text ++ memberLines indent first ms
  | [], h => by
    cases first
    · exact (List.append_nil _).symm
    · exact absurd rfl (h rfl)
  | (key, d) :: rest, _ => by
    have hstart := toList_start first text indent
    have hcolon (start : String) : lineEnded (start ++ ":").toList = start.toList ++ [':', '\n'] :=
      lineEnded_append_text start (by decide)
    have hkey (start : String) := lineEnded_append_text start (write_ne_empty false (indent + 2) key)
    rw [blockMembers, lineEnded_blockMembers _ indent false rest nofun, memberLines, memberLine, valueLines]
    generalize (if first then text else freshLine text indent) = start at hstart
    cases hd : d.isInline with
    | true =>
      obtain ⟨value, hvalue, hne, hlines⟩ := exists_inlineYaml? hd (indent + 2)
      simp only [hvalue, before_false]
      split
      · rw [lineEnded_append_text _ hne]
        simp [hstart, hlines]
      · rw [lineEnded_append_text _ hne, String.toList_append, toList_freshLine, hkey]
        simp [hstart, hlines]
    | false =>
      simp only [inlineYaml?_eq_none hd, before_false]
      split
      · rw [lineEnded_blockAfter _ _ d hd, toList_freshLine, hcolon]
        simp [hstart]
      · rw [lineEnded_blockAfter _ _ d hd, String.toList_append, toList_freshLine, hkey]
        simp [hstart]

end

end SearchFilter.Document
