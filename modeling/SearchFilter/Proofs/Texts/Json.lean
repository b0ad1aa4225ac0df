import SearchFilter.Document.Json
import SearchFilter.Proofs.Quoting

/-!
# JSON texts show where they end

A document without numbers is told apart from all others by its text, whatever follows: a string ends at its closing
quote, and what a value is shows in its first character.

* `Document.toList_prettyAfter` — the text of a document does not depend on what stands before it.
* `Document.NumberFree.shown` — a document in front of any other text is told apart from all others.
* `Document.NumberFree.pretty_inj` — documents of the same text are the same.
-/

namespace SearchFilter.Document

variable {d e : Document} {s t : List Char}

/-! ## Strings -/

/-- The character that a letter behind a backslash stands for. -/
def ofJsonLetter (x : Char) : Char :=
  if x = 'b' then '\x08' else if x = 'f' then '\x0c' else if x = 'n' then '\n' else if x = 'r' then '\r'
  else if x = 't' then '\t' else x

/-- A character is written as it is, by a letter or by its number. -/
theorem jsonChar_cases (c : Char) :
    (jsonChar c = [c] ∧ c ≠ '\\' ∧ c ≠ '\x22') ∨ (∃ x, jsonChar c = ['\\', x] ∧ x ≠ 'u' ∧ ofJsonLetter x = c) ∨
      (c.toNat < 0x20 ∧ jsonChar c = ['\\', 'u', '0', '0', hexDigit (c.toNat / 16), hexDigit c.toNat]) := by
  unfold jsonChar
  split
  · next h => exact .inr (.inl ⟨_, rfl, by decide, by rw [h]; decide⟩)
  next hquote =>
  split
  · next h => exact .inr (.inl ⟨_, rfl, by decide, by rw [h]; decide⟩)
  next hslash =>
  split
  · next h => exact .inr (.inl ⟨_, rfl, by decide, by rw [h]; decide⟩)
  split
  · next h => exact .inr (.inl ⟨_, rfl, by decide, by rw [h]; decide⟩)
  split
  · next h => exact .inr (.inl ⟨_, rfl, by decide, by rw [h]; decide⟩)
  split
  · next h => exact .inr (.inl ⟨_, rfl, by decide, by rw [h]; decide⟩)
  split
  · next h => exact .inr (.inl ⟨_, rfl, by decide, by rw [h]; decide⟩)
  split
  · next h => exact .inr (.inr ⟨h, rfl⟩)
  · exact .inl ⟨rfl, hslash, hquote⟩

/-- The code of a character is a letter or its number. -/
theorem jsonCode_cases {c : Char} {k : List Char} (h : jsonChar c = '\\' :: k) :
    (∃ x, k = [x] ∧ x ≠ 'u' ∧ ofJsonLetter x = c) ∨
      (c.toNat < 0x20 ∧ k = ['u', '0', '0', hexDigit (c.toNat / 16), hexDigit c.toNat]) := by
  rcases jsonChar_cases c with ⟨hc, hne, _⟩ | ⟨x, hc, hx⟩ | ⟨hlt, hc⟩ <;> rw [hc] at h
  · exact absurd (List.cons.inj h).1 hne
  · exact .inl ⟨x, (List.cons.inj h).2.symm, hx⟩
  · exact .inr ⟨hlt, (List.cons.inj h).2.symm⟩

theorem hexDigit_inj {m n : Nat} (h : hexDigit m = hexDigit n) : m % 16 = n % 16 :=
  Text.digitChar_inj (Nat.mod_lt m (by decide)) (Nat.mod_lt n (by decide)) h

theorem escapes_jsonChar : Text.Escapes jsonChar where
  shown_or_code c := by
    rcases jsonChar_cases c with hc | ⟨x, hc, _⟩ | ⟨_, hc⟩
    · exact .inl hc
    · exact .inr ⟨_, hc⟩
    · exact .inr ⟨_, hc⟩
  code_append_inj hk hl h := by
    rcases jsonCode_cases hk with ⟨x, rfl, hx, rfl⟩ | ⟨hc, rfl⟩ <;>
      rcases jsonCode_cases hl with ⟨y, rfl, hy, rfl⟩ | ⟨hd, rfl⟩ <;>
      simp only [List.cons_append, List.nil_append, List.cons.injEq, true_and] at h
    · exact ⟨by rw [h.1], h.2⟩
    · exact absurd h.1 hx
    · exact absurd h.1.symm hy
    · obtain ⟨hhigh, hlow, hst⟩ := h
      have hhigh := hexDigit_inj hhigh
      have hlow := hexDigit_inj hlow
      exact ⟨Char.toNat_inj.1 (by omega), hst⟩

theorem toList_jsonString (s : String) : (jsonString s).toList = '\x22' :: (s.toList.flatMap jsonChar ++ ['\x22']) := by
  simp [jsonString]

/-- A string shows where it ends. -/
theorem jsonString_append_inj {x y : String} (h : (jsonString x).toList ++ s = (jsonString y).toList ++ t) :
    x = y ∧ s = t := by
  rw [toList_jsonString, toList_jsonString, List.cons_append, List.cons_append, List.append_assoc,
    List.append_assoc] at h
  obtain ⟨hxy, hst⟩ := escapes_jsonChar.flatMap_append_inj (List.cons.inj h).2
  exact ⟨String.toList_inj.1 hxy, hst⟩

/-! ## The text by itself -/

theorem toList_newLine (depth : Nat) : (newLine depth).toList = '\n' :: ("".pushn ' ' (2 * depth)).toList := by
  simp [newLine]

mutual

/-- The text of a document, its inner lines `depth` levels in. -/
def prettyChars (depth : Nat) : Document → List Char
  | null => "null".toList
  | boolean b => (if b then "true" else "false").toList
  | number mantissa exponent => (jsonNumber mantissa exponent).toList
  | string s => (jsonString s).toList
  | array [] => ['[', ']']
  | array (d :: rest) =>
    '[' :: ((newLine depth).toList ++ (prettyChars (depth + 1) d ++ (itemChars depth rest ++
      ((newLine (depth - 1)).toList ++ [']']))))
  | object [] => ['\x7b', '\x7d']
  | object ((key, d) :: rest) =>
    '\x7b' :: ((newLine depth).toList ++ ((jsonString key).toList ++ (':' :: ' ' :: (prettyChars (depth + 1) d ++
      (memberChars depth rest ++ ((newLine (depth - 1)).toList ++ ['\x7d']))))))

def itemChars (depth : Nat) : List Document → List Char
  | [] => []
  | d :: rest => ',' :: ((newLine depth).toList ++ (prettyChars (depth + 1) d ++ itemChars depth rest))

def memberChars (depth : Nat) : List (String × Document) → List Char
  | [] => []
  | (key, d) :: rest =>
    ',' :: ((newLine depth).toList ++ ((jsonString key).toList ++ (':' :: ' ' :: (prettyChars (depth + 1) d ++
      memberChars depth rest))))

end

mutual

/-- What stands before a document does not change its text. -/
theorem toList_prettyAfter (before : String) (depth : Nat) :
    ∀ d, (prettyAfter before depth d).toList = before.toList ++ prettyChars depth d
  | null | boolean _ | number _ _ | string _ => by
    simp only [prettyAfter, prettyChars, String.toList_append]
  | array [] | object [] => by simp [prettyAfter, prettyChars]
  | array (d :: rest) => by
    simp [prettyAfter, prettyChars, toList_prettyItems, toList_prettyAfter]
  | object ((key, d) :: rest) => by
    simp [prettyAfter, prettyChars, toList_prettyMembers, toList_prettyAfter]

theorem toList_prettyItems (before : String) (depth : Nat) :
    ∀ ds, (prettyItems before depth ds).toList = before.toList ++ itemChars depth ds
  | [] => by simp only [prettyItems, itemChars, List.append_nil]
  | d :: rest => by
    simp [prettyItems, itemChars, toList_prettyItems _ _ rest, toList_prettyAfter _ _ d]

theorem toList_prettyMembers (before : String) (depth : Nat) :
    ∀ ms, (prettyMembers before depth ms).toList = before.toList ++ memberChars depth ms
  | [] => by simp only [prettyMembers, memberChars, List.append_nil]
  | m :: rest => by
    obtain ⟨key, d⟩ := m
    simp [prettyMembers, memberChars, toList_prettyMembers _ _ rest, toList_prettyAfter _ _ d]

end

/-! ## Values -/

/-- The character that a document starts with. -/
def opening : Document → Char
  | null => 'n'
  | boolean b => if b then 't' else 'f'
  | number _ _ => '0'
  | string _ => '\x22'
  | array _ => '['
  | object _ => '\x7b'

theorem NumberFree.head_prettyChars (hd : d.NumberFree) (depth : Nat) (s : List Char) :
    (prettyChars depth d ++ s).head? = some d.opening := by
  cases hd with
  | null => rfl
  | boolean b => cases b <;> rfl
  | string x => rw [prettyChars, toList_jsonString]; rfl
  | @array items => cases items <;> rfl
  | @object members =>
    cases members with
    | nil => rfl
    | cons m rest => rfl

/-- Whether a document in front of any other text can be told from all others. -/
def Shown (d : Document) : Prop :=
  ∀ {e : Document} {depth : Nat} {s t : List Char}, e.NumberFree →
    prettyChars depth d ++ s = prettyChars depth e ++ t → d = e ∧ s = t

theorem itemChars_append_inj {depth : Nat} {xs ys : List Document} (hx : ∀ d ∈ xs, Shown d)
    (hy : ∀ d ∈ ys, d.NumberFree) (h : itemChars depth xs ++ '\n' :: s = itemChars depth ys ++ '\n' :: t) :
    xs = ys ∧ s = t := by
  induction xs generalizing ys with
  | nil =>
    cases ys with
    | nil => exact ⟨rfl, (List.cons.inj h).2⟩
    | cons y ys => exact absurd (List.cons.inj h).1 (by decide)
  | cons x xs ih =>
    cases ys with
    | nil => exact absurd (List.cons.inj h).1 (by decide)
    | cons y ys =>
      simp only [itemChars, List.cons_append, List.append_assoc, List.cons.injEq, true_and] at h
      obtain ⟨rfl, hrest⟩ := hx x (.head _) (hy y (.head _)) (List.append_cancel_left h)
      obtain ⟨rfl, hst⟩ := ih (fun d hd => hx d (.tail _ hd)) (fun d hd => hy d (.tail _ hd)) hrest
      exact ⟨rfl, hst⟩

theorem memberChars_append_inj {depth : Nat} {ms ns : List (String × Document)} (hm : ∀ m ∈ ms, Shown m.2)
    (hn : ∀ n ∈ ns, n.2.NumberFree) (h : memberChars depth ms ++ '\n' :: s = memberChars depth ns ++ '\n' :: t) :
    ms = ns ∧ s = t := by
  induction ms generalizing ns with
  | nil =>
    cases ns with
    | nil => exact ⟨rfl, (List.cons.inj h).2⟩
    | cons n ns => exact absurd (List.cons.inj h).1 (by decide)
  | cons m ms ih =>
    obtain ⟨key, d⟩ := m
    cases ns with
    | nil => exact absurd (List.cons.inj h).1 (by decide)
    | cons n ns =>
      obtain ⟨key', e⟩ := n
      simp only [memberChars, List.cons_append, List.append_assoc, List.cons.injEq, true_and] at h
      obtain ⟨rfl, hvalue⟩ := jsonString_append_inj (List.append_cancel_left h)
      simp only [List.cons.injEq, true_and] at hvalue
      obtain ⟨rfl, hrest⟩ := hm _ (.head _) (hn _ (.head _)) hvalue
      obtain ⟨rfl, hst⟩ := ih (fun m hm' => hm m (.tail _ hm')) (fun n hn' => hn n (.tail _ hn')) hrest
      exact ⟨rfl, hst⟩

/-- Documents of the same kind, the same if they have no parts. -/
inductive Alike : Document → Document → Prop
  | null : Alike null null
  | boolean (b : Bool) : Alike (boolean b) (boolean b)
  | string (x y : String) : Alike (string x) (string y)
  | array (xs ys : List Document) : Alike (array xs) (array ys)
  | object (ms ns : List (String × Document)) : Alike (object ms) (object ns)

theorem NumberFree.alike_of_opening (hd : d.NumberFree) (he : e.NumberFree) (h : d.opening = e.opening) :
    Alike d e := by
  cases hd
  case boolean b =>
    cases he
    case boolean b' => cases b <;> cases b' <;> first | constructor | exact absurd h (by decide)
    all_goals cases b <;> simp [opening] at h
  all_goals
    cases he
    case boolean b' => cases b' <;> simp [opening] at h
    all_goals first | constructor | simp [opening] at h

theorem NumberFree.alike {depth : Nat} (hd : d.NumberFree) (he : e.NumberFree)
    (h : prettyChars depth d ++ s = prettyChars depth e ++ t) : Alike d e := by
  have hhead := hd.head_prettyChars depth s
  rw [h, he.head_prettyChars depth t] at hhead
  exact hd.alike_of_opening he (Option.some.inj hhead).symm

theorem shown_string (x : String) : Shown (string x) := by
  intro e depth s t he h
  cases (NumberFree.string x).alike he h with
  | string x y =>
    obtain ⟨rfl, hst⟩ := jsonString_append_inj h
    exact ⟨rfl, hst⟩

/-- An array shows where it ends if its items do. -/
theorem shown_array {xs : List Document} (hxs : ∀ d ∈ xs, d.NumberFree) (hshown : ∀ d ∈ xs, Shown d) :
    Shown (array xs) := by
  intro e depth s t he h
  cases (NumberFree.array hxs).alike he h with
  | array xs ys =>
    cases he with
    | array hys =>
      cases xs <;> cases ys
      case nil.nil => exact ⟨rfl, List.append_cancel_left h⟩
      case nil.cons => simp [prettyChars, toList_newLine] at h
      case cons.nil => simp [prettyChars, toList_newLine] at h
      case cons.cons x xs y ys =>
        simp only [prettyChars, List.cons_append, List.append_assoc, List.cons.injEq, true_and] at h
        obtain ⟨rfl, hrest⟩ := hshown x (.head _) (hys y (.head _)) (List.append_cancel_left h)
        rw [toList_newLine, List.cons_append, List.cons_append] at hrest
        obtain ⟨rfl, hend⟩ := itemChars_append_inj (fun d hd => hshown d (.tail _ hd))
          (fun d hd => hys d (.tail _ hd)) hrest
        exact ⟨rfl, (List.cons.inj (List.append_cancel_left hend)).2⟩

/-- An object shows where it ends if the values of its members do. -/
theorem shown_object {ms : List (String × Document)} (hms : ∀ m ∈ ms, m.2.NumberFree)
    (hshown : ∀ m ∈ ms, Shown m.2) : Shown (object ms) := by
  intro e depth s t he h
  cases (NumberFree.object hms).alike he h with
  | object ms ns =>
    cases he with
    | object hns =>
      cases ms <;> cases ns
      case nil.nil => exact ⟨rfl, List.append_cancel_left h⟩
      case nil.cons => simp [prettyChars, toList_newLine] at h
      case cons.nil => simp [prettyChars, toList_newLine] at h
      case cons.cons m ms n ns =>
        obtain ⟨key, d⟩ := m
        obtain ⟨key', e⟩ := n
        simp only [prettyChars, List.cons_append, List.append_assoc, List.cons.injEq, true_and] at h
        obtain ⟨rfl, hvalue⟩ := jsonString_append_inj (List.append_cancel_left h)
        simp only [List.cons.injEq, true_and] at hvalue
        obtain ⟨rfl, hrest⟩ := hshown _ (.head _) (hns _ (.head _)) hvalue
        rw [toList_newLine, List.cons_append, List.cons_append] at hrest
        obtain ⟨rfl, hend⟩ := memberChars_append_inj (fun m hm => hshown m (.tail _ hm))
          (fun n hn => hns n (.tail _ hn)) hrest
        exact ⟨rfl, (List.cons.inj (List.append_cancel_left hend)).2⟩

/-- **A document without numbers** shows where it ends. -/
theorem NumberFree.shown (hd : d.NumberFree) : Shown d := by
  induction hd with
  | null =>
    intro e depth s t he h
    cases NumberFree.null.alike he h
    exact ⟨rfl, List.append_cancel_left h⟩
  | boolean b =>
    intro e depth s t he h
    cases (NumberFree.boolean b).alike he h
    exact ⟨rfl, List.append_cancel_left h⟩
  | string x => exact shown_string x
  | array hxs ih => exact shown_array hxs ih
  | object hms ih => exact shown_object hms ih

/-- Documents without numbers are told apart by their texts. -/
theorem NumberFree.pretty_inj (hd : d.NumberFree) (he : e.NumberFree) (h : d.pretty = e.pretty) : d = e := by
  have hchars (d : Document) : d.pretty.toList = prettyChars 1 d := toList_prettyAfter "" 1 d
  have happend : prettyChars 1 d ++ [] = prettyChars 1 e ++ [] := by rw [← hchars, ← hchars, h]
  exact (hd.shown he happend).1

end SearchFilter.Document
