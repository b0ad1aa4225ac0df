import SearchFilter.Filter.Outline
import SearchFilter.Proofs.Printing
import SearchFilter.Proofs.Quoting

/-!
# Outlines show the whole tree

The outline of a filter that can be read from text shows where each of its parts ends: a tag and a field end in front of
the first character that no word has, a text at its closing quote, and any other literal where a reader of literals
would stop. So even fields with the names of tags, and texts with commas or parentheses behind an escape, are told
apart.

* `Literal.outline_append_inj`, `Filter.WellFormed.outline_append_inj` — an outline in front of any other text.
* `outline_inj_of_parse` — filters that are read have the same outline only if they are the same.
-/

namespace SearchFilter

/-! ## Words -/

/-- Words of one kind of characters, in front of texts that do not go on with it. -/
theorem append_inj_of_stops {kind : Char → Bool} {u v s t : List Char} (hu : ∀ x ∈ u, kind x = true)
    (hv : ∀ x ∈ v, kind x = true) (hs : Stops kind s) (ht : Stops kind t) (h : u ++ s = v ++ t) : u = v ∧ s = t := by
  obtain rfl : u = v := by
    calc
      u = (u ++ s).takeWhile kind := (takeWhile_of_forall hu hs).symm
      _ = (v ++ t).takeWhile kind := by rw [h]
      _ = v := takeWhile_of_forall hv ht
  exact ⟨rfl, List.append_cancel_left h⟩

/-! ## Literals -/

namespace Literal

variable {v w : Literal} {s t : List Char}

def isText : Literal → Bool
  | text _ => true
  | _ => false

/-- An outline shows literals as they are printed, but for texts. -/
theorem outline_eq_print (h : v.isText = false) : v.outline = v.print := by
  cases v with
  | text => cases h
  | number | boolean | null => rfl

/-- Only texts are written between quotes. -/
theorem head_ne_quote {y : List Char} (h : Token.IsLiteral y v) (hv : v.isText = false) (t : List Char) :
    (y ++ t).head? ≠ some '\x22' := by
  cases h with
  | number hne hd => exact head_append_ne hne hd (by decide) t
  | boolean b => cases b <;> exact fun h => absurd (Option.some.inj h) (by decide)
  | null => exact fun h => absurd (Option.some.inj h) (by decide)
  | quoted | bare => cases hv

theorem head_outline_ne_quote (hv : v.WellFormed) (h : v.isText = false) (t : List Char) :
    (v.outline.toList ++ t).head? ≠ some '\x22' := by
  rw [outline_eq_print h]
  exact head_ne_quote (isLiteral_print hv) h t

/-- In front of a parenthesis a literal ends where a reader of literals stops. -/
theorem print_append_inj (hv : v.WellFormed) (hw : w.WellFormed)
    (h : v.print.toList ++ ')' :: s = w.print.toList ++ ')' :: t) : v = w ∧ s = t := by
  have hread {l : Literal} (hl : l.WellFormed) (r : List Char) :
      Token.literal (l.print.toList ++ ')' :: r) = some ⟨l, l.print.toList.length⟩ :=
    Token.literal_append (isLiteral_print hl) (stops_cons.2 (by decide))
  have hsame : some (⟨v, v.print.toList.length⟩ : Lexeme Literal) = some ⟨w, w.print.toList.length⟩ := by
    rw [← hread hv s, ← hread hw t, h]
  obtain rfl : v = w := congrArg Lexeme.value (Option.some.inj hsame)
  exact ⟨rfl, (List.cons.inj (List.append_cancel_left h)).2⟩

theorem toList_outline_text (x : String) :
    (text x).outline.toList = '\x22' :: (x.toList.flatMap Text.quoteChar ++ ['\x22']) := by
  simp [outline, Text.quote, Text.quoteChars]

/-- **The outline of a literal** in front of a parenthesis. -/
theorem outline_append_inj (hv : v.WellFormed) (hw : w.WellFormed)
    (h : v.outline.toList ++ ')' :: s = w.outline.toList ++ ')' :: t) : v = w ∧ s = t := by
  cases hvt : v.isText <;> cases hwt : w.isText
  case false.false =>
    rw [outline_eq_print hvt, outline_eq_print hwt] at h
    exact print_append_inj hv hw h
  case false.true =>
    have hhead := head_outline_ne_quote hv hvt (')' :: s)
    rw [h] at hhead
    cases w with
    | text y => exact absurd (by rw [toList_outline_text]; rfl) hhead
    | number | boolean | null => cases hwt
  case true.false =>
    have hhead := head_outline_ne_quote hw hwt (')' :: t)
    rw [← h] at hhead
    cases v with
    | text x => exact absurd (by rw [toList_outline_text]; rfl) hhead
    | number | boolean | null => cases hvt
  case true.true =>
    cases v with
    | number | boolean | null => cases hvt
    | text x =>
      cases w with
      | number | boolean | null => cases hwt
      | text y =>
        rw [toList_outline_text, toList_outline_text, List.cons_append, List.cons_append, List.append_assoc,
          List.append_assoc] at h
        obtain ⟨hxy, hst⟩ := Text.escapes_quoteChar.flatMap_append_inj (List.cons.inj h).2
        exact ⟨by rw [String.toList_inj.1 hxy], (List.cons.inj hst).2⟩

end Literal

/-! ## Filters -/

theorem Connective.keyword_injective {link link' : Connective} (h : link.keyword = link'.keyword) : link = link' := by
  cases link <;> cases link' <;> first | rfl | exact absurd h (by decide)

theorem Connective.keyword_ne_not (link : Connective) : link.keyword ≠ "NOT" := by cases link <;> decide

theorem Connective.keyword_ne_tag (link : Connective) (op : Operator) : link.keyword ≠ op.tag := by
  cases link <;> cases op <;> decide

theorem Operator.tag_injective {op op' : Operator} (h : op.tag = op'.tag) : op = op' := by
  cases op <;> cases op' <;> first | rfl | exact absurd h (by decide)

theorem Operator.tag_ne_not (op : Operator) : op.tag ≠ "NOT" := by cases op <;> decide

namespace Filter

variable {f g : Filter} {s t : List Char}

/-- The outline behind the tag of a filter and the opening parenthesis. -/
def arguments : Filter → List Char
  | join _ left right => left.outline.toList ++ ',' :: ' ' :: (right.outline.toList ++ [')'])
  | not operand => operand.outline.toList ++ [')']
  | compare _ field value => field.toList ++ ',' :: ' ' :: (value.outline.toList ++ [')'])
  | literal _ => []

theorem WellFormed.toList_outline (h : f.WellFormed) : f.outline.toList = f.tag.toList ++ '(' :: f.arguments := by
  cases h <;> simp [outline, tag, arguments]

/-- Tags are words. -/
theorem WellFormed.isFieldChar_tag (h : f.WellFormed) : ∀ x ∈ f.tag.toList, isFieldChar x = true := by
  have hlink (link : Connective) : link.keyword.toList.all isFieldChar = true := by cases link <;> decide
  have hop (op : Operator) : op.tag.toList.all isFieldChar = true := by cases op <;> decide
  cases h with
  | join link => exact List.all_eq_true.1 (hlink link)
  | not => exact List.all_eq_true.1 (show "NOT".toList.all isFieldChar = true by decide)
  | compare op => exact List.all_eq_true.1 (hop op)

/-- The tag ends in front of the parenthesis. -/
theorem WellFormed.tag_and_arguments (hf : f.WellFormed) (hg : g.WellFormed)
    (h : f.outline.toList ++ s = g.outline.toList ++ t) : f.tag = g.tag ∧ f.arguments ++ s = g.arguments ++ t := by
  rw [hf.toList_outline, hg.toList_outline, List.append_assoc, List.append_assoc] at h
  obtain ⟨htag, hrest⟩ := append_inj_of_stops hf.isFieldChar_tag hg.isFieldChar_tag (stops_cons.2 (by decide))
    (stops_cons.2 (by decide)) h
  exact ⟨String.toList_inj.1 htag, (List.cons.inj hrest).2⟩

/-- **The outline of a filter** in front of any text. -/
theorem WellFormed.outline_append_inj (hf : f.WellFormed) (hg : g.WellFormed)
    (h : f.outline.toList ++ s = g.outline.toList ++ t) : f = g ∧ s = t := by
  induction hf generalizing g s t with
  | @join left right link hleft hright ihl ihr =>
    obtain ⟨htag, hargs⟩ := (WellFormed.join link hleft hright).tag_and_arguments hg h
    cases hg with
    | @join left' right' link' hleft' hright' =>
      obtain rfl := Connective.keyword_injective htag
      simp only [arguments, List.append_assoc, List.cons_append] at hargs
      obtain ⟨rfl, hrest⟩ := ihl hleft' hargs
      obtain ⟨rfl, hend⟩ := ihr hright' (List.cons.inj (List.cons.inj hrest).2).2
      exact ⟨rfl, (List.cons.inj hend).2⟩
    | not => exact absurd htag link.keyword_ne_not
    | compare op => exact absurd htag (link.keyword_ne_tag op)
  | @not operand hoperand ih =>
    obtain ⟨htag, hargs⟩ := hoperand.not.tag_and_arguments hg h
    cases hg with
    | join link => exact absurd htag.symm link.keyword_ne_not
    | @not operand' hoperand' =>
      simp only [arguments, List.append_assoc, List.cons_append] at hargs
      obtain ⟨rfl, hend⟩ := ih hoperand' hargs
      exact ⟨rfl, (List.cons.inj hend).2⟩
    | compare op => exact absurd htag.symm op.tag_ne_not
  | @compare op field v hne hfield hv =>
    obtain ⟨htag, hargs⟩ := (WellFormed.compare op hne hfield hv).tag_and_arguments hg h
    cases hg with
    | join link => exact absurd htag.symm (link.keyword_ne_tag op)
    | not => exact absurd htag op.tag_ne_not
    | @compare op' field' v' hne' hfield' hv' =>
      obtain rfl := Operator.tag_injective htag
      simp only [arguments, List.append_assoc, List.cons_append] at hargs
      obtain ⟨hf, hrest⟩ :=
        append_inj_of_stops hfield hfield' (stops_cons.2 (by decide)) (stops_cons.2 (by decide)) hargs
      obtain rfl := String.toList_inj.1 hf
      obtain ⟨rfl, hend⟩ := Literal.outline_append_inj hv hv' (List.cons.inj (List.cons.inj hrest).2).2
      exact ⟨rfl, hend⟩

end Filter

/-- **Outlines are unambiguous.** Filters that were read from texts are shown alike only if they are the same tree. -/
theorem outline_inj_of_parse {s t : String} {f g : Filter} (hf : Filter.parse s = .ok f) (hg : Filter.parse t = .ok g) :
    f.outline = g.outline ↔ f = g := by
  refine ⟨fun h => ?_, fun h => by rw [h]⟩
  have happend : f.outline.toList ++ [] = g.outline.toList ++ [] := by rw [h]
  exact ((wellFormed_of_parse hf).outline_append_inj (wellFormed_of_parse hg) happend).1

/-- Fields named like connectives, and a text that reads like a number, with a backslash and a comma. -/
theorem outline_inj_of_parse_lookalikes :
    let f : Filter :=
      .join .and (.compare .has "AND" (.literal (.number 1))) (.compare .has "OR" (.literal (.text "\\,1")))
    let g : Filter :=
      .join .and (.compare .has "AND" (.literal (.text "1"))) (.compare .has "OR" (.literal (.text "\\,1")))
    Filter.parse "AND:1 AND OR:'\\,1'" = .ok f ∧ Filter.parse "(AND:\"1\" AND (OR:\\,1))" = .ok g ∧
      f.outline ≠ g.outline := by
  intro f g
  have hf : Filter.parse "AND:1 AND OR:'\\,1'" = .ok f := by cbv
  have hg : Filter.parse "(AND:\"1\" AND (OR:\\,1))" = .ok g := by cbv
  have hne : f ≠ g := by decide
  exact ⟨hf, hg, fun h => hne ((outline_inj_of_parse hf hg).1 h)⟩

end SearchFilter
