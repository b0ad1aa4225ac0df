import SearchFilter.Proofs.Grammar.Enclosure
import SearchFilter.Proofs.Grammar.Truncation

/-!
# What was read stays read

An expression at the end of a text is read alike in a text that goes on, if no character behind it goes on with its last
token (`expression_extend`). One thing is different: the `=` behind a `>` or a `<` was the value if none followed, and
with a value behind it it belongs to the operator (`Captive`).

* `expression_extend_of_keyword` — in front of a keyword nothing is different.
* `full_close` — a statement up to the end of the text, in front of a closing parenthesis.
-/

namespace SearchFilter.Grammar

variable {c d p : Cursor} {w q : List Char} {op : Operator} {v : Literal} {s : Statement}

/-! ## Spaces -/

theorem pastSpaces_extend_of_head (h : (c.pastSpaces.extend q).rest.head? ≠ some ' ') :
    (c.extend q).pastSpaces = c.pastSpaces.extend q := by
  rw [pastSpaces_of_spans (eq_space_of_mem c) (c.spans_pastSpaces.extend q), Cursor.pastSpaces_of_head h]

theorem rest_pastSpaces_extend (hd : d.pastSpaces.rest = []) (q : List Char) :
    (d.extend q).pastSpaces.rest = q.dropWhile (· == ' ') := by
  rw [Cursor.rest_pastSpaces] at hd ⊢
  show (d.rest ++ q).dropWhile _ = _
  rw [List.dropWhile_append, hd]
  rfl

/-! ## Expressions -/

/-- Where a bare character is ahead a value is. -/
theorem value_of_bare {x : Char} (h : p.rest.head? = some x) (hx : isBareChar x = true) : (value p).result ≠ none := by
  intro hnone
  rw [result_value, Option.map_eq_none_iff] at hnone
  rw [Token.stops_of_literal hnone x h] at hx
  cases hx

/-- What starts with `=` is a text without quotes. -/
theorem bare_of_equals {y : List Char} (h : Token.IsLiteral ('=' :: y) v) : ∀ x ∈ y, isBareChar x = true := by
  generalize hu : '=' :: y = u at h
  cases h with
  | number _ hd => exact absurd (hd '=' (hu ▸ .head _)) (by decide)
  | boolean b => cases b <;> cases hu
  | null => cases hu
  | quoted hq =>
    obtain ⟨rfl, _⟩ := List.cons.inj hu
    rcases hq with hq | hq <;> cases hq
  | bare _ hw => exact fun x hx => hw x (hu ▸ .tail _ hx)

/-- A field name, a `>` or `<` and, right behind it, a `=` end at `d`. -/
def Captive (c d : Cursor) : Prop := ∃ w op sp, IsField w ∧ Operator.IsStrict op ∧ (∀ x ∈ sp, x = ' ') ∧
  c.Spans (w ++ (sp ++ op.wide.symbol.toList)) d

theorem compares_extend (hw : IsField w) (h : Compares c w op v d) (hq : Stops isBareChar (d.rest ++ q))
    (hcap : Captive c d → (value d.pastSpaces).result = none → (value (d.extend q).pastSpaces).result = none) :
    Compares (c.extend q) w op v (d.extend q) := by
  cases h with
  | colon hs hv =>
    obtain ⟨y, hy, hlit⟩ := isLiteral_of_value hv
    exact .colon (hs.extend q) (value_of_isLiteral hlit (hy.extend q) hq)
  | @operator _ _ sp p _ hop hsp hs hv hstrict =>
    obtain ⟨y, hy, hlit⟩ := isLiteral_of_value hv
    have hpast : (p.extend q).pastSpaces = p.pastSpaces.extend q := by
      refine pastSpaces_extend_of_head ?_
      rw [(hy.extend q).rest_eq]
      exact hlit.head_ne_space _
    refine .operator hop hsp (hs.extend q) (hpast ▸ value_of_isLiteral hlit (hy.extend q) hq) fun hstr heq => ?_
    -- the value starts with `=`, as the longer text does
    have hhead : p.rest.head? = some '=' := by
      have hne : p.rest ≠ [] := by
        rw [p.spans_pastSpaces.rest_eq, hy.rest_eq]
        simp [hlit.ne_nil]
      have hext : (p.extend q).rest.head? = p.rest.head? := List.head?_append_of_ne_nil _ hne
      rwa [← hext]
    have hnone := hstrict hstr hhead
    rw [Cursor.pastSpaces_of_head (by rw [hhead]; nofun)] at hy
    obtain ⟨x, y, rfl⟩ := List.exists_cons_of_ne_nil hlit.ne_nil
    obtain rfl : x = '=' := by
      rw [hy.rest_eq] at hhead
      exact Option.some.inj hhead
    cases y with
    | nil =>
      have hone : p.advance 1 = d := hy.eq_advance
      have hone' : (p.extend q).advance 1 = d.extend q := (hy.extend q).eq_advance
      rw [hone] at hnone
      rw [hone']
      refine hcap ⟨w, op, sp, hw, hstr, hsp, ?_⟩ hnone
      rw [Operator.symbol_wide hstr, ← List.append_assoc, ← List.append_assoc, List.append_assoc w]
      exact hs.trans hy
    | cons x y =>
      -- the value goes on behind `=`, where none was read
      have hx := bare_of_equals hlit x (.head _)
      have hrest : (p.advance 1).rest.head? = some x := by simp [Cursor.advance, hy.rest_eq]
      rw [Cursor.pastSpaces_of_head] at hnone
      · exact absurd hnone (value_of_bare hrest hx)
      · rw [hrest]
        rintro ⟨⟩
        cases hx

theorem rest_eq_append_close (h : p.rest.head? = some ')') : p.rest = ')' :: (p.advance 1).rest := by
  obtain ⟨r, hr⟩ := List.head?_eq_some_iff.1 h
  simp [Cursor.advance, hr]

/-- A group is read alike in a text that goes on. -/
theorem group_extend (h : (group full c).result = some (s, d)) (q : List Char) :
    (group full (c.extend q)).result = some (s, d.extend q) := by
  obtain ⟨ho, e, hinner, hclose, rfl⟩ := group_eq_some_iff.1 h
  obtain ⟨u, hu, hspans⟩ := balanced_of_full hinner
  have hopen := spans_literal (literal_open_eq_some_iff.2 ⟨ho, rfl⟩)
  have hrest : (c.advance 1).rest = u ++ ')' :: (e.pastSpaces.advance 1).rest := by
    rw [hspans.rest_eq, ← rest_eq_append_close hclose]
  obtain ⟨s', hs', rfl⟩ := derivation_of_enclosed hu hrest hinner hclose
  have hext : (c.extend q).rest = '(' :: (u ++ ')' :: ((e.pastSpaces.advance 1).rest ++ q)) := by
    show c.rest ++ q = _
    rw [hopen.rest_eq, hrest]
    simp
  obtain ⟨d', hgroup, hd'⟩ := group_of_derivation hext hs'
  suffices hd : d' = (e.pastSpaces.advance 1).extend q by
    rw [hd] at hgroup
    exact hgroup
  have hc : c.EndsAt (c.index + c.rest.length) := rfl
  exact ((reads_group reads_full hgroup).endsAt (hc.extend q)).eq (((reads_group reads_full h).endsAt hc).extend q) hd'

/-- **An expression is read alike** in a text that goes on, if no character behind it goes on with its last token. -/
theorem expression_extend {left : Expression} (h : (expression full c).result = some (left, d))
    (hq : Stops isBareChar (d.rest ++ q))
    (hcap : Captive c d → (value d.pastSpaces).result = none → (value (d.extend q).pastSpaces).result = none) :
    (expression full (c.extend q)).result = some (left, d.extend q) := by
  rcases expression_eq_some_iff.1 h with hcomp | ⟨_, inner, hg, rfl⟩
  · obtain ⟨w, op, v, hw, hc, rfl⟩ := anyComparison_eq_some_iff.1 hcomp
    exact expression_eq_some_iff.2 (.inl (anyComparison_of_compares hw (compares_extend hw hc hq hcap)))
  · exact expression_of_group (group_extend hg q)

theorem value_of_keyword {link : Connective} (h : (literal link.keyword p).result = some d) :
    (value p).result ≠ none := by
  have hrest := (spans_literal h).rest_eq
  cases link with
  | and => exact value_of_bare (by rw [hrest]; rfl) (by decide)
  | or => exact value_of_bare (by rw [hrest]; rfl) (by decide)

/-- In front of spaces and a keyword an expression is read alike, whatever follows. -/
theorem expression_extend_of_keyword {left : Expression} {link : Connective}
    (h : (expression full c).result = some (left, d)) (hsp : d.rest.head? = some ' ')
    (hp : (literal link.keyword d.pastSpaces).result = some p) (q : List Char) :
    (expression full (c.extend q)).result = some (left, d.extend q) :=
  expression_extend h (stops_of_space hsp q) fun _ hnone => absurd hnone (value_of_keyword hp)

/-! ## Statements -/

/-- A statement up to the end of the text is read alike in front of a closing parenthesis. -/
theorem full_close (h : (full c).result = some (s, d)) (hd : d.pastSpaces.rest = []) (z : List Char) :
    (full (c.extend (')' :: z))).result = some (s.shift 0, d.extend (')' :: z)) ∧
      (d.extend (')' :: z)).pastSpaces.rest = ')' :: z := by
  have hzero (e : Cursor) : e.extend (')' :: z) = e.enclose 0 z := by simp [Cursor.extend, Cursor.enclose]
  obtain ⟨u, _, hu, hs⟩ := reads_full _ _ _ h
  have hopen : Text.NoStrayOpen c.rest := by
    rw [(hs.trans d.spans_pastSpaces).rest_eq, hd, List.append_nil]
    exact (hu.append (Cursor.plain_spaces _).balanced).noStrayOpen
  rw [hzero, hzero, full_enclose hopen, h, Cursor.pastSpaces_enclose]
  refine ⟨rfl, ?_⟩
  show d.pastSpaces.rest ++ ')' :: z = _
  rw [hd]
  rfl

end SearchFilter.Grammar
