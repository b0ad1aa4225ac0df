import SearchFilter.Proofs.Grammar.Extension
import SearchFilter.Proofs.Grammar.Missing
import SearchFilter.Proofs.Grammar.Openings

/-!
# What is missing can be put there

Whatever the grammar misses at the end of a text can be written there, and with some more text behind it a statement is
read up to the end (`completable_full`). The induction is on the text ahead: what is missing in a statement inside
another one is put there first, and what the outer one needs is written behind it. What was read before stays as it was,
but for a `=` that a keyword takes from a comparison (`completable_keyword`).

* `Expectation.Allows` — the texts that an expectation stands for.
* `Completable` — what is missing can be put there.
-/

namespace SearchFilter

open Text (Mild mild_of_apart)

/-! ## Expected texts -/

/-- The scanner takes the whole text. -/
def Token.TakesAll {α : Type} (scan : Token α) (cs : List Char) : Prop := ∃ l, scan cs = some l ∧ l.length = cs.length

/-- The tokens of a class. -/
def TokenClass.Matches : TokenClass → List Char → Prop
  | space, cs => Token.spaces.TakesAll cs
  | word, cs => Token.word.TakesAll cs
  | number, cs => Token.number.TakesAll cs
  | boolean, cs => Token.boolean.TakesAll cs
  | null, cs => Token.null.TakesAll cs
  | text, cs => Token.text.TakesAll cs

/-- What can be written where `e` is expected: the text itself or a token of the class, and nothing where the end is. -/
def Expectation.Allows : Expectation → List Char → Prop
  | literal text, cs => cs = text.toList
  | token kind, cs => kind.Matches cs
  | endOfInput, _ => False

namespace Grammar

open Trial

variable {α β : Type} {c d p q : Cursor} {n : Nat} {m : Miss} {x : Expectation} {w sp sp' y z : List Char}
  {op : Operator}
  {v : Literal} {s : Statement}

/-! ## Completions -/

/-- Nothing is ahead, or a closing parenthesis. -/
def Ends (z : List Char) : Prop := ∀ x ∈ z.head?, x = ')'

theorem ends_nil : Ends [] := nofun

theorem ends_close (z : List Char) : Ends (')' :: z) := fun _ h => (Option.some.inj h).symm

theorem Ends.stops {kind : Char → Bool} (h : Ends z) (hk : kind ')' = false) : Stops kind z := fun x hx => h x hx ▸ hk

theorem Ends.closed (h : Ends z) (hd : d.pastSpaces.rest = z) : d.Closed := by
  cases z with
  | nil => exact .inl hd
  | cons x z => exact .inr (by rw [hd, h x rfl]; rfl)

theorem dropWhile_of_ends (hz : Ends z) : z.dropWhile (· == ' ') = z := by
  cases z with
  | nil => rfl
  | cons x z =>
    rw [hz x rfl]
    rfl

theorem rest_pastSpaces_of_ends (hz : Ends z) (hd : d.rest = z) : d.pastSpaces.rest = z := by
  rw [Cursor.pastSpaces_of_head, hd]
  intro hsp
  rw [hd] at hsp
  cases hz ' ' hsp

/-- At the end of a text no value is ahead. -/
theorem value_of_ends (hz : Ends p.rest) : (value p).result = none := by
  cases h : (value p).result with
  | none => rfl
  | some r =>
    obtain ⟨u, hne, hu, hs⟩ := readsPlain_value h
    obtain ⟨x, u, rfl⟩ := List.exists_cons_of_ne_nil hne
    rw [hs.rest_eq] at hz
    rw [hz x rfl] at hu
    exact absurd (List.mem_cons_self ..) hu.2

/-- What is missing at the end of the text ahead can be put there: with some more text, that opens at most one
statement, the rule reads up to the end. -/
def Completable (r : Rule α) (c : Cursor) (x : Expectation) : Prop := ∃ s t, x.Allows s ∧ Mild (s ++ t) ∧
  ∀ z, Ends z → ∃ a d, (r (c.extend (s ++ (t ++ z)))).result = some (a, d) ∧ d.pastSpaces.rest = z

theorem Completable.imp {r : Rule α} {r' : Rule β} (h : Completable r c x)
    (hr : ∀ (c d : Cursor) (a : α), (r c).result = some (a, d) → d.Closed → ∃ b, (r' c).result = some (b, d)) :
    Completable r' c x := by
  obtain ⟨s, t, hs, hm, hread⟩ := h
  refine ⟨s, t, hs, hm, fun z hz => ?_⟩
  obtain ⟨a, d, ha, hd⟩ := hread z hz
  obtain ⟨b, hb⟩ := hr _ d a ha (hz.closed hd)
  exact ⟨b, d, hb, hd⟩

theorem completable_of_rest {r : Rule α} {s t : List Char} (hs : x.Allows s) (hm : Mild (s ++ t))
    (h : ∀ z, Ends z → ∃ a d, (r (c.extend (s ++ (t ++ z)))).result = some (a, d) ∧ d.rest = z) :
    Completable r c x := by
  refine ⟨s, t, hs, hm, fun z hz => ?_⟩
  obtain ⟨a, d, ha, hd⟩ := h z hz
  exact ⟨a, d, ha, rest_pastSpaces_of_ends hz hd⟩

/-! ## Comparisons -/

theorem exists_spans {u t : List Char} (h : c.rest = u ++ t) : ∃ d, c.Spans u d ∧ d.rest = t :=
  ⟨c.advance u.length, Cursor.spans_advance h, by simp [Cursor.advance, h]⟩

theorem anyComparison_of_colon (hw : IsField w) (hy : Token.IsLiteral y v) (hz : Stops isBareChar z)
    (h : c.rest = w ++ (":".toList ++ (y ++ z))) : ∃ e d, (anyComparison c).result = some (e, d) ∧ d.rest = z := by
  obtain ⟨d, hd, hz'⟩ := exists_spans (c := c) (u := w ++ ":".toList ++ y) (t := z) (by rw [h]; simp)
  exact ⟨_, d, anyComparison_of_compares hw (compares_of_colon hy hd (hz' ▸ hz)), hz'⟩

theorem anyComparison_of_operator (op : Operator) (sp sp' : List Char) (hw : IsField w) (hop : op ≠ .has)
    (hsp : ∀ x ∈ sp, x = ' ') (hsp' : ∀ x ∈ sp', x = ' ') (hy : Token.IsLiteral y v) (hne : y.head? ≠ some '=')
    (hz : Stops isBareChar z) (h : c.rest = w ++ (sp ++ (op.symbol.toList ++ (sp' ++ (y ++ z))))) :
    ∃ e d, (anyComparison c).result = some (e, d) ∧ d.rest = z := by
  obtain ⟨d, hd, hz'⟩ := exists_spans (c := c) (u := w ++ (sp ++ op.symbol.toList) ++ (sp' ++ y)) (t := z)
    (by rw [h]; simp)
  refine ⟨_, d, anyComparison_of_compares hw (compares_of_operator hop hsp hsp' hy ?_ hd (hz' ▸ hz)), hz'⟩
  cases sp' with
  | nil => exact hne
  | cons x sp' =>
    rw [hsp' x (.head _)]
    nofun

/-- A literal that may be written where a value is missing. -/
structure IsSample (y : List Char) (v : Literal) : Prop where
  isLiteral : Token.IsLiteral y v
  mild : Mild y
  head_ne : y.head? ≠ some '='

theorem isSample_one : IsSample ['1'] (.number 1) where
  isLiteral := Token.IsLiteral.number (by decide) (List.forall_mem_singleton.2 rfl) (by decide)
  mild := mild_of_apart (by decide) (by decide)
  head_ne := by decide

theorem isSample_keyword (link : Connective) :
    IsSample link.keyword.toList (.text (String.ofList link.keyword.toList)) where
  isLiteral :=
    .bare link.keyword_ne_nil (by cases link <;> exact List.all_eq_true.1 (by decide)) (by cases link <;> rfl)
    (by cases link <;> rfl) (by cases link <;> rfl)
  mild := by cases link <;> exact mild_of_apart (by decide) (by decide)
  head_ne := by cases link <;> decide

/-- Every class of literals has one. -/
theorem exists_sample (h : m ∈ (value c).misses) :
    m.index = c.index ∧ ∃ y v, IsSample y v ∧ m.expectation.Allows y := by
  have htoken {β : Type} {kind : TokenClass} {scan : Token β} {f : β × Cursor → Literal × Cursor}
      (h : m ∈ (token kind scan c >>= fun p => Pure.pure (f p)).misses) : m = ⟨c.index, .token kind⟩ := by
    rcases mem_misses_bind h with h | ⟨a, _, h⟩
    · exact eq_of_mem_token h
    · cases h
  rcases mem_misses_orElse h with h | ⟨_, h⟩
  · obtain rfl := htoken h
    exact ⟨rfl, ['1'], _, isSample_one, _, rfl, rfl⟩
  rcases mem_misses_orElse h with h | ⟨_, h⟩
  · obtain rfl := htoken h
    have hsample : IsSample "true".toList (.boolean true) :=
      ⟨.boolean true, mild_of_apart (by decide) (by decide), by decide⟩
    exact ⟨rfl, _, _, hsample, _, rfl, rfl⟩
  rcases mem_misses_orElse h with h | ⟨_, h⟩
  · obtain rfl := htoken h
    have hsample : IsSample "null".toList .null := ⟨.null, mild_of_apart (by decide) (by decide), by decide⟩
    exact ⟨rfl, _, _, hsample, _, rfl, rfl⟩
  · obtain rfl := htoken h
    have hx : Token.IsLiteral ['x'] (.text (String.ofList ['x'])) :=
      .bare (by decide) (List.forall_mem_singleton.2 rfl) rfl rfl rfl
    exact ⟨rfl, ['x'], _, ⟨hx, mild_of_apart (by decide) (by decide), by decide⟩, _, rfl, rfl⟩

theorem isField_a : IsField ['a'] := ⟨by decide, List.forall_mem_singleton.2 rfl⟩

theorem completable_word (hc : c.rest = []) : Completable anyComparison c (.token .word) := by
  have hmild : Text.Mild (['a'] ++ ":1".toList) := mild_of_apart (by decide) (by decide)
  refine completable_of_rest ⟨_, rfl, rfl⟩ hmild fun z hz => ?_
  refine anyComparison_of_colon isField_a isSample_one.isLiteral (hz.stops (by decide)) ?_
  show c.rest ++ _ = _
  rw [hc]
  rfl

theorem completable_hasComparison (hc : c.EndsAt n) (hm : m ∈ (hasComparison c).misses) (hi : m.index = n) :
    Completable anyComparison c m.expectation := by
  rcases mem_misses_bind hm with h | ⟨⟨field, c₁⟩, h₁, hm⟩
  · obtain rfl := eq_of_mem_token h
    exact completable_word (rest_eq_nil hc hi)
  obtain ⟨w, hw, hs, _, _⟩ := isField_of_token h₁
  have hc₁ := hs.endsAt hc
  rcases mem_misses_bind hm with h | ⟨c₂, h₂, hm⟩
  · obtain rfl := eq_of_mem_literal h
    have hnil := rest_eq_nil hc₁ hi
    refine completable_of_rest (t := ['1']) rfl (mild_of_apart (by decide) (by decide)) fun z hz => ?_
    refine anyComparison_of_colon hw isSample_one.isLiteral (hz.stops (by decide)) ?_
    show c.rest ++ _ = _
    rw [hs.rest_eq, hnil, List.append_nil]
  have hs₂ := spans_literal h₂
  rcases mem_misses_bind hm with h | ⟨_, _, h⟩
  · obtain ⟨hindex, y, v, hy, hallows⟩ := exists_sample h
    have hnil := rest_eq_nil (hs₂.endsAt hc₁) (hindex.symm.trans hi)
    refine completable_of_rest (t := []) hallows (by rw [List.append_nil]; exact hy.mild) fun z hz => ?_
    refine anyComparison_of_colon hw hy.isLiteral (hz.stops (by decide)) ?_
    show c.rest ++ _ = _
    rw [hs.rest_eq, hs₂.rest_eq, hnil, List.append_nil, List.append_assoc, List.nil_append]
  · cases h

theorem completable_comparison (hop : op ≠ .has) (hc : c.EndsAt n) (hm : m ∈ (comparison op c).misses)
    (hi : m.index = n) : Completable anyComparison c m.expectation := by
  rcases mem_misses_bind hm with h | ⟨⟨field, c₁⟩, h₁, hm⟩
  · obtain rfl := eq_of_mem_token h
    exact completable_word (rest_eq_nil hc hi)
  obtain ⟨w, hw, hs₁, _, _⟩ := isField_of_token h₁
  have hs₂ := c₁.spans_pastSpaces
  have hsp := eq_space_of_mem c₁
  have hc₂ := hs₂.endsAt (hs₁.endsAt hc)
  generalize c₁.rest.takeWhile (· == ' ') = sp at hs₂ hsp
  rcases mem_misses_bind hm with h | ⟨_, h₂, hm⟩
  · -- a space in front of the operator
    obtain rfl := eq_of_mem_anySpaces h
    have hnil := rest_eq_nil hc₂ hi
    refine completable_of_rest (s := [' ']) (t := "=1".toList) ⟨_, rfl, rfl⟩ (mild_of_apart (by decide) (by decide))
      fun z hz => ?_
    refine anyComparison_of_operator .equals (sp ++ [' ']) [] hw (by decide) (isSpaces_append_one hsp).forall_mem nofun
      isSample_one.isLiteral isSample_one.head_ne (hz.stops (by decide)) ?_
    show c.rest ++ _ = _
    rw [hs₁.rest_eq, hs₂.rest_eq, hnil]
    simp [Operator.symbol]
  obtain rfl := anySpaces_eq_some_iff.1 h₂
  rcases mem_misses_bind hm with h | ⟨c₃, h₃, hm⟩
  · -- the operator
    obtain rfl := eq_of_mem_literal h
    have hnil := rest_eq_nil hc₂ hi
    have hmild : Text.Mild (op.symbol.toList ++ ['1']) := by cases op <;> exact mild_of_apart (by decide) (by decide)
    refine completable_of_rest rfl hmild fun z hz => ?_
    refine anyComparison_of_operator op sp [] hw hop hsp nofun isSample_one.isLiteral isSample_one.head_ne
      (hz.stops (by decide)) ?_
    show c.rest ++ _ = _
    rw [hs₁.rest_eq, hs₂.rest_eq, hnil]
    simp
  have hs₃ := spans_literal h₃
  have hs₄ := c₃.spans_pastSpaces
  have hsp' := eq_space_of_mem c₃
  have hc₄ := hs₄.endsAt (hs₃.endsAt hc₂)
  generalize c₃.rest.takeWhile (· == ' ') = sp' at hs₄ hsp'
  rcases mem_misses_bind hm with h | ⟨_, h₄, hm⟩
  · -- a space in front of the value
    obtain rfl := eq_of_mem_anySpaces h
    have hnil := rest_eq_nil hc₄ hi
    have hmild : Text.Mild ([' '] ++ ['1']) := mild_of_apart (by decide) (by decide)
    refine completable_of_rest ⟨_, rfl, rfl⟩ hmild fun z hz => ?_
    refine anyComparison_of_operator op sp (sp' ++ [' ']) hw hop hsp (isSpaces_append_one hsp').forall_mem
      isSample_one.isLiteral isSample_one.head_ne (hz.stops (by decide)) ?_
    show c.rest ++ _ = _
    rw [hs₁.rest_eq, hs₂.rest_eq, hs₃.rest_eq, hs₄.rest_eq, hnil]
    simp
  obtain rfl := anySpaces_eq_some_iff.1 h₄
  rcases mem_misses_bind hm with h | ⟨_, _, h⟩
  · obtain ⟨hindex, y, v, hy, hallows⟩ := exists_sample h
    have hnil := rest_eq_nil hc₄ (hindex.symm.trans hi)
    refine completable_of_rest (t := []) hallows (by rw [List.append_nil]; exact hy.mild) fun z hz => ?_
    refine anyComparison_of_operator op sp sp' hw hop hsp hsp' hy.isLiteral hy.head_ne (hz.stops (by decide)) ?_
    show c.rest ++ _ = _
    rw [hs₁.rest_eq, hs₂.rest_eq, hs₃.rest_eq, hs₄.rest_eq, hnil]
    simp
  · cases h

/-- What is missing in a comparison can be put there. -/
theorem completable_anyComparison (hc : c.EndsAt n) (hm : m ∈ (anyComparison c).misses) (hi : m.index = n) :
    Completable anyComparison c m.expectation := by
  rcases mem_misses_orElse hm with h | ⟨_, h⟩
  · exact completable_hasComparison hc h hi
  rcases mem_misses_orElse h with h | ⟨_, h⟩
  · exact completable_comparison (by decide) hc h hi
  rcases mem_misses_orElse h with h | ⟨_, h⟩
  · exact completable_comparison (by decide) hc h hi
  rcases mem_misses_orElse h with h | ⟨_, h⟩
  · exact completable_comparison (by decide) hc h hi
  rcases mem_misses_orElse h with h | ⟨_, h⟩
  · exact completable_comparison (by decide) hc h hi
  · exact completable_comparison (by decide) hc h hi

/-! ## Texts that complete a statement -/

/-- The statement that is written where any is missing. -/
theorem exists_full (hz : Ends z) (h : c.rest = "a:1".toList ++ z) :
    ∃ s d, (full c).result = some (s, d) ∧ d.rest = z := by
  obtain ⟨e, d, he, hd⟩ := anyComparison_of_colon (c := c) isField_a isSample_one.isLiteral (hz.stops (by decide)) h
  exact ⟨_, d, full_of_closed (expression_eq_some_iff.2 (.inl he)) (hz.closed (rest_pastSpaces_of_ends hz hd)), hd⟩

theorem exists_group (hsp : ∀ x ∈ sp, x = ' ') (hs : c.Spans ('(' :: sp) p)
    (h : (full p).result = some (s, q)) (hq : q.pastSpaces.rest = ')' :: z) :
    ∃ d, (group full c).result = some (s, d) ∧ d.rest = z := by
  refine ⟨_, group_of_spans hsp hs (head_of_full h) h (by rw [hq]; rfl), ?_⟩
  show q.pastSpaces.rest.drop 1 = z
  rw [hq]
  rfl

theorem exists_group_of_rest (sp : List Char) (hsp : ∀ x ∈ sp, x = ' ')
    (h : c.rest = '(' :: (sp ++ ("a:1)".toList ++ z))) : ∃ s d, (group full c).result = some (s, d) ∧ d.rest = z := by
  obtain ⟨p, hp, hrest⟩ := exists_spans (c := c) (u := '(' :: sp) (t := "a:1".toList ++ ')' :: z) (by rw [h]; simp)
  obtain ⟨s, q, hs, hq⟩ := exists_full (ends_close z) hrest
  exact ⟨s, exists_group hsp hp hs (rest_pastSpaces_of_ends (ends_close z) hq)⟩

theorem full_of_not (hsp : IsSpaces sp) (hs : c.Spans ("NOT".toList ++ sp) p)
    (h : (full p).result = some (s, q)) : (full c).result = some (.not c.index s, q) :=
  full_of_negated (negated_of_spans hsp hs (head_of_full h) h)

theorem exists_full_of_not (hsp : IsSpaces sp) (hz : Ends z)
    (h : c.rest = "NOT".toList ++ (sp ++ ("a:1".toList ++ z))) : ∃ s d, (full c).result = some (s, d) ∧ d.rest = z := by
  obtain ⟨p, hp, hrest⟩ := exists_spans (c := c) (u := "NOT".toList ++ sp) (t := "a:1".toList ++ z)
    (by rw [h, List.append_assoc])
  obtain ⟨s, q, hs, hq⟩ := exists_full hz hrest
  exact ⟨_, q, full_of_not hsp hp hs, hq⟩

theorem exists_full_of_joined {left : Expression} (hleft : (expression full c).result = some (left, d))
    (hsp : IsSpaces sp) (link : Connective) (hsp' : IsSpaces sp') (hz : Ends z)
    (h : d.rest = sp ++ (link.keyword.toList ++ (sp' ++ ("a:1".toList ++ z)))) :
    ∃ s e, (full c).result = some (s, e) ∧ e.rest = z := by
  obtain ⟨p, hp, hrest⟩ := exists_spans (c := d) (u := sp ++ link.keyword.toList ++ sp') (t := "a:1".toList ++ z)
    (by rw [h, List.append_assoc, List.append_assoc])
  obtain ⟨s, q, hs, hq⟩ := exists_full hz hrest
  exact ⟨_, q, full_of_joined hleft (connective_of_spans hsp hsp' hp (head_of_full hs)) hs, hq⟩

/-! ## Statements -/

/-- What can be read in parentheses can be read. -/
theorem Completable.of_group (h : Completable (group full) c x) : Completable full c x :=
  h.imp fun _ _ _ hs hd => ⟨_, full_of_closed (expression_of_group hs) hd⟩

section

variable (hc : c.EndsAt n) (hm : m.index = n)
  (hi : ∀ d : Cursor, d.rest.length < c.rest.length → d.EndsAt n → m ∈ (full d).misses →
    Completable full d m.expectation)

include hc hm hi

theorem completable_group (h : m ∈ (group full c).misses) : Completable (group full) c m.expectation := by
  rcases mem_misses_bind h with h | ⟨c₁, h₁, h⟩
  · -- the opening parenthesis
    obtain rfl := eq_of_mem_literal h
    have hnil := rest_eq_nil hc hm
    refine completable_of_rest (t := "a:1)".toList) rfl (mild_of_apart (by decide) (by decide)) fun z _ => ?_
    refine exists_group_of_rest [] nofun ?_
    show c.rest ++ _ = _
    rw [hnil]
    rfl
  have hs₁ := spans_literal h₁
  have hs₂ := c₁.spans_pastSpaces
  have hsp := eq_space_of_mem c₁
  have hc₂ := hs₂.endsAt (hs₁.endsAt hc)
  have hlt := hs₁.length_lt (by decide)
  have hlt' := length_pastSpaces_le c₁
  generalize c₁.rest.takeWhile (· == ' ') = sp at hs₂ hsp
  have hs : c.Spans ('(' :: sp) c₁.pastSpaces := hs₁.trans hs₂
  -- a statement that can be completed is closed behind that
  have hinner (h : m ∈ (full c₁.pastSpaces).misses) : Completable (group full) c m.expectation := by
    obtain ⟨s, t, hallows, hmild, hread⟩ := hi _ (by omega) hc₂ h
    have hclosed : Text.Mild (s ++ (t ++ [')'])) := by
      rw [← List.append_assoc]
      exact hmild.append_close
    refine completable_of_rest hallows hclosed fun z _ => ?_
    obtain ⟨a, d, ha, hd⟩ := hread (')' :: z) (ends_close z)
    rw [List.append_assoc]
    exact ⟨a, exists_group hsp (hs.extend _) ha hd⟩
  rcases mem_misses_bind h with h | ⟨c₂, h₂, h⟩
  · -- a space behind it
    obtain rfl := eq_of_mem_anySpaces h
    have hnil := rest_eq_nil hc₂ hm
    refine completable_of_rest (s := [' ']) (t := "a:1)".toList) ⟨_, rfl, rfl⟩ (mild_of_apart (by decide) (by decide))
      fun z _ => ?_
    refine exists_group_of_rest (sp ++ [' ']) (isSpaces_append_one hsp).forall_mem ?_
    show c.rest ++ _ = _
    rw [hs.rest_eq, hnil]
    simp
  obtain rfl := anySpaces_eq_some_iff.1 h₂
  rcases mem_misses_bind h with h | ⟨⟨s, c₃⟩, h₃, h⟩
  · exact hinner h
  have hc₃ := c₃.spans_pastSpaces.endsAt ((reads_full _ _ _ h₃).endsAt hc₂)
  rcases mem_misses_bind h with h | ⟨c₄, h₄, h⟩
  · -- a space in front of the closing parenthesis
    have hmiss := eq_of_mem_anySpaces h
    have hnil := rest_eq_nil hc₃ (by rw [← hm, hmiss])
    refine hinner ?_
    have hspace := space_mem_misses_full hc₂ h₃ hnil
    rwa [← hm, show (⟨m.index, .token .space⟩ : Miss) = m by rw [hmiss]] at hspace
  obtain rfl := anySpaces_eq_some_iff.1 h₄
  rcases mem_misses_bind h with h | ⟨_, _, h⟩
  · -- the closing parenthesis
    obtain rfl := eq_of_mem_literal h
    have hnil := rest_eq_nil hc₃ hm
    refine completable_of_rest (t := []) rfl (mild_of_apart (by decide) (by decide)) fun z _ => ?_
    have hread := full_close h₃ hnil z
    exact ⟨_, exists_group hsp (hs.extend (')' :: z)) hread.1 hread.2⟩
  · cases h

theorem completable_expression (h : m ∈ (expression full c).misses) : Completable full c m.expectation := by
  rw [expression_eq] at h
  rcases mem_misses_orElse h with h | ⟨_, h⟩
  · exact (completable_anyComparison hc h hm).imp fun _ _ _ he hd =>
      ⟨_, full_of_closed (expression_eq_some_iff.2 (.inl he)) hd⟩
  · rcases mem_misses_bind h with h | ⟨_, _, h⟩
    · exact (completable_group hc hm hi h).of_group
    · cases h

omit hc hm hi in
/-- A keyword behind spaces. -/
theorem completable_keyword {left : Expression} (link : Connective) (h : (expression full c).result = some (left, d))
    (hsp : d.rest.head? = some ' ') (hd : d.pastSpaces.rest = []) : Completable full c (.literal link.keyword) := by
  have hspaces : IsSpaces d.rest := ⟨fun hnil => (by rw [hnil] at hsp; cases hsp), eq_space_of_rest hd⟩
  by_cases hcap : Captive c d
  · -- the operator in front of the spaces takes the keyword for a text
    obtain ⟨w, op, sp, hw, hop, hsp', hs⟩ := hcap
    have hmild : Text.Mild (link.keyword.toList ++ []) := by cases link <;> exact mild_of_apart (by decide) (by decide)
    refine completable_of_rest rfl hmild fun z hz => ?_
    obtain ⟨e, d', he, hd'⟩ := @anyComparison_of_operator (c.extend (link.keyword.toList ++ z)) w link.keyword.toList z
      _ op.wide sp d.rest hw (by rcases hop with rfl | rfl <;> decide) hsp' hspaces.forall_mem
      (isSample_keyword link).isLiteral (isSample_keyword link).head_ne (hz.stops (by decide)) (by
        show c.rest ++ _ = _
        rw [hs.rest_eq]
        simp)
    exact ⟨_, d', full_of_closed (expression_eq_some_iff.2 (.inl he)) (hz.closed (rest_pastSpaces_of_ends hz hd')), hd'⟩
  · refine completable_of_rest (t := " a:1".toList) rfl
      (by cases link <;> exact mild_of_apart (by decide) (by decide)) fun z hz => ?_
    have hleft := expression_extend h (stops_of_space hsp (link.keyword.toList ++ (" a:1".toList ++ z)))
      fun hcap' => absurd hcap' hcap
    refine exists_full_of_joined hleft hspaces link isSpaces_one hz ?_
    show d.rest ++ _ = _
    simp

theorem completable_continuation {left : Expression} (h : (expression full c).result = some (left, d))
    (h' : m ∈ (continuation d).misses) : Completable full c m.expectation := by
  have hr := reads_expression reads_full h
  have hd := hr.endsAt hc
  have hd' := d.spans_pastSpaces.endsAt hd
  rcases mem_misses_continuation h' with h' | ⟨link, c₁, hlink, h'⟩
  · rcases mem_misses_connective h' with rfl | ⟨hsp, link, rfl | ⟨p, hp, rfl⟩⟩
    · -- a space behind the expression
      have hnil := rest_eq_nil hd' hm
      refine ⟨[' '], [], ⟨_, rfl, rfl⟩, mild_of_apart (by decide) (by decide), fun z hz => ?_⟩
      have hpast : (d.extend (' ' :: z)).pastSpaces.rest = z := by
        rw [rest_pastSpaces_extend hnil, List.dropWhile_cons_of_pos rfl, dropWhile_of_ends hz]
      have hstops : Stops isBareChar (d.rest ++ ' ' :: z) := by
        have hspaces := isSpaces_append_one (eq_space_of_rest hnil)
        rw [List.append_cons]
        exact stops_of_space hspaces.head_eq z
      have hleft := expression_extend h hstops fun _ _ => value_of_ends (by rwa [hpast])
      exact ⟨_, _, full_of_closed hleft (hz.closed hpast), hpast⟩
    · exact completable_keyword link h hsp (rest_eq_nil hd' hm)
    · -- a space behind the keyword
      have hs := spans_literal hp
      have hnil := rest_eq_nil (p.spans_pastSpaces.endsAt (hs.endsAt hd')) hm
      refine completable_of_rest (s := [' ']) (t := "a:1".toList) ⟨_, rfl, rfl⟩ (mild_of_apart (by decide) (by decide))
        fun z hz => ?_
      have hleft := expression_extend_of_keyword h hsp hp ([' '] ++ ("a:1".toList ++ z))
      refine exists_full_of_joined hleft (isSpaces_of_head hsp) link (isSpaces_append_one (eq_space_of_mem p)) hz ?_
      show d.rest ++ _ = _
      conv_lhs => rw [(d.spans_pastSpaces.trans (hs.trans p.spans_pastSpaces)).rest_eq, hnil]
      simp
  · -- in the statement behind the connective
    have hr₁ := hr.trans (readsPlain_connective hlink).reads
    obtain ⟨s, t, hallows, hmild, hread⟩ := hi c₁ hr₁.length_lt (hr₁.endsAt hc) h'
    obtain ⟨hsp, p, hp, _⟩ := connective_eq_some_iff.1 hlink
    obtain ⟨sp, sp', hspaces, hspaces', hs⟩ := spans_of_connective hlink
    refine ⟨s, t, hallows, hmild, fun z hz => ?_⟩
    obtain ⟨right, e, hright, he⟩ := hread z hz
    have hleft := expression_extend_of_keyword h hsp hp (s ++ (t ++ z))
    have hlink' := connective_of_spans hspaces hspaces' (hs.extend (s ++ (t ++ z))) (head_of_full hright)
    exact ⟨_, e, full_of_joined hleft hlink' hright, he⟩

theorem completable_negated (h : m ∈ (negated full c).misses) : Completable full c m.expectation := by
  rcases mem_misses_bind h with h | ⟨c₁, h₁, h⟩
  · obtain rfl := eq_of_mem_literal h
    have hnil := rest_eq_nil hc hm
    refine completable_of_rest (t := " a:1".toList) rfl (mild_of_apart (by decide) (by decide)) fun z hz => ?_
    refine exists_full_of_not isSpaces_one hz ?_
    show c.rest ++ _ = _
    rw [hnil]
    rfl
  have hs₁ := spans_literal h₁
  have hs₂ := c₁.spans_pastSpaces
  have hc₂ := hs₂.endsAt (hs₁.endsAt hc)
  rcases mem_misses_bind h with h | ⟨c₂, h₂, h⟩
  · -- a space behind `NOT`
    obtain rfl := eq_of_mem_someSpaces h
    have hnil := rest_eq_nil hc₂ hm
    refine completable_of_rest (s := [' ']) (t := "a:1".toList) ⟨_, rfl, rfl⟩ (mild_of_apart (by decide) (by decide))
      fun z hz => ?_
    refine exists_full_of_not (isSpaces_append_one (eq_space_of_mem c₁)) hz ?_
    show c.rest ++ _ = _
    rw [(hs₁.trans hs₂).rest_eq, hnil]
    simp
  obtain ⟨hsp, rfl⟩ := someSpaces_eq_some_iff.1 h₂
  rcases mem_misses_bind h with h | ⟨_, _, h⟩
  · have hlt := hs₁.length_lt (by decide)
    have hle := length_pastSpaces_le c₁
    obtain ⟨s, t, hallows, hmild, hread⟩ := hi _ (by omega) hc₂ h
    refine ⟨s, t, hallows, hmild, fun z hz => ?_⟩
    obtain ⟨operand, e, hoperand, he⟩ := hread z hz
    exact ⟨_, e, full_of_not (isSpaces_of_head hsp) ((hs₁.trans hs₂).extend _) hoperand, he⟩
  · cases h

end

/-- **What is missing at the end of a statement can be put there**, and with some more text behind it the statement is
read up to the end. -/
theorem completable_full (hc : c.EndsAt n) (h : m ∈ (full c).misses) (hm : m.index = n) :
    Completable full c m.expectation := by
  induction c using Cursor.induction_rest with
  | _ c ih =>
  have hi : ∀ d : Cursor, d.rest.length < c.rest.length → d.EndsAt n → m ∈ (full d).misses →
      Completable full d m.expectation := ih
  rcases mem_misses_factored ((mem_misses_full_iff hc hm).1 h) with h | ⟨left, d, hd, h⟩ | h
  · exact completable_expression hc hm hi h
  · exact completable_continuation hc hm hi hd h
  · exact completable_negated hc hm hi h

/-! ## Whole texts -/

theorem completable_spaced (hc : c.EndsAt n) (h : m ∈ (spaced c).misses) (hm : m.index = n) :
    Completable spaced c m.expectation := by
  have hc' := c.spans_pastSpaces.endsAt hc
  have hfull (h : Completable full c.pastSpaces m.expectation) : Completable spaced c m.expectation := by
    obtain ⟨s, t, hallows, hmild, hread⟩ := h
    refine ⟨s, t, hallows, hmild, fun z hz => ?_⟩
    obtain ⟨a, d, ha, hd⟩ := hread z hz
    have hpast := pastSpaces_extend_of_head (head_of_full ha)
    exact ⟨a, _, spaced_eq_some_iff.2 ⟨d, by rwa [hpast], rfl⟩, by rwa [Cursor.pastSpaces_pastSpaces]⟩
  rcases mem_misses_bind h with h | ⟨_, h₁, h⟩
  · -- a space in front of everything
    obtain rfl := eq_of_mem_anySpaces h
    refine ⟨[' '], "a:1".toList, ⟨_, rfl, rfl⟩, mild_of_apart (by decide) (by decide), fun z hz => ?_⟩
    obtain ⟨s, d, hs, hd⟩ := @exists_full (c.extend ([' '] ++ ("a:1".toList ++ z))).pastSpaces z hz
      (rest_pastSpaces_extend (rest_eq_nil hc' hm) _)
    refine ⟨s, _, spaced_eq_some_iff.2 ⟨d, hs, rfl⟩, ?_⟩
    rw [Cursor.pastSpaces_pastSpaces]
    exact rest_pastSpaces_of_ends hz hd
  obtain rfl := anySpaces_eq_some_iff.1 h₁
  rcases mem_misses_bind h with h | ⟨⟨s, d⟩, h₂, h⟩
  · rcases mem_misses_orElse h with h | ⟨_, h⟩
    · exact hfull (completable_full hc' h hm)
    · exact hfull (completable_group hc' hm (fun d _ hd h => completable_full hd h hm) h).of_group
  rcases mem_misses_bind h with h | ⟨_, _, h⟩
  · -- a space behind everything
    obtain rfl := eq_of_mem_anySpaces h
    have hs := block_eq_some_iff.1 h₂
    have hends := d.spans_pastSpaces.endsAt ((reads_full _ _ _ hs).endsAt hc')
    have hmem := space_mem_misses_full hc' hs (rest_eq_nil hends hm)
    rw [← hm] at hmem
    exact hfull (completable_full hc' hmem hm)
  · cases h

end Grammar

end SearchFilter
