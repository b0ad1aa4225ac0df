import SearchFilter.Filter.Grammar
import SearchFilter.Proofs.Parentheses

/-!
# What the rules of the grammar read

A rule that succeeds reads some text, and never none but where only spaces are asked for (`Cursor.Spans`). Tokens,
operators and keywords have no parentheses in them (`reads_anyComparison`), so that a statement reads parentheses in
pairs (`reads_statement`).

* `someSpaces_eq`, `expression_eq`, `group_eq_some_iff`, `joined_eq_some_iff` — the rules as equations.
* `within_derivation` — nothing is missing behind the end of the text.
-/

namespace SearchFilter

open Text (Plain Balanced)

/-! ## Places -/

theorem drop_length_takeWhile (kind : Char → Bool) (cs : List Char) :
    cs.drop (cs.takeWhile kind).length = cs.dropWhile kind := by
  have h := congrArg (List.drop (cs.takeWhile kind).length) (List.takeWhile_append_dropWhile (p := kind) (l := cs))
  rw [List.drop_left] at h
  exact h.symm

namespace Cursor

/-- Between `c` and `d` stands the text `u`. -/
structure Spans (c : Cursor) (u : List Char) (d : Cursor) : Prop where
  rest_eq : c.rest = u ++ d.rest
  index_eq : d.index = c.index + u.length

/-- The place behind the spaces ahead. -/
def pastSpaces (c : Cursor) : Cursor := c.advance (c.rest.takeWhile (· == ' ')).length

variable {c d e : Cursor} {u v : List Char}

theorem Spans.trans (h : c.Spans u d) (h' : d.Spans v e) : c.Spans (u ++ v) e where
  rest_eq := by rw [h.rest_eq, h'.rest_eq, List.append_assoc]
  index_eq := by rw [h'.index_eq, h.index_eq, List.length_append, Nat.add_assoc]

theorem Spans.length_eq (h : c.Spans u d) : c.rest.length = u.length + d.rest.length := by
  rw [h.rest_eq, List.length_append]

theorem spans_advance (h : c.rest = u ++ v) : c.Spans u (c.advance u.length) where
  rest_eq := by simp [advance, h]
  index_eq := rfl

theorem Spans.length_lt (h : c.Spans u d) (hu : u ≠ []) : d.rest.length < c.rest.length := by
  have := h.length_eq
  have := List.length_pos_of_ne_nil hu
  omega

theorem Spans.index_lt (h : c.Spans u d) (hu : u ≠ []) : c.index < d.index := by
  have := h.index_eq
  have := List.length_pos_of_ne_nil hu
  omega

theorem rest_pastSpaces (c : Cursor) : c.pastSpaces.rest = c.rest.dropWhile (· == ' ') :=
  drop_length_takeWhile (· == ' ') c.rest

/-- Only spaces stand before the place behind the spaces. -/
theorem spans_pastSpaces (c : Cursor) : c.Spans (c.rest.takeWhile (· == ' ')) c.pastSpaces :=
  spans_advance (List.takeWhile_append_dropWhile (p := (· == ' '))).symm

theorem plain_spaces (cs : List Char) : Plain (cs.takeWhile (· == ' ')) :=
  Text.plain_of_forall (by decide) (by decide) fun _ h => List.mem_takeWhile_imp h

theorem pastSpaces_of_head (h : c.rest.head? ≠ some ' ') : c.pastSpaces = c := by
  obtain ⟨index, _ | ⟨x, rest⟩⟩ := c
  · rfl
  · have hx : (x == ' ') = false := by simpa using h
    simp [pastSpaces, advance, hx]

theorem head_pastSpaces (c : Cursor) : c.pastSpaces.rest.head? ≠ some ' ' := by
  intro h
  rw [rest_pastSpaces] at h
  have := List.head?_dropWhile_not (· == ' ') c.rest
  rw [h] at this
  simp at this

theorem pastSpaces_pastSpaces (c : Cursor) : c.pastSpaces.pastSpaces = c.pastSpaces :=
  pastSpaces_of_head c.head_pastSpaces

/-- Nothing but spaces stands before the end of the text or a closing parenthesis. -/
def Closed (c : Cursor) : Prop := c.pastSpaces.rest = [] ∨ c.pastSpaces.rest.head? = some ')'

/-- The text ahead ends at place number `n`. -/
def EndsAt (c : Cursor) (n : Nat) : Prop := c.index + c.rest.length = n

theorem Spans.endsAt {n : Nat} (h : c.Spans u d) (hc : c.EndsAt n) : d.EndsAt n := by
  have hi := h.index_eq
  have hl := h.length_eq
  unfold EndsAt at hc ⊢
  omega

/-- Induction on how much text is ahead. -/
@[elab_as_elim]
theorem induction_rest {P : Cursor → Prop} (c : Cursor)
    (h : ∀ c : Cursor, (∀ d : Cursor, d.rest.length < c.rest.length → P d) → P c) : P c := by
  generalize hn : c.rest.length = n
  induction n using Nat.strongRecOn generalizing c with
  | _ n ih => exact h c fun d hd => ih d.rest.length (hn ▸ hd) d rfl

/-- Places of one text with the same text ahead are the same. -/
theorem EndsAt.eq {n : Nat} (hc : c.EndsAt n) (hd : d.EndsAt n) (h : c.rest = d.rest) : c = d := by
  obtain ⟨i, cs⟩ := c
  obtain ⟨j, ds⟩ := d
  obtain rfl : cs = ds := h
  obtain rfl : i = j := Nat.add_right_cancel (Eq.trans hc (Eq.symm hd))
  rfl

/-- Between `c` and `d` stands some text without parentheses. -/
def ReadsPlain (c d : Cursor) : Prop := ∃ u, u ≠ [] ∧ Plain u ∧ c.Spans u d

/-- Between `c` and `d` stands some text with balanced parentheses. -/
def Reads (c d : Cursor) : Prop := ∃ u, u ≠ [] ∧ Balanced u ∧ c.Spans u d

theorem ReadsPlain.reads (h : c.ReadsPlain d) : c.Reads d := by
  obtain ⟨u, hu, hp, hs⟩ := h
  exact ⟨u, hu, hp.balanced, hs⟩

theorem ReadsPlain.trans (h : c.ReadsPlain d) (h' : d.ReadsPlain e) : c.ReadsPlain e := by
  obtain ⟨u, hu, hp, hs⟩ := h
  obtain ⟨v, _, hp', hs'⟩ := h'
  exact ⟨u ++ v, List.append_ne_nil_of_left_ne_nil hu v, hp.append hp', hs.trans hs'⟩

theorem ReadsPlain.pastSpaces (h : c.ReadsPlain d) : c.ReadsPlain d.pastSpaces := by
  obtain ⟨u, hu, hp, hs⟩ := h
  exact ⟨_, List.append_ne_nil_of_left_ne_nil hu _, hp.append (plain_spaces _), hs.trans d.spans_pastSpaces⟩

theorem Reads.trans (h : c.Reads d) (h' : d.Reads e) : c.Reads e := by
  obtain ⟨u, hu, hb, hs⟩ := h
  obtain ⟨v, _, hb', hs'⟩ := h'
  exact ⟨u ++ v, List.append_ne_nil_of_left_ne_nil hu v, hb.append hb', hs.trans hs'⟩

theorem Reads.endsAt {n : Nat} (h : c.Reads d) (hc : c.EndsAt n) : d.EndsAt n := by
  obtain ⟨u, _, _, hs⟩ := h
  exact hs.endsAt hc

theorem Reads.length_lt (h : c.Reads d) : d.rest.length < c.rest.length := by
  obtain ⟨u, hu, _, hs⟩ := h
  exact hs.length_lt hu

theorem Reads.index_lt (h : c.Reads d) : c.index < d.index := by
  obtain ⟨u, hu, _, hs⟩ := h
  exact hs.index_lt hu

end Cursor

/-! ## Tokens -/

namespace Token

variable {α : Type}

/-- A scanner that takes some characters at the head, no parenthesis among them. -/
def Takes (scan : Token α) : Prop := ∀ cs t, scan cs = some t →
  ∃ u v, cs = u ++ v ∧ t.length = u.length ∧ u ≠ [] ∧ Plain u

theorem takes_run {kind : Char → Bool} (ho : kind '(' = false) (hc : kind ')' = false) : Takes (run kind) := by
  intro cs t h
  obtain ⟨hv, hne, hl⟩ := run_eq_some_iff.1 h
  refine ⟨cs.takeWhile kind, cs.dropWhile kind, List.takeWhile_append_dropWhile.symm, by rw [hl, hv], hv ▸ hne, ?_⟩
  exact Text.plain_of_forall ho hc fun _ h => List.mem_takeWhile_imp h

theorem Takes.map {scan : Token α} {β : Type} (h : Takes scan) (f : Lexeme α → Lexeme β)
    (hf : ∀ t, (f t).length = t.length) : Takes fun cs => (scan cs).map f := by
  intro cs t ht
  obtain ⟨t, hs, rfl⟩ := Option.map_eq_some_iff.1 ht
  rw [hf]
  exact h cs t hs

theorem takes_fixed {word : String} (value : α) (hne : word.toList ≠ []) (hp : Plain word.toList) :
    Takes (fixed word value) := by
  intro cs t h
  unfold fixed at h
  split at h
  · next hw =>
    obtain ⟨v, rfl⟩ := List.isPrefixOf_iff_prefix.1 hw
    cases h
    exact ⟨word.toList, v, rfl, String.length_toList.symm, hne, hp⟩
  · cases h

theorem takes_word : Takes word := (takes_run (by decide) (by decide)).map _ fun _ => rfl

theorem takes_spaces : Takes spaces := (takes_run (by decide) (by decide)).map _ fun _ => rfl

theorem takes_number : Takes number := by
  intro cs t h
  unfold number at h
  split at h
  · cases h
  · next digits hd =>
    simp only at h
    split at h
    · cases h
      exact takes_run (by decide) (by decide) cs digits hd
    · cases h

theorem takes_boolean : Takes boolean := by
  intro cs t h
  rcases Option.or_eq_some_iff.1 h with h | ⟨_, h⟩
  · exact takes_fixed true (by decide) (by decide) cs t h
  · exact takes_fixed false (by decide) (by decide) cs t h

theorem takes_null : Takes null := takes_fixed () (by decide) (by decide)

theorem takes_closing {quote : Char} (hq : Plain [quote]) {cs : List Char} {t : Lexeme String}
    (h : closing quote cs = some t) :
    ∃ u v, quote :: cs = u ++ v ∧ t.length = u.length ∧ u ≠ [] ∧ Plain u := by
  unfold closing at h
  simp only at h
  split at h
  · next hh =>
    cases h
    rw [drop_length_takeWhile] at hh
    obtain ⟨v, hv⟩ := List.head?_eq_some_iff.1 hh
    have hcs : cs.takeWhile isBareChar ++ quote :: v = cs := by rw [← hv, List.takeWhile_append_dropWhile]
    refine ⟨quote :: (cs.takeWhile isBareChar ++ [quote]), v, by simp [hcs], by simp, by simp, ?_⟩
    have hb : Plain (cs.takeWhile isBareChar) :=
      Text.plain_of_forall (by decide) (by decide) fun _ h => List.mem_takeWhile_imp h
    exact hq.append (hb.append hq)
  · cases h

theorem takes_text : Takes text := by
  intro cs t h
  unfold text at h
  split at h
  · exact takes_closing (by decide) h
  · exact takes_closing (by decide) h
  · have hr := (@takes_run isBareChar (by decide) (by decide)).map
      (fun t => (⟨String.ofList t.value, t.length⟩ : Lexeme String)) fun _ => rfl
    exact hr cs t h

end Token

/-! ## Operators and keywords -/

theorem Operator.symbol_ne_nil (op : Operator) : op.symbol.toList ≠ [] := by cases op <;> decide

theorem Operator.plain_symbol (op : Operator) : Plain op.symbol.toList := by cases op <;> decide

theorem Connective.keyword_ne_nil (link : Connective) : link.keyword.toList ≠ [] := by cases link <;> decide

theorem Connective.plain_keyword (link : Connective) : Plain link.keyword.toList := by cases link <;> decide

namespace Grammar

variable {α : Type} {c d e : Cursor}

theorem Trial.bind_eq_some_iff {β : Type} {t : Trial α} {f : α → Trial β} {b : β} :
    (t >>= f).result = some b ↔ ∃ a, t.result = some a ∧ (f a).result = some b := by
  rw [Trial.result_bind, Option.bind_eq_some_iff]

theorem Trial.orElse_eq_some_iff {t u : Trial α} {a : α} :
    (t <|> u).result = some a ↔ t.result = some a ∨ t.result = none ∧ u.result = some a := by
  rw [Trial.result_orElse, Option.or_eq_some_iff]

/-! ## Tokens of the grammar -/

theorem token_eq_some_iff {kind : TokenClass} {scan : Token α} {a : α} :
    (token kind scan c).result = some (a, d) ↔ ∃ t, scan c.rest = some t ∧ t.value = a ∧ c.advance t.length = d := by
  unfold token
  cases scan c.rest <;> simp

theorem readsPlain_token {kind : TokenClass} {scan : Token α} {a : α} (hs : Token.Takes scan)
    (h : (token kind scan c).result = some (a, d)) : c.ReadsPlain d := by
  obtain ⟨t, ht, _, rfl⟩ := token_eq_some_iff.1 h
  obtain ⟨u, v, hr, hl, hne, hp⟩ := hs _ _ ht
  exact ⟨u, hne, hp, hl ▸ Cursor.spans_advance hr⟩

theorem literal_eq_pure {text : String} (h : text.toList <+: c.rest) :
    literal text c = Pure.pure (c.advance text.length) := if_pos (List.isPrefixOf_iff_prefix.2 h)

theorem literal_eq_miss {text : String} (h : ¬ text.toList <+: c.rest) :
    literal text c = .miss c (.literal text) := if_neg fun hp => h (List.isPrefixOf_iff_prefix.1 hp)

theorem literal_eq_some_iff {text : String} :
    (literal text c).result = some d ↔ text.toList <+: c.rest ∧ c.advance text.length = d := by
  by_cases h : text.toList <+: c.rest
  · simp [literal_eq_pure h, h]
  · simp [literal_eq_miss h, h]

theorem spans_literal {text : String} (h : (literal text c).result = some d) : c.Spans text.toList d := by
  obtain ⟨⟨v, hv⟩, rfl⟩ := literal_eq_some_iff.1 h
  rw [← String.length_toList]
  exact Cursor.spans_advance hv.symm

theorem readsPlain_literal {text : String} (hne : text.toList ≠ []) (hp : Plain text.toList)
    (h : (literal text c).result = some d) : c.ReadsPlain d := ⟨_, hne, hp, spans_literal h⟩

theorem anySpaces_eq (c : Cursor) :
    anySpaces c = ⟨some c.pastSpaces, [⟨c.pastSpaces.index, .token .space⟩]⟩ := rfl

theorem anySpaces_eq_some_iff : (anySpaces c).result = some d ↔ c.pastSpaces = d := by
  rw [anySpaces_eq, Option.some.injEq]

theorem spans_anySpaces (h : (anySpaces c).result = some d) : c.Spans (c.rest.takeWhile (· == ' ')) d := by
  rw [← anySpaces_eq_some_iff.1 h]
  exact c.spans_pastSpaces

/-- Spaces are read to their end, where one more is missing. -/
theorem someSpaces_eq (c : Cursor) :
    someSpaces c =
      ⟨if c.rest.head? = some ' ' then some c.pastSpaces else none, [⟨c.pastSpaces.index, .token .space⟩]⟩ := by
  obtain ⟨index, _ | ⟨x, rest⟩⟩ := c
  · rfl
  by_cases hx : x = ' '
  · subst hx
    have hs : Token.spaces (' ' :: rest) = some ⟨(), (rest.takeWhile (· == ' ')).length + 1⟩ := by
      simp [Token.spaces, Token.run]
    have ht : token .space Token.spaces ⟨index, ' ' :: rest⟩ = pure ((), Cursor.pastSpaces ⟨index, ' ' :: rest⟩) := by
      simp [token, hs, Cursor.pastSpaces]
    have hb : someSpaces ⟨index, ' ' :: rest⟩ = anySpaces (Cursor.pastSpaces ⟨index, ' ' :: rest⟩) := by
      rw [someSpaces, ht]; rfl
    rw [hb, anySpaces_eq, Cursor.pastSpaces_pastSpaces]
    simp
  · have hs : Token.spaces (x :: rest) = none := by simp [Token.spaces, Token.run, hx]
    have ht : token .space Token.spaces ⟨index, x :: rest⟩ = .miss ⟨index, x :: rest⟩ (.token .space) := by
      simp [token, hs]
    rw [someSpaces, ht, Cursor.pastSpaces_of_head (by simpa using hx)]
    simp [hx]
    rfl

theorem someSpaces_eq_some_iff :
    (someSpaces c).result = some d ↔ c.rest.head? = some ' ' ∧ c.pastSpaces = d := by
  rw [someSpaces_eq]
  simp only
  split <;> simp [*]

theorem readsPlain_someSpaces (h : (someSpaces c).result = some d) : c.ReadsPlain d := by
  obtain ⟨hh, rfl⟩ := someSpaces_eq_some_iff.1 h
  refine ⟨_, ?_, Cursor.plain_spaces _, c.spans_pastSpaces⟩
  obtain ⟨v, hv⟩ := List.head?_eq_some_iff.1 hh
  simp [hv]

/-! ## Values and comparisons -/

theorem readsPlain_value {v : Literal} (h : (value c).result = some (v, d)) : c.ReadsPlain d := by
  simp only [value, Trial.orElse_eq_some_iff, Trial.bind_eq_some_iff, Prod.exists, Trial.result_pure, Option.some.injEq,
    Prod.mk.injEq] at h
  rcases h with ⟨n, d, h, rfl, rfl⟩ | ⟨_, ⟨b, d, h, rfl, rfl⟩ | ⟨_, ⟨u, d, h, rfl, rfl⟩ | ⟨_, s, d, h, rfl, rfl⟩⟩⟩
  · exact readsPlain_token Token.takes_number h
  · exact readsPlain_token Token.takes_boolean h
  · exact readsPlain_token Token.takes_null h
  · exact readsPlain_token Token.takes_text h

/-- What `e` holds is a comparison of a field. -/
def Expression.IsComparison (e : Expression) : Prop := ∃ op field v, e = .comparison op field v

theorem reads_hasComparison {e : Expression} (h : (hasComparison c).result = some (e, d)) :
    e.IsComparison ∧ c.ReadsPlain d := by
  simp only [hasComparison, Trial.bind_eq_some_iff, Prod.exists, Trial.result_pure, Option.some.injEq,
    Prod.mk.injEq] at h
  obtain ⟨field, c₁, hw, c₂, hl, v, c₃, hv, rfl, rfl⟩ := h
  refine ⟨⟨_, _, _, rfl⟩, ?_⟩
  exact ((readsPlain_token Token.takes_word hw).trans (readsPlain_literal (by decide) (by decide) hl)).trans
    (readsPlain_value hv)

theorem reads_comparison {op : Operator} {e : Expression} (h : (comparison op c).result = some (e, d)) :
    e.IsComparison ∧ c.ReadsPlain d := by
  simp only [comparison, Trial.bind_eq_some_iff, Prod.exists, Trial.result_pure, Option.some.injEq,
    Prod.mk.injEq, anySpaces_eq_some_iff] at h
  obtain ⟨field, c₁, hw, c₂, rfl, c₃, hl, c₄, rfl, v, c₅, hv, rfl, rfl⟩ := h
  refine ⟨⟨_, _, _, rfl⟩, ?_⟩
  have hword := (readsPlain_token Token.takes_word hw).pastSpaces
  have hsymbol := (readsPlain_literal op.symbol_ne_nil op.plain_symbol hl).pastSpaces
  exact (hword.trans hsymbol).trans (readsPlain_value hv)

/-- A comparison, whatever its operator. -/
def anyComparison : Rule Expression := fun c =>
  hasComparison c
  <|> comparison .greaterEq c
  <|> comparison .greater c
  <|> comparison .lessEq c
  <|> comparison .less c
  <|> comparison .equals c

theorem reads_anyComparison {e : Expression} (h : (anyComparison c).result = some (e, d)) :
    e.IsComparison ∧ c.ReadsPlain d := by
  simp only [anyComparison, Trial.orElse_eq_some_iff] at h
  rcases h with h | ⟨_, h | ⟨_, h | ⟨_, h | ⟨_, h | ⟨_, h⟩⟩⟩⟩⟩
  · exact reads_hasComparison h
  all_goals exact reads_comparison h

theorem token_word_of_head (h : ∀ x, c.rest.head? = some x → isFieldChar x = false) :
    token .word Token.word c = .miss c (.token .word) := by
  have hw : Token.word c.rest = none := by
    cases hr : c.rest with
    | nil => rfl
    | cons x rest =>
      have hx := h x (by rw [hr]; rfl)
      simp [Token.word, Token.run, hx]
  rw [token, hw]

/-! ## Groups and expressions -/

theorem Trial.orElse_assoc (t u v : Trial α) : ((t <|> u) <|> v) = (t <|> (u <|> v)) := by
  obtain ⟨_ | a, m⟩ := t
  · obtain ⟨_ | b, n⟩ := u
    · exact congrArg (Trial.mk _) (List.append_assoc m n _)
    · rfl
  · rfl

section

variable (r : Rule Statement)

/-- An expression is a comparison or, failing that, a group. -/
theorem expression_eq (c : Cursor) :
    expression r c = (anyComparison c <|> do let (inner, d) ← group r c; return (.group inner, d)) := by
  simp only [expression, anyComparison, Trial.orElse_assoc]

variable {r}

theorem expression_eq_some_iff {e : Expression} :
    (expression r c).result = some (e, d) ↔ (anyComparison c).result = some (e, d) ∨
      (anyComparison c).result = none ∧ ∃ inner, (group r c).result = some (inner, d) ∧ e = .group inner := by
  simp only [expression_eq, Trial.orElse_eq_some_iff, Trial.bind_eq_some_iff, Prod.exists, Trial.result_pure,
    Option.some.injEq, Prod.mk.injEq]
  constructor
  · rintro (h | ⟨hn, inner, d, h, rfl, rfl⟩)
    · exact .inl h
    · exact .inr ⟨hn, inner, h, rfl⟩
  · rintro (h | ⟨hn, inner, h, rfl⟩)
    · exact .inl h
    · exact .inr ⟨hn, inner, d, h, rfl, rfl⟩

theorem literal_open_eq_some_iff : (literal "(" c).result = some d ↔ c.rest.head? = some '(' ∧ c.advance 1 = d := by
  rw [literal_eq_some_iff]
  exact and_congr_left' (by cases c.rest <;> simp [eq_comm])

theorem literal_close_eq_some_iff : (literal ")" c).result = some d ↔ c.rest.head? = some ')' ∧ c.advance 1 = d := by
  rw [literal_eq_some_iff]
  exact and_congr_left' (by cases c.rest <;> simp [eq_comm])

theorem group_eq_some_iff {s : Statement} :
    (group r c).result = some (s, d) ↔ c.rest.head? = some '(' ∧
      ∃ e, (r (c.advance 1).pastSpaces).result = some (s, e) ∧ e.pastSpaces.rest.head? = some ')' ∧
        e.pastSpaces.advance 1 = d := by
  simp only [group, Trial.bind_eq_some_iff, Prod.exists, Trial.result_pure, Option.some.injEq, Prod.mk.injEq,
    literal_open_eq_some_iff, literal_close_eq_some_iff, anySpaces_eq_some_iff]
  constructor
  · rintro ⟨_, ⟨ho, rfl⟩, _, rfl, s, e, hr, _, rfl, _, ⟨hc, rfl⟩, rfl, rfl⟩
    exact ⟨ho, e, hr, hc, rfl⟩
  · rintro ⟨ho, e, hr, hc, rfl⟩
    exact ⟨_, ⟨ho, rfl⟩, _, rfl, s, e, hr, _, rfl, _, ⟨hc, rfl⟩, rfl, rfl⟩

/-- Whatever the rule derives is some text with balanced parentheses. -/
def Rule.Reads {α : Type} (r : Rule α) : Prop := ∀ c a d, (r c).result = some (a, d) → c.Reads d

theorem reads_group (hr : r.Reads) {s : Statement} (h : (group r c).result = some (s, d)) : c.Reads d := by
  obtain ⟨ho, e, hi, hc, rfl⟩ := group_eq_some_iff.1 h
  obtain ⟨v, hv⟩ := List.head?_eq_some_iff.1 ho
  obtain ⟨w, hw⟩ := List.head?_eq_some_iff.1 hc
  obtain ⟨u, _, hb, hs⟩ := hr _ _ _ hi
  have hopen : c.Spans ['('] (c.advance 1) := Cursor.spans_advance (u := ['(']) hv
  have hclose : e.pastSpaces.Spans [')'] (e.pastSpaces.advance 1) := Cursor.spans_advance (u := [')']) hw
  have hinner := ((c.advance 1).spans_pastSpaces.trans hs).trans e.spans_pastSpaces
  have hall := (hopen.trans hinner).trans hclose
  refine ⟨_, by simp, ?_, hall⟩
  exact (((Cursor.plain_spaces _).balanced.append hb).append (Cursor.plain_spaces _).balanced).wrap

theorem reads_expression (hr : r.Reads) {e : Expression} (h : (expression r c).result = some (e, d)) : c.Reads d := by
  rcases expression_eq_some_iff.1 h with hc | ⟨_, inner, hg, rfl⟩
  · exact (reads_anyComparison hc).2.reads
  · exact reads_group hr hg

/-! ## Statements -/

theorem joined_eq_some_iff {link : Connective} {s : Statement} :
    (joined r link c).result = some (s, d) ↔ ∃ left c₁ c₂ c₃ c₄ right, (expression r c).result = some (left, c₁) ∧
      (someSpaces c₁).result = some c₂ ∧ (literal link.keyword c₂).result = some c₃ ∧
      (someSpaces c₃).result = some c₄ ∧ (r c₄).result = some (right, d) ∧ .join c.index left link right = s := by
  simp only [joined, Trial.bind_eq_some_iff, Prod.exists, Trial.result_pure, Option.some.injEq, Prod.mk.injEq]
  constructor
  · rintro ⟨left, c₁, he, c₂, h₂, c₃, h₃, c₄, h₄, right, d, hr, rfl, rfl⟩
    exact ⟨left, c₁, c₂, c₃, c₄, right, he, h₂, h₃, h₄, hr, rfl⟩
  · rintro ⟨left, c₁, c₂, c₃, c₄, right, he, h₂, h₃, h₄, hr, rfl⟩
    exact ⟨left, c₁, he, c₂, h₂, c₃, h₃, c₄, h₄, right, d, hr, rfl, rfl⟩

theorem negated_eq_some_iff {s : Statement} :
    (negated r c).result = some (s, d) ↔ ∃ c₁ c₂ operand, (literal "NOT" c).result = some c₁ ∧
      (someSpaces c₁).result = some c₂ ∧ (r c₂).result = some (operand, d) ∧ .not c.index operand = s := by
  simp only [negated, Trial.bind_eq_some_iff, Prod.exists, Trial.result_pure, Option.some.injEq, Prod.mk.injEq]
  constructor
  · rintro ⟨c₁, h₁, c₂, h₂, operand, d, hr, rfl, rfl⟩
    exact ⟨c₁, c₂, operand, h₁, h₂, hr, rfl⟩
  · rintro ⟨c₁, c₂, operand, h₁, h₂, hr, rfl⟩
    exact ⟨c₁, h₁, c₂, h₂, operand, d, hr, rfl, rfl⟩

theorem reads_joined (hr : r.Reads) {link : Connective} {s : Statement}
    (h : (joined r link c).result = some (s, d)) : c.Reads d := by
  obtain ⟨left, c₁, c₂, c₃, c₄, right, he, h₂, h₃, h₄, hd, _⟩ := joined_eq_some_iff.1 h
  have hlink := ((readsPlain_someSpaces h₂).trans (readsPlain_literal link.keyword_ne_nil link.plain_keyword h₃)).trans
    (readsPlain_someSpaces h₄)
  exact ((reads_expression hr he).trans hlink.reads).trans (hr _ _ _ hd)

theorem reads_negated (hr : r.Reads) {s : Statement} (h : (negated r c).result = some (s, d)) : c.Reads d := by
  obtain ⟨c₁, c₂, operand, h₁, h₂, hd, _⟩ := negated_eq_some_iff.1 h
  have hnot := (readsPlain_literal (by decide) (by decide) h₁).trans (readsPlain_someSpaces h₂)
  exact hnot.reads.trans (hr _ _ _ hd)

end

/-- A statement reads its parentheses in pairs. -/
theorem reads_statement (fuel : Nat) : (statement fuel).Reads := by
  induction fuel with
  | zero => intro c s d h; cases h
  | succ fuel ih =>
    intro c s d h
    simp only [statement, Trial.orElse_eq_some_iff, Trial.bind_eq_some_iff, Prod.exists, Trial.result_pure,
      Option.some.injEq, Prod.mk.injEq] at h
    rcases h with h | ⟨_, h | ⟨_, h | ⟨_, e, d, h, _, rfl⟩⟩⟩
    · exact reads_joined ih h
    · exact reads_joined ih h
    · exact reads_negated ih h
    · exact reads_expression ih h

/-! ## Where something is missing -/

namespace Trial

variable {β : Type} {t u : Trial α} {n : Nat}

/-- Nothing is missing behind place number `n`. -/
def Within (t : Trial α) (n : Nat) : Prop := ∀ m ∈ t.misses, m.index ≤ n

theorem within_pure (a : α) : (Pure.pure a : Trial α).Within n := fun _ h => nomatch h

theorem within_miss (hc : c.EndsAt n) (e : Expectation) : (miss c e : Trial α).Within n := by
  intro m hm
  have hi : m.index = c.index := by rw [List.mem_singleton.1 hm]
  unfold Cursor.EndsAt at hc
  omega

theorem Within.bind {f : α → Trial β} (h : t.Within n) (hf : ∀ a, t.result = some a → (f a).Within n) :
    (t >>= f).Within n := by
  obtain ⟨_ | a, ms⟩ := t
  · exact h
  · exact fun m hm => (List.mem_append.1 hm).elim (h m) (hf a rfl m)

theorem Within.orElse (h : t.Within n) (h' : u.Within n) : (t <|> u).Within n := by
  obtain ⟨_ | a, ms⟩ := t
  · exact fun m hm => (List.mem_append.1 hm).elim (h m) (h' m)
  · exact h

end Trial

section

variable {n : Nat} {r : Rule Statement}

theorem within_token (kind : TokenClass) (scan : Token α) (hc : c.EndsAt n) : (token kind scan c).Within n := by
  unfold token
  split
  · exact Trial.within_pure _
  · exact Trial.within_miss hc _

theorem within_literal (text : String) (hc : c.EndsAt n) : (literal text c).Within n := by
  unfold literal
  split
  · exact Trial.within_pure _
  · exact Trial.within_miss hc _

theorem within_spaces (hc : c.EndsAt n) : (anySpaces c).Within n ∧ (someSpaces c).Within n := by
  have h : ∀ m ∈ [(⟨c.pastSpaces.index, .token .space⟩ : Miss)], m.index ≤ n := by
    intro m hm
    have hi : m.index = c.pastSpaces.index := by rw [List.mem_singleton.1 hm]
    have he := c.spans_pastSpaces.endsAt hc
    unfold Cursor.EndsAt at he
    omega
  rw [anySpaces_eq, someSpaces_eq]
  exact ⟨h, h⟩

theorem within_value (hc : c.EndsAt n) : (value c).Within n := by
  refine Trial.Within.orElse ?_ (Trial.Within.orElse ?_ (Trial.Within.orElse ?_ ?_))
  all_goals exact (within_token _ _ hc).bind fun _ _ => Trial.within_pure _

theorem within_anyComparison (hc : c.EndsAt n) : (anyComparison c).Within n := by
  have hword {β : Type} {f : String × Cursor → Trial β} (hf : ∀ field d, d.EndsAt n → (f (field, d)).Within n) :
      (token .word Token.word c >>= f).Within n :=
    (within_token _ _ hc).bind fun ⟨field, d⟩ h => hf field d ((readsPlain_token Token.takes_word h).reads.endsAt hc)
  have hvalue {β : Type} {d : Cursor} (hd : d.EndsAt n) (f : Literal × Cursor → β) :
      (value d >>= fun p => pure (f p)).Within n := (within_value hd).bind fun _ _ => Trial.within_pure _
  have hhas : (hasComparison c).Within n := hword fun field d hd => (within_literal _ hd).bind fun d' h =>
    hvalue ((spans_literal h).endsAt hd) _
  have hop (op : Operator) : (comparison op c).Within n := hword fun field d hd => by
    refine (within_spaces hd).1.bind fun d₁ h₁ => ?_
    have hd₁ := (spans_anySpaces h₁).endsAt hd
    refine (within_literal _ hd₁).bind fun d₂ h₂ => ?_
    have hd₂ := (spans_literal h₂).endsAt hd₁
    refine (within_spaces hd₂).1.bind fun d₃ h₃ => ?_
    have hd₃ := (spans_anySpaces h₃).endsAt hd₂
    exact hvalue hd₃ _
  exact hhas.orElse ((hop _).orElse ((hop _).orElse ((hop _).orElse ((hop _).orElse (hop _)))))

/-- A rule that misses nothing behind the end of the text. -/
def Rule.StaysWithin {α : Type} (r : Rule α) (n : Nat) : Prop := ∀ c : Cursor, c.EndsAt n → (r c).Within n

theorem within_group (hr : r.Reads) (hw : r.StaysWithin n) (hc : c.EndsAt n) : (group r c).Within n := by
  refine (within_literal _ hc).bind fun c₁ h₁ => ?_
  have hc₁ := (spans_literal h₁).endsAt hc
  refine (within_spaces hc₁).1.bind fun c₂ h₂ => ?_
  have hc₂ := (spans_anySpaces h₂).endsAt hc₁
  refine (hw c₂ hc₂).bind fun ⟨s, c₃⟩ h₃ => ?_
  have hc₃ := (hr _ _ _ h₃).endsAt hc₂
  refine (within_spaces hc₃).1.bind fun c₄ h₄ => ?_
  have hc₄ := (spans_anySpaces h₄).endsAt hc₃
  exact (within_literal _ hc₄).bind fun _ _ => Trial.within_pure _

theorem within_expression (hr : r.Reads) (hw : r.StaysWithin n) (hc : c.EndsAt n) : (expression r c).Within n := by
  rw [expression_eq]
  exact (within_anyComparison hc).orElse ((within_group hr hw hc).bind fun _ _ => Trial.within_pure _)

theorem within_joined (hr : r.Reads) (hw : r.StaysWithin n) (link : Connective) (hc : c.EndsAt n) :
    (joined r link c).Within n := by
  refine (within_expression hr hw hc).bind fun ⟨left, c₁⟩ h₁ => ?_
  have hc₁ := (reads_expression hr h₁).endsAt hc
  refine (within_spaces hc₁).2.bind fun c₂ h₂ => ?_
  have hc₂ := (readsPlain_someSpaces h₂).reads.endsAt hc₁
  refine (within_literal _ hc₂).bind fun c₃ h₃ => ?_
  have hc₃ := (spans_literal h₃).endsAt hc₂
  refine (within_spaces hc₃).2.bind fun c₄ h₄ => ?_
  exact (hw c₄ ((readsPlain_someSpaces h₄).reads.endsAt hc₃)).bind fun _ _ => Trial.within_pure _

theorem within_negated (hw : r.StaysWithin n) (hc : c.EndsAt n) : (negated r c).Within n := by
  refine (within_literal _ hc).bind fun c₁ h₁ => ?_
  have hc₁ := (spans_literal h₁).endsAt hc
  refine (within_spaces hc₁).2.bind fun c₂ h₂ => ?_
  exact (hw c₂ ((readsPlain_someSpaces h₂).reads.endsAt hc₁)).bind fun _ _ => Trial.within_pure _

/-- Nothing is missing behind the end of the text. -/
theorem within_statement (fuel : Nat) : (statement fuel).StaysWithin n := by
  induction fuel with
  | zero => exact fun c hc m hm => nomatch hm
  | succ fuel ih =>
    have hr := reads_statement fuel
    intro c hc
    exact (within_joined hr ih _ hc).orElse ((within_joined hr ih _ hc).orElse ((within_negated ih hc).orElse
      ((within_expression hr ih hc).bind fun _ _ => Trial.within_pure _)))

theorem endsAt_block {fuel : Nat} {s : Statement} (hc : c.EndsAt n)
    (h : (statement fuel c <|> group (statement fuel) c).result = some (s, d)) : d.EndsAt n := by
  rcases Trial.orElse_eq_some_iff.1 h with h | ⟨_, h⟩
  · exact (reads_statement fuel _ _ _ h).endsAt hc
  · exact (reads_group (reads_statement fuel) h).endsAt hc

theorem within_start {fuel : Nat} (hc : c.EndsAt n) : (start fuel c).Within n := by
  refine (within_spaces hc).1.bind fun c₁ h₁ => ?_
  have hc₁ := (spans_anySpaces h₁).endsAt hc
  have hblock := (within_statement fuel c₁ hc₁).orElse (within_group (reads_statement fuel) (within_statement fuel) hc₁)
  exact hblock.bind fun ⟨s, c₂⟩ h₂ => (within_spaces (endsAt_block hc₁ h₂)).1.bind fun _ _ => Trial.within_pure _

theorem endsAt_start {fuel : Nat} {s : Statement} (hc : c.EndsAt n) (h : (start fuel c).result = some (s, d)) :
    d.EndsAt n := by
  simp only [start, Trial.bind_eq_some_iff, Prod.exists, Trial.result_pure, Option.some.injEq, Prod.mk.injEq,
    anySpaces_eq_some_iff] at h
  obtain ⟨_, rfl, s, c₂, h₂, _, rfl, _, rfl⟩ := h
  exact c₂.spans_pastSpaces.endsAt (endsAt_block (c.spans_pastSpaces.endsAt hc) h₂)

/-- All that is missing when a text is derived is missing in it or at its end. -/
theorem within_derivation (text : List Char) : (derivation text).Within text.length := by
  have hc : Cursor.EndsAt ⟨0, text⟩ text.length := Nat.zero_add _
  refine (within_start hc).bind fun ⟨s, d⟩ h => ?_
  show (if d.rest.isEmpty then pure s else Trial.miss d .endOfInput : Trial Statement).Within text.length
  split
  · exact Trial.within_pure _
  · exact Trial.within_miss (endsAt_start hc h) _

end

end Grammar

end SearchFilter
