import SearchFilter.Proofs.Grammar.Consumption

/-!
# The grammar factored to the left

Three of the four rules of a statement begin with the same expression. Read by the rules as they stand it is read three
times; a reader that goes on behind it, and looks for a connective only once, finds the same statement
(`full_like_factored`). What it leaves out are misses that occur a second time or lie before others, so that it comes
equally far and misses the same there (`Trial.Like`).

* `full` — statements without a bound on the steps; `full_eq` gives the rules back, `statement_eq_full` the bound.
* `Covered`, `Trial.Like` — the same result, and the same misses but for those that lie before others.
* `negated_of_expression` — where an expression stands, no `NOT` in front of a statement is read.
* `full_eq_some_iff`, `derivation_eq_some_iff` — what a statement is and what a whole text is derived as.
-/

namespace SearchFilter.Grammar

variable {α β : Type} {c d e : Cursor}

/-! ## Without fuel -/

theorem Trial.bind_congr {t : Trial α} {f g : α → Trial β} (h : ∀ a, t.result = some a → f a = g a) :
    t >>= f = t >>= g := by
  obtain ⟨_ | a, m⟩ := t
  · rfl
  · exact congrArg (fun u : Trial β => (⟨u.result, m ++ u.misses⟩ : Trial β)) (h a rfl)

section

variable {r r' : Rule Statement}

theorem length_pastSpaces_le (c : Cursor) : c.pastSpaces.rest.length ≤ c.rest.length := by
  have := c.spans_pastSpaces.length_eq
  omega

theorem group_congr (h : ∀ d : Cursor, d.rest.length < c.rest.length → r d = r' d) : group r c = group r' c := by
  refine Trial.bind_congr fun c₁ h₁ => Trial.bind_congr fun c₂ h₂ => ?_
  have hlt := (spans_literal h₁).length_lt (by decide)
  have hle := (spans_anySpaces h₂).length_eq
  rw [h c₂ (by omega)]

theorem expression_congr (h : ∀ d : Cursor, d.rest.length < c.rest.length → r d = r' d) :
    expression r c = expression r' c := by
  rw [expression_eq, expression_eq, group_congr h]

theorem joined_congr (hr : r'.Reads) (h : ∀ d : Cursor, d.rest.length < c.rest.length → r d = r' d)
    (link : Connective) : joined r link c = joined r' link c := by
  simp only [joined, expression_congr h]
  refine Trial.bind_congr fun p h₁ => Trial.bind_congr fun c₂ h₂ => Trial.bind_congr fun c₃ h₃ =>
    Trial.bind_congr fun c₄ h₄ => ?_
  have hl₁ : p.2.rest.length < c.rest.length := (reads_expression hr h₁).length_lt
  have hl₂ : c₂.rest.length < p.2.rest.length := (readsPlain_someSpaces h₂).reads.length_lt
  have hl₃ := (spans_literal h₃).length_eq
  have hl₄ := (readsPlain_someSpaces h₄).reads.length_lt
  rw [h c₄ (by omega)]

theorem negated_congr (h : ∀ d : Cursor, d.rest.length < c.rest.length → r d = r' d) :
    negated r c = negated r' c := by
  refine Trial.bind_congr fun c₁ h₁ => Trial.bind_congr fun c₂ h₂ => ?_
  have := (spans_literal h₁).length_eq
  have := (readsPlain_someSpaces h₂).reads.length_lt
  rw [h c₂ (by omega)]

end

/-- More fuel than characters ahead changes nothing. -/
theorem statement_congr (fuel : Nat) : ∀ (fuel' : Nat) (c : Cursor), c.rest.length < fuel → c.rest.length < fuel' →
    statement fuel c = statement fuel' c := by
  induction fuel with
  | zero => intro _ _ h; omega
  | succ fuel ih =>
    intro fuel' c h h'
    obtain ⟨fuel', rfl⟩ : ∃ n, fuel' = n + 1 := ⟨fuel' - 1, by omega⟩
    have hr : ∀ d : Cursor, d.rest.length < c.rest.length → statement fuel d = statement fuel' d := fun d hd =>
      ih fuel' d (by omega) (by omega)
    have hreads := reads_statement fuel'
    simp only [statement, joined_congr hreads hr, negated_congr hr, expression_congr hr]

/-- A statement, however long. -/
def full : Rule Statement := fun c => statement (c.rest.length + 1) c

theorem statement_eq_full {fuel : Nat} (h : c.rest.length < fuel) : statement fuel c = full c :=
  statement_congr fuel _ c h (Nat.lt_succ_self _)

theorem reads_full : full.Reads := fun c _ _ h => reads_statement _ c _ _ h

/-- **The rules of a statement**, none of which speaks of fuel. -/
theorem full_eq (c : Cursor) : full c =
    (joined full .and c <|> joined full .or c <|> negated full c
      <|> do let (only, d) ← expression full c; return (.expression c.index only, d)) := by
  have hr : ∀ d : Cursor, d.rest.length < c.rest.length → statement c.rest.length d = full d := fun d hd =>
    statement_eq_full hd
  rw [← joined_congr reads_full hr, ← joined_congr reads_full hr, ← negated_congr hr, ← expression_congr hr]
  rfl

/-- A block, a statement with or without parentheses. -/
def block : Rule Statement := fun c => full c <|> group full c

theorem start_eq {fuel : Nat} (h : c.rest.length < fuel) : start fuel c =
    (do let c ← anySpaces c; let (s, c) ← block c; let c ← anySpaces c; return (s, c)) := by
  have hle := length_pastSpaces_le c
  refine Trial.bind_congr fun d hd => ?_
  obtain rfl := anySpaces_eq_some_iff.1 hd
  have hg : group (statement fuel) c.pastSpaces = group full c.pastSpaces := group_congr fun e he =>
    statement_eq_full (by omega)
  rw [statement_eq_full (by omega), hg, block]

/-! ## Misses that do not matter -/

/-- Every miss of `ms` is one of `ns` or lies before one of them. -/
def Covered (ms ns : List Miss) : Prop := ∀ m ∈ ms, m ∈ ns ∨ ∃ n ∈ ns, m.index < n.index

variable {ms ns ks : List Miss}

theorem covered_of_subset (h : ms ⊆ ns) : Covered ms ns := fun _ hm => .inl (h hm)

theorem Covered.refl (ms : List Miss) : Covered ms ms := covered_of_subset (List.Subset.refl ms)

theorem Covered.trans (h : Covered ms ns) (h' : Covered ns ks) : Covered ms ks := by
  intro m hm
  rcases h m hm with hm | ⟨n, hn, hlt⟩
  · exact h' m hm
  · rcases h' n hn with hn | ⟨k, hk, hlt'⟩
    · exact .inr ⟨n, hn, hlt⟩
    · exact .inr ⟨k, hk, Nat.lt_trans hlt hlt'⟩

theorem Covered.append (h : Covered ms ks) (h' : Covered ns ks) : Covered (ms ++ ns) ks := fun m hm =>
  (List.mem_append.1 hm).elim (h m) (h' m)

theorem Covered.mono (h : Covered ms ns) (hs : ns ⊆ ks) : Covered ms ks := h.trans (covered_of_subset hs)

theorem Covered.append_both {ms' ns' : List Miss} (h : Covered ms ns) (h' : Covered ms' ns') :
    Covered (ms ++ ms') (ns ++ ns') :=
  (h.mono (List.subset_append_left _ _)).append (h'.mono (List.subset_append_right _ _))

namespace Trial

/-- The same result, and the same misses but for those that lie before others. -/
structure Like (t u : Trial α) : Prop where
  result_eq : t.result = u.result
  covered : Covered t.misses u.misses
  covers : Covered u.misses t.misses

variable {t u v : Trial α}

theorem Like.refl (t : Trial α) : t.Like t := ⟨rfl, .refl _, .refl _⟩

theorem Like.trans (h : t.Like u) (h' : u.Like v) : t.Like v :=
  ⟨h.1.trans h'.1, h.2.trans h'.2, h'.3.trans h.3⟩

theorem Like.bind {f g : α → Trial β} (h : t.Like u) (hf : ∀ a, t.result = some a → (f a).Like (g a)) :
    (t >>= f).Like (u >>= g) := by
  obtain ⟨_ | a, m⟩ := t <;> obtain ⟨_ | b, n⟩ := u <;> cases h.result_eq
  · exact ⟨rfl, h.2, h.3⟩
  · have := hf a rfl
    exact ⟨this.1, h.2.append_both this.2, h.3.append_both this.3⟩

theorem Like.orElse {t' u' : Trial α} (h : t.Like t') (hu : u.Like u') : (t <|> u).Like (t' <|> u') := by
  obtain ⟨_ | a, m⟩ := t <;> obtain ⟨_ | b, n⟩ := t' <;> cases h.result_eq
  · exact ⟨hu.1, h.2.append_both hu.2, h.3.append_both hu.3⟩
  · exact ⟨rfl, h.2, h.3⟩

theorem pure_bind (a : α) (f : α → Trial β) : (Pure.pure a : Trial α) >>= f = f a := rfl

theorem bind_assoc {γ : Type} (t : Trial α) (f : α → Trial β) (g : β → Trial γ) :
    (t >>= f) >>= g = t >>= fun a => f a >>= g := by
  obtain ⟨_ | a, m⟩ := t
  · rfl
  · show (Trial.mk (f a).result (m ++ (f a).misses) : Trial β) >>= g = _
    generalize hu : f a = u
    show _ = (⟨(f a >>= g).result, m ++ (f a >>= g).misses⟩ : Trial γ)
    rw [hu]
    obtain ⟨_ | b, n⟩ := u
    · rfl
    · exact congrArg (Trial.mk _) (List.append_assoc m n _)

/-- What two alternatives begin with need be read only once. -/
theorem factor (t : Trial α) (f g : α → Trial β) : ((t >>= f) <|> (t >>= g)).Like (t >>= fun a => f a <|> g a) := by
  obtain ⟨_ | a, m⟩ := t
  · exact ⟨rfl, covered_of_subset (by show m ++ m ⊆ m; simp), covered_of_subset (List.subset_append_left m m)⟩
  · refine ⟨?_, ?_, ?_⟩ <;>
      simp only [result_orElse, result_bind, misses_orElse, misses_bind, Option.bind_some, Option.map_some,
        Option.getD_some]
    all_goals split
    · exact .refl _
    · exact covered_of_subset (by intro x hx; simp only [List.mem_append] at hx ⊢; grind)
    · exact .refl _
    · exact covered_of_subset (by intro x hx; simp only [List.mem_append] at hx ⊢; grind)

/-- An alternative that fails no further ahead than others changes nothing. -/
theorem orElse_like_left (hu : u.result = none) (h : t.result = none → Covered u.misses t.misses) :
    (t <|> u).Like t := by
  obtain ⟨_ | a, m⟩ := t
  · exact ⟨hu, (Covered.refl m).append (h rfl), covered_of_subset (List.subset_append_left m _)⟩
  · exact .refl _

theorem orElse_of_some {a : α} (h : t.result = some a) : (t <|> u) = t := by
  obtain ⟨_ | a, m⟩ := t
  · cases h
  · rfl

theorem orElse_bind_pure (t u : Trial α) (f : α → β) :
    ((t <|> u) >>= fun a => Pure.pure (f a)) =
      ((t >>= fun a => Pure.pure (f a)) <|> (u >>= fun a => Pure.pure (f a))) := by
  obtain ⟨_ | a, m⟩ := t
  · obtain ⟨_ | b, n⟩ := u
    · rfl
    · exact congrArg (Trial.mk _) (List.append_assoc m n _)
  · rfl

variable {m : Miss}

theorem mem_misses_bind_left {f : α → Trial β} (h : m ∈ t.misses) : m ∈ (t >>= f).misses := by
  rw [misses_bind]
  exact List.mem_append_left _ h

theorem mem_misses_bind_right {f : α → Trial β} {a : α} (ha : t.result = some a) (h : m ∈ (f a).misses) :
    m ∈ (t >>= f).misses := by
  rw [misses_bind, ha]
  exact List.mem_append_right _ h

theorem mem_misses_orElse_left (h : m ∈ t.misses) : m ∈ (t <|> u).misses := by
  rw [misses_orElse]
  split
  · exact h
  · exact List.mem_append_left _ h

end Trial

/-! ## Where no statement starts -/

namespace Trial

/-- A failure for what is missing at one place only. -/
structure StuckAt (t : Trial α) (index : Nat) : Prop where
  result_eq : t.result = none
  index_eq : ∀ m ∈ t.misses, m.index = index

variable {t u : Trial α} {i : Nat}

theorem stuckAt_miss (c : Cursor) (e : Expectation) : (miss c e : Trial α).StuckAt c.index :=
  ⟨rfl, fun _ hm => by rw [List.mem_singleton.1 hm]⟩

theorem stuckAt_bind {f : α → Trial β} (h : ∀ m ∈ t.misses, m.index = i)
    (hf : ∀ a, t.result = some a → (f a).StuckAt i) : (t >>= f).StuckAt i := by
  obtain ⟨_ | a, m⟩ := t
  · exact ⟨rfl, h⟩
  · have := hf a rfl
    exact ⟨this.1, fun m hm => (List.mem_append.1 hm).elim (h m) (this.2 m)⟩

theorem StuckAt.bind (h : t.StuckAt i) (f : α → Trial β) : (t >>= f).StuckAt i :=
  stuckAt_bind h.2 fun a ha => by rw [h.1] at ha; cases ha

theorem StuckAt.orElse (h : t.StuckAt i) (h' : u.StuckAt i) : (t <|> u).StuckAt i := by
  obtain ⟨_ | a, m⟩ := t
  · exact ⟨h'.1, fun m hm => (List.mem_append.1 hm).elim (h.2 m) (h'.2 m)⟩
  · cases h.1

end Trial

/-- No comparison starts with a character that no field name has. -/
theorem stuckAt_anyComparison (h : ∀ x, c.rest.head? = some x → isFieldChar x = false) :
    (anyComparison c).StuckAt c.index := by
  have hw : (token .word Token.word c).StuckAt c.index := by
    rw [token_word_of_head h]
    exact Trial.stuckAt_miss c _
  exact (hw.bind _).orElse ((hw.bind _).orElse ((hw.bind _).orElse ((hw.bind _).orElse ((hw.bind _).orElse
    (hw.bind _)))))

theorem stuckAt_literal {text : String} (h : ¬ text.toList <+: c.rest) : (literal text c).StuckAt c.index := by
  rw [literal_eq_miss h]
  exact Trial.stuckAt_miss c _

/-- Characters with which no statement starts. -/
def NoStart (c : Cursor) : Prop := ∀ x, c.rest.head? = some x → isFieldChar x = false ∧ x ≠ '('

theorem stuckAt_expression {r : Rule Statement} (h : NoStart c) : (expression r c).StuckAt c.index := by
  rw [expression_eq]
  refine (stuckAt_anyComparison fun x hx => (h x hx).1).orElse (Trial.StuckAt.bind (Trial.StuckAt.bind ?_ _) _)
  refine stuckAt_literal fun ⟨v, hv⟩ => ?_
  exact (h '(' (by rw [← hv]; rfl)).2 rfl

theorem stuckAt_full (h : NoStart c) : (full c).StuckAt c.index := by
  have he := @stuckAt_expression c full h
  have hn : (literal "NOT" c).StuckAt c.index := by
    refine stuckAt_literal fun ⟨v, hv⟩ => ?_
    exact absurd (h 'N' (by rw [← hv]; rfl)).1 (by decide)
  rw [full_eq]
  exact (he.bind _).orElse ((he.bind _).orElse ((hn.bind _).orElse (he.bind _)))

/-- No statement starts with a space. -/
theorem head_of_full {s : Statement} (h : (full c).result = some (s, d)) : c.rest.head? ≠ some ' ' := by
  intro hsp
  have hstart : NoStart c := fun x hx => by
    rw [hsp] at hx
    cases hx
    exact ⟨by decide, by decide⟩
  rw [(stuckAt_full hstart).result_eq] at h
  cases h

/-! ## Expressions that start with `NOT` -/

/-- A comparison reads a word, and behind it an operator. -/
theorem operator_of_anyComparison {e : Expression} (h : (anyComparison c).result = some (e, d)) :
    ∃ t, Token.word c.rest = some t ∧ (c.advance t.length).index < d.index ∧
      ((c.advance t.length).rest.head? = some ':' ∨ ∃ (op : Operator) (q : Cursor), op ≠ .has ∧
        (literal op.symbol (c.advance t.length).pastSpaces).result = some q ∧ q.index < d.index) := by
  have key {op : Operator} (hop : op ≠ .has) (h : (comparison op c).result = some (e, d)) :
      ∃ t, Token.word c.rest = some t ∧ (c.advance t.length).index < d.index ∧
        ∃ (op : Operator) (q : Cursor), op ≠ .has ∧
        (literal op.symbol (c.advance t.length).pastSpaces).result = some q ∧ q.index < d.index := by
    simp only [comparison, Trial.bind_eq_some_iff, Prod.exists, Trial.result_pure, Option.some.injEq, Prod.mk.injEq,
      anySpaces_eq_some_iff] at h
    obtain ⟨field, c₁, hw, c₂, rfl, q, hl, c₄, rfl, v, c₅, hv, _, rfl⟩ := h
    obtain ⟨t, ht, _, rfl⟩ := token_eq_some_iff.1 hw
    have h₁ := (c.advance t.length).spans_pastSpaces.index_eq
    have h₂ := (spans_literal hl).index_eq
    have h₃ := q.spans_pastSpaces.index_eq
    have h₄ := (readsPlain_value hv).reads.index_lt
    exact ⟨t, ht, by omega, op, q, hop, hl, by omega⟩
  simp only [anyComparison, Trial.orElse_eq_some_iff] at h
  rcases h with h | ⟨_, h | ⟨_, h | ⟨_, h | ⟨_, h | ⟨_, h⟩⟩⟩⟩⟩
  · simp only [hasComparison, Trial.bind_eq_some_iff, Prod.exists, Trial.result_pure, Option.some.injEq,
      Prod.mk.injEq] at h
    obtain ⟨field, c₁, hw, c₂, hl, v, c₃, hv, _, rfl⟩ := h
    obtain ⟨t, ht, _, rfl⟩ := token_eq_some_iff.1 hw
    have hs := spans_literal hl
    have h₁ := hs.index_eq
    have h₂ := (readsPlain_value hv).reads.index_lt
    exact ⟨t, ht, by omega, .inl (by rw [hs.rest_eq]; rfl)⟩
  all_goals
    obtain ⟨t, ht, hlt, hq⟩ := key (by decide) h
    exact ⟨t, ht, hlt, .inr hq⟩

theorem noStart_of_symbol {op : Operator} (h : (literal op.symbol c).result = some d) : NoStart c := by
  intro x hx
  obtain ⟨v, hv⟩ := (literal_eq_some_iff.1 h).1
  rw [← hv] at hx
  cases op <;> cases hx <;> decide

theorem length_word_append {word : List Char} (hw : ∀ x ∈ word, isFieldChar x = true) {cs : List Char}
    {t : Lexeme String} (h : Token.word (word ++ cs) = some t) :
    t.length = word.length + (cs.takeWhile isFieldChar).length := by
  obtain ⟨l, hl, rfl⟩ := Option.map_eq_some_iff.1 h
  obtain ⟨hv, _, hlen⟩ := Token.run_eq_some_iff.1 hl
  rw [List.takeWhile_append_of_pos hw] at hv
  show l.length = _
  rw [hlen, ← hv, List.length_append]

/-- `NOT` fails behind the spaces that follow it, if no statement starts there. -/
theorem stuckAt_negated (hn : "NOT".toList <+: c.rest)
    (h : (c.advance 3).rest.head? = some ' ' → NoStart (c.advance 3).pastSpaces) :
    (negated full c).StuckAt (c.advance 3).pastSpaces.index := by
  have hnot : literal "NOT" c = Pure.pure (c.advance 3) := literal_eq_pure hn
  have hmiss : ∀ m ∈ (someSpaces (c.advance 3)).misses, m.index = (c.advance 3).pastSpaces.index := by
    intro m hm
    rw [someSpaces_eq] at hm
    rw [List.mem_singleton.1 hm]
  rw [negated, hnot, Trial.pure_bind]
  refine Trial.stuckAt_bind hmiss fun p hp => ?_
  obtain ⟨hsp, rfl⟩ := someSpaces_eq_some_iff.1 hp
  exact (stuckAt_full (h hsp)).bind _

/-- Where an expression stands, no `NOT` in front of a statement is read, and nothing is missing as far ahead as the end
of the expression. -/
theorem negated_of_expression {e : Expression} (h : (expression full c).result = some (e, d)) :
    (negated full c).result = none ∧ ∀ m ∈ (negated full c).misses, m.index < d.index := by
  have hlt := (reads_expression reads_full h).index_lt
  by_cases hn : "NOT".toList <+: c.rest
  · obtain ⟨rest, hrest⟩ := hn
    have hw : (anyComparison c).result = some (e, d) := by
      rcases expression_eq_some_iff.1 h with hw | ⟨_, inner, hg, _⟩
      · exact hw
      · have ho := (group_eq_some_iff.1 hg).1
        rw [← hrest] at ho
        cases ho
    obtain ⟨t, ht, htd, hop⟩ := operator_of_anyComparison hw
    rw [← hrest] at ht
    have hword : ∀ x ∈ "NOT".toList, isFieldChar x = true := List.all_eq_true.1 (by decide)
    have hl := length_word_append hword ht
    have hl₃ : "NOT".toList.length = 3 := rfl
    have hr₁ : (c.advance 3).rest = rest := by
      show c.rest.drop 3 = rest
      rw [← hrest]
      rfl
    suffices hs : ((c.advance 3).rest.head? = some ' ' → NoStart (c.advance 3).pastSpaces) ∧
        (c.advance 3).pastSpaces.index < d.index by
      have hstuck := stuckAt_negated ⟨rest, hrest⟩ hs.1
      exact ⟨hstuck.1, fun m hm => by rw [hstuck.2 m hm]; exact hs.2⟩
    by_cases hsp : rest.head? = some ' '
    · -- the word ends behind `NOT`, and an operator follows the spaces
      obtain ⟨more, rfl⟩ := List.head?_eq_some_iff.1 hsp
      have ht₃ : t.length = 3 := by
        rw [hl, List.takeWhile_cons_of_neg (by decide)]
        rfl
      rw [ht₃, hr₁] at hop
      rcases hop with hop | ⟨op, q, _, hq, hqd⟩
      · cases hop
      have hqi := (spans_literal hq).index_eq
      exact ⟨fun _ => noStart_of_symbol hq, by omega⟩
    · refine ⟨fun hsp' => absurd (hr₁ ▸ hsp') hsp, ?_⟩
      have hi : (c.advance t.length).index = c.index + t.length := rfl
      rw [Cursor.pastSpaces_of_head (by rw [hr₁]; exact hsp)]
      show c.index + 3 < d.index
      omega
  · rw [negated, literal_eq_miss hn]
    refine ⟨rfl, fun m hm => ?_⟩
    rw [List.mem_singleton.1 hm]
    exact hlt

/-! ## Behind the first expression -/

/-- A connective between spaces. -/
def connective : Rule Connective := fun c => do
  let c ← someSpaces c
  let (link, c) ←
    (do let c ← literal Connective.and.keyword c; return (Connective.and, c))
    <|> (do let c ← literal Connective.or.keyword c; return (Connective.or, c))
  let c ← someSpaces c
  return (link, c)

/-- A connective and a statement, if both can be read. -/
def continuation : Rule (Option (Connective × Statement)) := fun c =>
  (do let (link, c) ← connective c; let (right, c) ← full c; return (some (link, right), c)) <|> pure (none, c)

theorem isSome_continuation (c : Cursor) : (continuation c).result.isSome := by
  rw [continuation, Trial.result_orElse, Option.isSome_or]
  exact Bool.or_true _

/-- The statement of an expression and what continues it. -/
def Statement.extend (start : Nat) (left : Expression) : Option (Connective × Statement) → Statement
  | some (link, right) => .join start left link right
  | none => .expression start left

/-- A statement, whose first expression is read once. -/
def factored : Rule Statement := fun c =>
  (do let (left, d) ← expression full c; let (next, d) ← continuation d; return (.extend c.index left next, d))
  <|> negated full c

/-- What a joined statement has behind its first expression. -/
def joinedBehind (start : Nat) (left : Expression) (link : Connective) : Rule Statement := fun c => do
  let c ← someSpaces c
  let c ← literal link.keyword c
  let c ← someSpaces c
  let (right, c) ← full c
  return (.join start left link right, c)

theorem keyword_exclusive (h : Connective.and.keyword.toList <+: c.rest) :
    ¬ Connective.or.keyword.toList <+: c.rest := by
  rintro ⟨v, hv⟩
  obtain ⟨u, hu⟩ := h
  rw [← hu] at hv
  cases hv

theorem connective_eq_some_iff {link : Connective} :
    (connective c).result = some (link, d) ↔ c.rest.head? = some ' ' ∧ ∃ c₁,
      (literal link.keyword c.pastSpaces).result = some c₁ ∧ (someSpaces c₁).result = some d := by
  simp only [connective, Trial.bind_eq_some_iff, Trial.orElse_eq_some_iff, Prod.exists, Trial.result_pure,
    Option.some.injEq, Prod.mk.injEq, someSpaces_eq_some_iff (c := c)]
  constructor
  · rintro ⟨_, ⟨hsp, rfl⟩, l, c₁, ⟨c₁, hl, rfl, rfl⟩ | ⟨_, c₁, hl, rfl, rfl⟩, d, hd, rfl, rfl⟩
    · exact ⟨hsp, c₁, hl, hd⟩
    · exact ⟨hsp, c₁, hl, hd⟩
  · rintro ⟨hsp, c₁, hl, hd⟩
    refine ⟨_, ⟨hsp, rfl⟩, link, c₁, ?_, d, hd, rfl, rfl⟩
    cases link with
    | and => exact .inl ⟨c₁, hl, rfl, rfl⟩
    | or =>
      have hn : ¬ Connective.and.keyword.toList <+: c.pastSpaces.rest := fun ha =>
        keyword_exclusive ha (literal_eq_some_iff.1 hl).1
      exact .inr ⟨by rw [literal_eq_miss hn]; rfl, c₁, hl, rfl, rfl⟩

theorem readsPlain_connective {link : Connective} (h : (connective c).result = some (link, d)) : c.ReadsPlain d := by
  obtain ⟨hsp, c₁, hl, hd⟩ := connective_eq_some_iff.1 h
  have hs := readsPlain_someSpaces (someSpaces_eq_some_iff.2 ⟨hsp, rfl⟩)
  exact (hs.trans (readsPlain_literal link.keyword_ne_nil link.plain_keyword hl)).trans (readsPlain_someSpaces hd)

/-- Two keywords, tried one after the other with all that follows them, are tried as well before what follows. -/
theorem keyword_like (f : Connective → Cursor → Trial β) (hf : ∀ link q, ∃ m ∈ (f link q).misses, q.index ≤ m.index) :
    ((literal Connective.and.keyword c >>= f .and) <|> (literal Connective.or.keyword c >>= f .or)).Like
      (((do let c ← literal Connective.and.keyword c; return (Connective.and, c))
        <|> (do let c ← literal Connective.or.keyword c; return (Connective.or, c)))
          >>= fun (link, q) => f link q) := by
  by_cases ha : Connective.and.keyword.toList <+: c.rest
  · rw [literal_eq_pure ha, literal_eq_miss (keyword_exclusive ha)]
    refine Trial.orElse_like_left rfl fun _ m hm => .inr ?_
    obtain ⟨n, hn, hle⟩ := hf .and (c.advance Connective.and.keyword.length)
    rw [List.mem_singleton.1 hm]
    refine ⟨n, hn, Nat.lt_of_lt_of_le ?_ hle⟩
    exact (readsPlain_literal (Connective.and.keyword_ne_nil) (Connective.and.plain_keyword)
      (literal_eq_some_iff.2 ⟨ha, rfl⟩)).reads.index_lt
  · rw [literal_eq_miss ha]
    by_cases ho : Connective.or.keyword.toList <+: c.rest
    · rw [literal_eq_pure ho]
      exact .refl _
    · rw [literal_eq_miss ho]
      exact .refl _

/-- Behind the first expression the connective decides. -/
theorem joinedBehind_like (start : Nat) (left : Expression) (c : Cursor) :
    (joinedBehind start left .and c <|> joinedBehind start left .or c).Like
      (connective c >>= fun (link, d) => full d >>= fun (right, e) => pure (.join start left link right, e)) := by
  let f (link : Connective) (q : Cursor) : Trial (Statement × Cursor) :=
    someSpaces q >>= fun d => full d >>= fun (right, e) => pure (.join start left link right, e)
  have hf : ∀ link q, ∃ m ∈ (f link q).misses, q.index ≤ m.index := by
    intro link q
    refine ⟨⟨q.pastSpaces.index, .token .space⟩, Trial.mem_misses_bind_left ?_, ?_⟩
    · rw [someSpaces_eq]
      exact List.mem_singleton_self _
    · have := q.spans_pastSpaces.index_eq
      show q.index ≤ q.pastSpaces.index
      omega
  refine (Trial.factor (someSpaces c) _ _).trans ?_
  rw [connective, Trial.bind_assoc]
  refine (Trial.Like.refl (someSpaces c)).bind fun p _ => ?_
  rw [Trial.bind_assoc]
  refine (keyword_like f hf).trans ((Trial.Like.refl _).bind fun ⟨link, q⟩ _ => ?_)
  show Trial.Like _ ((someSpaces q >>= fun d => pure (link, d)) >>= _)
  rw [Trial.bind_assoc]
  exact .refl _

/-- The failure of `NOT` behind an expression does not count: spaces are missing further on. -/
theorem negated_absorbed {left : Expression} (he : (expression full c).result = some (left, d)) :
    ((joined full .and c <|> joined full .or c) <|> negated full c).Like
      (joined full .and c <|> joined full .or c) := by
  obtain ⟨hn, hlt⟩ := negated_of_expression he
  refine Trial.orElse_like_left hn fun _ m hm => .inr ⟨⟨d.pastSpaces.index, .token .space⟩, ?_, ?_⟩
  · refine Trial.mem_misses_orElse_left (Trial.mem_misses_bind_right he (Trial.mem_misses_bind_left ?_))
    rw [someSpaces_eq]
    exact List.mem_singleton_self _
  · have := d.spans_pastSpaces.index_eq
    have := hlt m hm
    show m.index < d.pastSpaces.index
    omega

/-- What the rules have behind the first expression is a continuation. -/
theorem continuation_like (start : Nat) (left : Expression) (c : Cursor) :
    ((joinedBehind start left .and c <|> joinedBehind start left .or c) <|> pure (.expression start left, c)).Like
      (continuation c >>= fun q => pure (.extend start left q.1, q.2)) := by
  rw [continuation, Trial.orElse_bind_pure, Trial.bind_assoc]
  refine Trial.Like.orElse ((joinedBehind_like _ _ _).trans ((Trial.Like.refl _).bind fun q _ => ?_)) (.refl _)
  show Trial.Like _ ((full q.2 >>= fun r => pure (some (q.1, r.1), r.2)) >>= _)
  rw [Trial.bind_assoc]
  exact .refl _

/-- Where no expression stands only `NOT` counts. -/
theorem full_like_of_none (he : (expression full c).result = none) : (full c).Like (factored c) := by
  have hx : expression full c = ⟨none, (expression full c).misses⟩ := by rw [← he]
  generalize (expression full c).misses = m at hx
  rw [full_eq, factored, joined, joined, hx]
  generalize negated full c = t
  obtain ⟨_ | a, n⟩ := t
  · refine ⟨rfl, covered_of_subset ?_, covered_of_subset ?_⟩
    · show m ++ (m ++ (n ++ m)) ⊆ m ++ n
      grind
    · show m ++ n ⊆ m ++ (m ++ (n ++ m))
      grind
  · refine ⟨rfl, covered_of_subset ?_, covered_of_subset ?_⟩
    · show m ++ (m ++ n) ⊆ m ++ n
      grind
    · show m ++ n ⊆ m ++ (m ++ n)
      grind

/-- Behind an expression every statement goes on with a continuation. -/
theorem factored_of_expression {left : Expression} (he : (expression full c).result = some (left, d)) :
    factored c = expression full c >>= fun p => continuation p.2 >>= fun q => pure (.extend c.index p.1 q.1, q.2) := by
  obtain ⟨⟨next, e⟩, hq⟩ := Option.isSome_iff_exists.1 (isSome_continuation d)
  exact Trial.orElse_of_some (Trial.bind_eq_some_iff.2 ⟨_, he, Trial.bind_eq_some_iff.2 ⟨_, hq, rfl⟩⟩)

/-- **A statement can be read with its first expression read once**: the result is the same, and what is left out of the
misses lies before others or occurs among them. -/
theorem full_like_factored (c : Cursor) : (full c).Like (factored c) := by
  cases he : (expression full c).result with
  | none => exact full_like_of_none he
  | some p =>
    have hrules : full c = (((joined full .and c <|> joined full .or c) <|> negated full c)
        <|> (expression full c >>= fun p => pure (.expression c.index p.1, p.2))) := by
      rw [full_eq, Trial.orElse_assoc, Trial.orElse_assoc]
    rw [hrules, factored_of_expression he]
    refine ((negated_absorbed he).orElse (.refl _)).trans ?_
    refine ((Trial.factor (expression full c) _ _).orElse (.refl _)).trans ?_
    refine (Trial.factor (expression full c) _ _).trans ((Trial.Like.refl _).bind fun p _ => ?_)
    exact continuation_like c.index p.1 p.2

/-! ## What a statement is -/

theorem continuation_eq_some_iff {next : Option (Connective × Statement)} :
    (continuation c).result = some (next, d) ↔
      (∃ link right c₁, (connective c).result = some (link, c₁) ∧ (full c₁).result = some (right, d) ∧
        next = some (link, right)) ∨
      (∀ link c₁, (connective c).result = some (link, c₁) → (full c₁).result = none) ∧ next = none ∧ c = d := by
  simp only [continuation, Trial.orElse_eq_some_iff, Trial.bind_eq_some_iff, Prod.exists, Trial.result_pure,
    Option.some.injEq, Prod.mk.injEq]
  have hnone : ((do let (link, c) ← connective c; let (right, c) ← full c; return (some (link, right), c) :
      Trial (Option (Connective × Statement) × Cursor)).result = none) ↔
      ∀ link c₁, (connective c).result = some (link, c₁) → (full c₁).result = none := by
    rw [Trial.result_bind, Option.bind_eq_none_iff]
    simp only [Prod.forall, Trial.result_bind, Trial.result_pure, Option.bind_eq_none_iff]
    refine forall_congr' fun link => forall_congr' fun c₁ => forall_congr' fun _ => ?_
    rcases (full c₁).result with _ | ⟨right, e⟩ <;> simp
  rw [hnone]
  constructor
  · rintro (⟨link, c₁, hc, right, e, hr, rfl, rfl⟩ | ⟨hn, rfl, rfl⟩)
    · exact .inl ⟨link, right, c₁, hc, hr, rfl⟩
    · exact .inr ⟨hn, rfl, rfl⟩
  · rintro (⟨link, right, c₁, hc, hr, rfl⟩ | ⟨hn, rfl, rfl⟩)
    · exact .inl ⟨link, c₁, hc, right, d, hr, rfl, rfl⟩
    · exact .inr ⟨hn, rfl, rfl⟩

/-- A statement is an expression and what continues it or, where no expression stands, a negation. -/
theorem full_eq_some_iff {s : Statement} :
    (full c).result = some (s, d) ↔
      (∃ left c₁ next, (expression full c).result = some (left, c₁) ∧ (continuation c₁).result = some (next, d) ∧
        .extend c.index left next = s) ∨
      (expression full c).result = none ∧ (negated full c).result = some (s, d) := by
  rw [(full_like_factored c).result_eq]
  simp only [factored, Trial.orElse_eq_some_iff, Trial.bind_eq_some_iff, Prod.exists, Trial.result_pure,
    Option.some.injEq, Prod.mk.injEq]
  have hnone : ((do let (left, d) ← expression full c; let (next, d) ← continuation d
                    return (.extend c.index left next, d) : Trial (Statement × Cursor)).result = none) ↔
      (expression full c).result = none := by
    rw [Trial.result_bind, Option.bind_eq_none_iff]
    constructor
    · intro h
      cases he : (expression full c).result with
      | none => rfl
      | some p =>
        obtain ⟨q, hq⟩ := Option.isSome_iff_exists.1 (isSome_continuation p.2)
        have := h p he
        simp [Trial.result_bind, hq] at this
    · intro h p hp
      rw [h] at hp
      cases hp
  rw [hnone]
  refine or_congr_left ⟨?_, ?_⟩
  · rintro ⟨left, c₁, he, next, d, hc, rfl, rfl⟩
    exact ⟨left, c₁, next, he, hc, rfl⟩
  · rintro ⟨left, c₁, next, he, hc, rfl⟩
    exact ⟨left, c₁, he, next, d, hc, rfl, rfl⟩

/-- No connective stands where a statement ends. -/
theorem connective_of_closed (h : c.Closed) : (connective c).result = none := by
  cases hc : (connective c).result with
  | none => rfl
  | some p =>
    obtain ⟨link, d⟩ := p
    obtain ⟨_, c₁, hl, _⟩ := connective_eq_some_iff.1 hc
    obtain ⟨v, hv⟩ := (literal_eq_some_iff.1 hl).1
    rw [Cursor.Closed, ← hv] at h
    cases link <;> rcases h with h | h <;> cases h

/-- An expression where a statement ends is a statement. -/
theorem full_of_closed {left : Expression} (h : (expression full c).result = some (left, d)) (hd : d.Closed) :
    (full c).result = some (.expression c.index left, d) := by
  have hnone : (continuation d).result = some (none, d) := by
    refine continuation_eq_some_iff.2 (.inr ⟨?_, rfl, rfl⟩)
    intro link d' hlink
    rw [connective_of_closed hd] at hlink
    cases hlink
  exact full_eq_some_iff.2 (.inl ⟨left, d, none, h, hnone, rfl⟩)

/-- An expression in front of a connective and a statement is joined to it. -/
theorem full_of_joined {left : Expression} {link : Connective} {right : Statement} {c₁ c₂ : Cursor}
    (h : (expression full c).result = some (left, c₁)) (hl : (connective c₁).result = some (link, c₂))
    (hr : (full c₂).result = some (right, d)) : (full c).result = some (.join c.index left link right, d) :=
  full_eq_some_iff.2 (.inl ⟨left, c₁, some (link, right), h,
    continuation_eq_some_iff.2 (.inl ⟨link, right, c₂, hl, hr, rfl⟩), rfl⟩)

/-- A negation is a statement: no expression stands where it does. -/
theorem full_of_negated {s : Statement} (h : (negated full c).result = some (s, d)) :
    (full c).result = some (s, d) := by
  refine full_eq_some_iff.2 (.inr ⟨?_, h⟩)
  cases he : (expression full c).result with
  | none => rfl
  | some p =>
    rw [(negated_of_expression he).1] at h
    cases h

/-! ## The whole text -/

variable {s : Statement}

/-- A group is a statement. -/
theorem full_ne_none_of_group (h : (group full c).result = some (s, d)) : (full c).result ≠ none := by
  intro hn
  have he : (expression full c).result ≠ none := by
    intro hen
    rw [expression_eq, Trial.result_orElse, Option.or_eq_none_iff, Trial.result_bind, h] at hen
    cases hen.2
  obtain ⟨⟨left, c₁⟩, he⟩ := Option.ne_none_iff_exists'.1 he
  obtain ⟨⟨next, c₂⟩, hc⟩ := Option.isSome_iff_exists.1 (isSome_continuation c₁)
  rw [full_eq_some_iff.2 (.inl ⟨left, c₁, next, he, hc, rfl⟩)] at hn
  cases hn

theorem block_eq_some_iff : (block c).result = some (s, d) ↔ (full c).result = some (s, d) := by
  rw [block, Trial.orElse_eq_some_iff]
  exact ⟨fun h => h.resolve_right fun ⟨hn, hg⟩ => full_ne_none_of_group hg hn, .inl⟩

/-- **What a text is derived as**: the statement behind the leading spaces, if only spaces follow it. -/
theorem derivation_eq_some_iff {text : List Char} : (derivation text).result = some s ↔
    ∃ d, (full (Cursor.mk 0 text).pastSpaces).result = some (s, d) ∧ d.pastSpaces.rest = [] := by
  have hstart := @start_eq ⟨0, text⟩ (text.length + 1) (Nat.lt_succ_self _)
  simp only [derivation, hstart, Trial.bind_eq_some_iff, Prod.exists, Trial.result_pure,
    Option.some.injEq, Prod.mk.injEq, anySpaces_eq_some_iff, block_eq_some_iff]
  constructor
  · rintro ⟨_, _, ⟨_, rfl, s, d, hs, _, rfl, rfl, rfl⟩, hd⟩
    split at hd
    · next he =>
      cases hd
      exact ⟨d, hs, List.isEmpty_iff.1 he⟩
    · cases hd
  · rintro ⟨d, hs, hd⟩
    exact ⟨s, d.pastSpaces, ⟨_, rfl, s, d, hs, _, rfl, rfl, rfl⟩, by rw [hd]; rfl⟩

end SearchFilter.Grammar
