import SearchFilter.Proofs.Grammar.Factoring

/-!
# What is missing where

What a rule misses comes from one of its parts. At the end of a text a statement misses what it misses with its first
expression read once (`mem_misses_full_iff`), so that a miss there is one of an expression, of what continues it, or of
a negation.

* `mem_misses_factored`, `mem_misses_continuation`, `mem_misses_connective` — the parts of statements.
* `space_mem_misses_full` — behind a statement one space more is missing.
-/

namespace SearchFilter.Grammar

variable {α β : Type} {c d : Cursor} {n : Nat} {m : Miss}

namespace Trial

variable {t u : Trial α}

theorem mem_misses_bind {f : α → Trial β} (h : m ∈ (t >>= f).misses) :
    m ∈ t.misses ∨ ∃ a, t.result = some a ∧ m ∈ (f a).misses := by
  obtain ⟨_ | a, ms⟩ := t
  · exact .inl h
  · exact (List.mem_append.1 h).imp_right fun h => ⟨a, rfl, h⟩

theorem mem_misses_orElse (h : m ∈ (t <|> u).misses) : m ∈ t.misses ∨ t.result = none ∧ m ∈ u.misses := by
  obtain ⟨_ | a, ms⟩ := t
  · exact (List.mem_append.1 h).imp_right fun h => ⟨rfl, h⟩
  · exact .inl h

end Trial

open Trial

/-! ## Tokens -/

theorem eq_of_mem_token {kind : TokenClass} {scan : Token α} (h : m ∈ (token kind scan c).misses) :
    m = ⟨c.index, .token kind⟩ := by
  unfold token at h
  split at h
  · cases h
  · exact List.mem_singleton.1 h

theorem eq_of_mem_literal {text : String} (h : m ∈ (literal text c).misses) : m = ⟨c.index, .literal text⟩ := by
  unfold literal at h
  split at h
  · cases h
  · exact List.mem_singleton.1 h

theorem eq_of_mem_anySpaces (h : m ∈ (anySpaces c).misses) : m = ⟨c.pastSpaces.index, .token .space⟩ :=
  List.mem_singleton.1 h

theorem eq_of_mem_someSpaces (h : m ∈ (someSpaces c).misses) : m = ⟨c.pastSpaces.index, .token .space⟩ := by
  rw [someSpaces_eq] at h
  exact List.mem_singleton.1 h

/-- At the end of the text nothing is ahead. -/
theorem rest_eq_nil (hc : c.EndsAt n) (h : c.index = n) : c.rest = [] := by
  unfold Cursor.EndsAt at hc
  exact List.length_eq_zero_iff.1 (by omega)

/-! ## Statements -/

theorem within_full (hc : c.EndsAt n) : (full c).Within n := within_statement _ c hc

/-- At the end of the text a statement misses what it misses with its first expression read once. -/
theorem mem_misses_full_iff (hc : c.EndsAt n) (hi : m.index = n) : m ∈ (full c).misses ↔ m ∈ (factored c).misses := by
  have hlike := full_like_factored c
  constructor
  · intro h
    refine (hlike.covered m h).resolve_right fun ⟨k, hk, hlt⟩ => ?_
    rcases hlike.covers k hk with hk | ⟨k', hk', hlt'⟩
    · exact absurd (within_full hc k hk) (by omega)
    · exact absurd (within_full hc k' hk') (by omega)
  · intro h
    refine (hlike.covers m h).resolve_right fun ⟨k, hk, hlt⟩ => ?_
    exact absurd (within_full hc k hk) (by omega)

theorem mem_misses_factored (h : m ∈ (factored c).misses) : m ∈ (expression full c).misses ∨
    (∃ left d, (expression full c).result = some (left, d) ∧ m ∈ (continuation d).misses) ∨
      m ∈ (negated full c).misses := by
  rcases mem_misses_orElse h with h | ⟨_, h⟩
  · rcases mem_misses_bind h with h | ⟨⟨left, d⟩, hd, h⟩
    · exact .inl h
    rcases mem_misses_bind h with h | ⟨_, _, h⟩
    · exact .inr (.inl ⟨left, d, hd, h⟩)
    · cases h
  · exact .inr (.inr h)

theorem mem_misses_continuation (h : m ∈ (continuation c).misses) : m ∈ (connective c).misses ∨
    ∃ link d, (connective c).result = some (link, d) ∧ m ∈ (full d).misses := by
  rcases mem_misses_orElse h with h | ⟨_, h⟩
  · rcases mem_misses_bind h with h | ⟨⟨link, d⟩, hd, h⟩
    · exact .inl h
    rcases mem_misses_bind h with h | ⟨_, _, h⟩
    · exact .inr ⟨link, d, hd, h⟩
    · cases h
  · cases h

/-- What is missing of a connective: a space, a keyword behind spaces, or a space behind the keyword. -/
theorem mem_misses_connective (h : m ∈ (connective c).misses) : m = ⟨c.pastSpaces.index, .token .space⟩ ∨
    c.rest.head? = some ' ' ∧ ∃ link : Connective, m = ⟨c.pastSpaces.index, .literal link.keyword⟩ ∨
      ∃ d, (literal link.keyword c.pastSpaces).result = some d ∧ m = ⟨d.pastSpaces.index, .token .space⟩ := by
  rcases mem_misses_bind h with h | ⟨c₁, h₁, h⟩
  · exact .inl (eq_of_mem_someSpaces h)
  obtain ⟨hsp, rfl⟩ := someSpaces_eq_some_iff.1 h₁
  have hkeyword (link : Connective)
      (h : m ∈ (literal link.keyword c.pastSpaces >>= fun d => (Pure.pure (link, d) : Trial _)).misses) :
      m = ⟨c.pastSpaces.index, .literal link.keyword⟩ := by
    rcases mem_misses_bind h with h | ⟨_, _, h⟩
    · exact eq_of_mem_literal h
    · cases h
  refine .inr ⟨hsp, ?_⟩
  rcases mem_misses_bind h with h | ⟨⟨link, d⟩, hd, h⟩
  · rcases mem_misses_orElse h with h | ⟨_, h⟩
    · exact ⟨.and, .inl (hkeyword _ h)⟩
    · exact ⟨.or, .inl (hkeyword _ h)⟩
  have hl : (literal link.keyword c.pastSpaces).result = some d := by
    simp only [Trial.orElse_eq_some_iff, Trial.bind_eq_some_iff, Trial.result_pure, Option.some.injEq,
      Prod.mk.injEq] at hd
    rcases hd with ⟨_, hl, rfl, rfl⟩ | ⟨_, _, hl, rfl, rfl⟩ <;> exact hl
  rcases mem_misses_bind h with h | ⟨_, _, h⟩
  · exact ⟨link, .inr ⟨d, hl, eq_of_mem_someSpaces h⟩⟩
  · cases h

/-- Behind a statement that ends the text one space more is missing. -/
theorem space_mem_misses_full (hc : c.EndsAt n) (h : (full c).result = some (s, d)) (hd : d.pastSpaces.rest = []) :
    (⟨n, .token .space⟩ : Miss) ∈ (full c).misses := by
  induction c using Cursor.induction_rest generalizing s with
  | _ c ih =>
  refine (mem_misses_full_iff hc rfl).2 ?_
  rcases full_eq_some_iff.1 h with ⟨left, c₁, next, hleft, hnext, _⟩ | ⟨hnone, hneg⟩
  · have hr₁ := reads_expression reads_full hleft
    refine mem_misses_orElse_left (mem_misses_bind_right hleft (mem_misses_bind_left (mem_misses_orElse_left ?_)))
    rcases continuation_eq_some_iff.1 hnext with ⟨link, right, c₂, hlink, hright, _⟩ | ⟨_, _, rfl⟩
    · have hr := hr₁.trans (readsPlain_connective hlink).reads
      exact mem_misses_bind_right hlink (mem_misses_bind_left (ih c₂ hr.length_lt (hr.endsAt hc) hright))
    · have hindex : c₁.pastSpaces.index = n := by
        have hends := c₁.spans_pastSpaces.endsAt (hr₁.endsAt hc)
        unfold Cursor.EndsAt at hends
        rw [← hends, hd]
        rfl
      refine mem_misses_bind_left (mem_misses_bind_left ?_)
      rw [someSpaces_eq, ← hindex]
      exact List.mem_singleton_self _
  · obtain ⟨c₁, c₂, operand, h₁, h₂, hr, _⟩ := negated_eq_some_iff.1 hneg
    have hr₂ := (readsPlain_someSpaces h₂).reads
    have hs₁ := spans_literal h₁
    have hlt := hs₁.length_lt (by decide)
    have hlt' := hr₂.length_lt
    have hmem := ih c₂ (by omega) (hr₂.endsAt (hs₁.endsAt hc)) hr
    rw [factored, misses_orElse]
    split
    · next hsome =>
      rw [Trial.result_bind, hnone] at hsome
      cases hsome
    · exact List.mem_append_right _ (mem_misses_bind_right h₁ (mem_misses_bind_right h₂ (mem_misses_bind_left hmem)))

end SearchFilter.Grammar
