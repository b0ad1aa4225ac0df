import SearchFilter.Proofs.Offsets.Machine

/-!
# Reading at byte offsets agrees with the rules

Each step of the machine of byte offsets does what its rule does. So it never slices a text within a character, and it
comes to the end of every loop: a round of a loop reads something, and a statement is nested no deeper than the limit.

* `mirrors_token`, `mirrors_literal`, `mirrors_spaces` — tokens, which move the offset.
* `mirrors_expression` — an expression, read anew or remembered.
* `mirrors_links`, `mirrors_statement` — chains and statements.
-/

namespace SearchFilter.Offsets

variable {text : List Char} {depth : Nat} {c : Cursor} {s t : State}

/-! ## Tokens -/

section

variable {α β : Type}

theorem token_of_some {kind : TokenClass} {scan : Token α} {lexeme : Lexeme α} {rest : List Char}
    (hrest : behind s.offset text = .ok rest) (h : scan rest = some lexeme) : token text kind scan s =
      .ok (some lexeme.value, { s with offset := byteLength text - byteLength (rest.drop lexeme.length) }) := by
  simp only [token, hrest, h]

theorem token_of_none {kind : TokenClass} {scan : Token α} {rest : List Char}
    (hrest : behind s.offset text = .ok rest) (h : scan rest = none) :
    token text kind scan s = .ok (none, s.miss (.token kind)) := by
  simp only [token, hrest, h]

theorem rewinds_token (kind : TokenClass) (scan : Token α) : (token text kind scan).Rewinds := by
  intro s t h
  cases hrest : behind s.offset text with
  | error e => simp only [token, hrest] at h; cases h
  | ok rest =>
    cases hscan : scan rest with
    | none =>
      rw [token_of_none hrest hscan] at h
      cases h
      exact miss_offset s _
    | some lexeme =>
      rw [token_of_some hrest hscan] at h
      cases h

theorem rewinds_literal (word : String) : (literal text word).Rewinds := by
  intro s t h
  unfold literal at h
  split at h
  · cases h
  · split at h
    · cases h
    · cases h
      exact miss_offset s _

/-- A token is read up to a place between two characters. -/
theorem mirrors_token (kind : TokenClass) {scan : Token α} (hscan : scan.Takes) (c : Cursor) :
    Mirrors text depth c 1 id (Rule.token kind scan c) (token text kind scan) := by
  intro log s hs
  unfold Rule.token
  cases h : scan c.rest with
  | none => exact ⟨_, token_of_none hs.behind_eq h, .fail (hs.miss _)⟩
  | some lexeme =>
    obtain ⟨u, v, hu, hlength, hne, _⟩ := hscan _ _ h
    have hspans : c.Spans u (c.advance lexeme.length) := hlength ▸ Cursor.spans_advance hu
    have hin := hs.place.spans hspans
    exact ⟨_, token_of_some hs.behind_eq h, .read ⟨hs.agrees.seek _, hin, bytesAt_of_rest hin⟩ (hspans.index_lt hne)⟩

/-- A place alone. -/
def alone (c : Cursor) : Unit × Cursor := ((), c)

theorem mirrors_literal {word : String} (hne : word.toList ≠ []) (c : Cursor) :
    Mirrors text depth c 1 alone (Rule.literal word c) (literal text word) := by
  intro log s hs
  simp only [literal, hs.behind_eq]
  by_cases h : word.toList.isPrefixOf c.rest
  · obtain ⟨v, hv⟩ := List.isPrefixOf_iff_prefix.1 h
    have hspans : c.Spans word.toList (c.advance word.length) := by
      rw [← String.length_toList]
      exact Cursor.spans_advance hv.symm
    have hoffset : s.offset + word.utf8ByteSize = bytesAt text (c.advance word.length).index := by
      rw [bytesAt_of_spans hs.place hspans, hs.offset_eq, byteLength_toList]
    rw [if_pos h]
    refine ⟨_, rfl, ?_⟩
    rw [Rule.literal, if_pos h]
    exact .read (f := alone) ⟨hs.agrees.seek _, hs.place.spans hspans, hoffset⟩ (hspans.index_lt hne)
  · rw [if_neg h]
    refine ⟨_, rfl, ?_⟩
    rw [Rule.literal, if_neg h]
    exact .fail (hs.miss _)

/-- Where there are no spaces, the loop misses one. -/
theorem spaces_of_none {fuel : Nat} (h : token text .space Token.spaces s = .ok (none, t)) :
    spaces text (fuel + 1) s = .ok (some (), t) := by
  have hopt : (token text .space Token.spaces).optional s = .ok (some none, t) := by simp only [Reader.optional, h]
  exact Reader.bind_of_some hopt

theorem spaces_of_some {fuel : Nat} (h : token text .space Token.spaces s = .ok (some (), t)) :
    spaces text (fuel + 1) s = spaces text fuel t := by
  have hopt : (token text .space Token.spaces).optional s = .ok (some (some ()), t) := by simp only [Reader.optional, h]
  exact Reader.bind_of_some hopt

/-- A run of spaces is all spaces ahead. -/
theorem advance_of_spaces {lexeme : Lexeme Unit} (h : Token.spaces c.rest = some lexeme) :
    c.advance lexeme.length = c.pastSpaces ∧ c.pastSpaces.rest.length < c.rest.length := by
  obtain ⟨r, hrun, rfl⟩ := Option.map_eq_some_iff.1 h
  obtain ⟨htake, hne, hlength⟩ := Token.run_eq_some_iff.1 hrun
  refine ⟨by rw [Cursor.pastSpaces, htake, hlength], ?_⟩
  exact c.spans_pastSpaces.length_lt (by rwa [htake])

theorem pastSpaces_of_spaces (h : Token.spaces c.rest = none) : c.pastSpaces = c := by
  refine Cursor.pastSpaces_of_head fun hhead => ?_
  obtain ⟨rest, hrest⟩ := List.head?_eq_some_iff.1 hhead
  rw [hrest] at h
  simp [Token.spaces, Token.run] at h

theorem anySpaces_apply (c : Cursor) (log : Log) :
    Rule.anySpaces c log = (some c.pastSpaces, log.miss c.pastSpaces.index (.token .space)) := rfl

theorem mirrors_spaces (fuel : Nat) : ∀ c : Cursor, c.rest.length < fuel →
    Mirrors text depth c 0 alone (Rule.anySpaces c) (spaces text fuel) := by
  induction fuel with
  | zero => intro c h; omega
  | succ fuel ih =>
    intro c hc log s hs
    obtain ⟨r, hr, ho⟩ := mirrors_token .space Token.takes_spaces c log s hs
    cases hscan : Token.spaces c.rest with
    | none =>
      have hmiss : token text .space Token.spaces s = .ok (none, s.miss (.token .space)) :=
        token_of_none hs.behind_eq hscan
      have hstands : Stands text depth c (log.miss c.index (.token .space)) (s.miss (.token .space)) :=
        ⟨hs.miss _, hs.place, (miss_offset s _).trans hs.offset_eq⟩
      rw [anySpaces_apply, pastSpaces_of_spaces hscan]
      exact ⟨_, spaces_of_none hmiss, .read (f := alone) hstands (Nat.le_refl _)⟩
    | some lexeme =>
      obtain ⟨hadvance, hlt⟩ := advance_of_spaces hscan
      simp only [Rule.token, hscan, hadvance, Attempt.pure_apply] at ho
      cases ho with
      | @read _ _ s' hs' hle =>
        obtain ⟨r, hr', ho⟩ := ih c.pastSpaces (by omega) log s' hs'
        rw [anySpaces_apply, Cursor.pastSpaces_pastSpaces, ← anySpaces_apply] at ho
        exact ⟨r, (spaces_of_some hr).trans hr', ho.mono (Nat.le_of_lt hle)⟩

theorem mirrors_anySpaces (c : Cursor) : Mirrors text depth c 0 alone (Rule.anySpaces c) (anySpaces text) := by
  intro log s hs
  have hends := hs.place.endsAt
  unfold Cursor.EndsAt at hends
  exact mirrors_spaces (text.length + 1) c (by omega) log s hs

theorem mirrors_someSpaces (c : Cursor) : Mirrors text depth c 1 alone (Rule.someSpaces c) (someSpaces text) :=
  (mirrors_token _ Token.takes_spaces c).bind fun ⟨_, d⟩ => mirrors_anySpaces d

/-! ## Values and comparisons -/

/-- A step with its value changed by `f`. -/
theorem rewinds_map {γ : Type} {m : Reader α} (hm : m.Rewinds) (f : α → γ) : (m >>= fun a => pure (f a)).Rewinds :=
  hm.bind fun _ _ _ => nofun

theorem mirrors_value (c : Cursor) : Mirrors text depth c 1 id (Rule.value c) (value text) := by
  have htoken {γ : Type} {kind : TokenClass} {scan : Token γ} (hscan : scan.Takes) (f : γ → Literal) :
      Mirrors text depth c 1 id (Rule.token kind scan c >>= fun p => pure (f p.1, p.2))
        (token text kind scan >>= fun a => pure (f a)) :=
    (mirrors_token kind hscan c).bind fun p => mirrors_pure id (f p.1, p.2)
  have hrewinds {γ : Type} {kind : TokenClass} {scan : Token γ} (f : γ → Literal) :
      (token text kind scan >>= fun a => pure (f a)).Rewinds := rewinds_map (rewinds_token kind scan) f
  exact (htoken Token.takes_number .number).orElse (hrewinds _)
    ((htoken Token.takes_boolean .boolean).orElse (hrewinds _)
      ((htoken Token.takes_null fun _ => .null).orElse (hrewinds _) (htoken Token.takes_text .text)))

theorem mirrors_hasComparison (c : Cursor) : Mirrors text depth c 1 id (Rule.hasComparison c) (hasComparison text) :=
  (mirrors_token _ Token.takes_word c).bind fun ⟨field, c₁⟩ =>
    (mirrors_literal (Operator.symbol_ne_nil _) c₁).bind fun c₂ =>
    (mirrors_value c₂).bind fun ⟨v, d⟩ => mirrors_pure id (Filter.compare .has field (.literal v), d)

theorem mirrors_comparison (op : Operator) (c : Cursor) :
    Mirrors text depth c 1 id (Rule.comparison op c) (comparison text op) :=
  (mirrors_token _ Token.takes_word c).bind fun ⟨field, c₁⟩ => (mirrors_anySpaces c₁).bind fun c₂ =>
    (mirrors_literal op.symbol_ne_nil c₂).bind fun c₃ => (mirrors_anySpaces c₃).bind fun c₄ =>
      (mirrors_value c₄).bind fun ⟨v, d⟩ => mirrors_pure id (Filter.compare op field (.literal v), d)

/-! ## Statements -/

section

variable {inner : Rule Filter} {m : Reader Filter}

theorem mirrors_group (hi : ∀ d, Mirrors text depth d 1 id (inner d) m) (c : Cursor) :
    Mirrors text depth c 1 id (Rule.group inner c) (group text m) :=
  (mirrors_literal (by decide) c).bind fun c₁ => (mirrors_anySpaces c₁).bind fun c₂ => (hi c₂).bind fun ⟨f, c₃⟩ =>
    (mirrors_anySpaces c₃).bind fun c₄ => (mirrors_literal (by decide) c₄).bind fun d => mirrors_pure id (f, d)

theorem mirrors_negation (hi : ∀ d, Mirrors text depth d 1 id (inner d) m) (c : Cursor) :
    Mirrors text depth c 1 id (Rule.negation inner c) (negation text m) :=
  (mirrors_literal (by decide) c).bind fun c₁ => (mirrors_someSpaces c₁).bind fun c₂ => (hi c₂).bind fun ⟨f, d⟩ =>
    mirrors_pure id (Filter.not f, d)

theorem mirrors_alternatives (hi : ∀ d, Mirrors text depth d 1 id (inner d) m) (c : Cursor) :
    Mirrors text depth c 1 id (Rule.alternatives inner c) (alternatives text m) := by
  have hcomparison (op : Operator) : Mirrors text depth c 1 id (Rule.comparison op c) (comparison text op).attempt :=
    (mirrors_comparison op c).attempt
  refine (mirrors_hasComparison c).attempt.orElse (Reader.rewinds_attempt _) ?_
  iterate 5 refine (hcomparison _).orElse (Reader.rewinds_attempt _) ?_
  exact (mirrors_group hi c).attempt

theorem rewinds_alternatives (m : Reader Filter) : (alternatives text m).Rewinds := by
  unfold alternatives
  iterate 6 refine (Reader.rewinds_attempt _).orElse ?_
  exact Reader.rewinds_attempt _

theorem expression_of_known {result : Option (Filter × Nat)} (h : s.known[s.offset]? = some result) :
    expression text m s = .ok (result.map (·.1), { s with offset := result.elim s.offset (·.2) }) := by
  rcases result with _ | ⟨f, stop⟩ <;> simp only [expression, h] <;> rfl

theorem expression_of_unknown {result : Option Filter} (h : s.known[s.offset]? = none)
    (ha : alternatives text m s = .ok (result, t)) : expression text m s =
      .ok (result, { t with known := t.known.insert s.offset (result.map fun f => (f, t.offset)) }) := by
  simp only [expression, h, ha]

/-- **An expression** is remembered at its offset, with the offset of the place behind it. -/
theorem mirrors_expression (hi : ∀ d, Mirrors text depth d 1 id (inner d) m) (c : Cursor) :
    Mirrors text depth c 1 id (Rule.expression inner c) (expression text m) := by
  intro log s hs
  have hknown := hs.agrees.known_eq c.index hs.index_le
  rw [← hs.offset_eq] at hknown
  cases hlog : log.known[c.index]? with
  | some result =>
    rw [hlog] at hknown
    rw [Rule.expression_of_known hlog, expression_of_known hknown]
    rcases result with _ | ⟨f, d⟩
    · exact ⟨_, rfl, .fail hs.agrees⟩
    · obtain ⟨hd, hlt⟩ := hs.agrees.known_in c.index hs.index_le f d hlog
      exact ⟨_, rfl, .read (f := id) ⟨hs.agrees.seek _, hd, rfl⟩ hlt⟩
  | none =>
    rw [hlog] at hknown
    obtain ⟨r, hr, ho⟩ := mirrors_alternatives hi c log s hs
    rw [Rule.expression_of_unknown hlog]
    generalize Rule.alternatives inner c log = q at ho
    cases ho with
    | @read b log' s' hs' hle =>
      obtain ⟨f, d⟩ := b
      have hd : s'.offset = bytesAt text d.index := hs'.offset_eq
      have hlearn := hs'.agrees.learn (r := some (f, d)) hs.place (by rintro _ _ ⟨⟩; exact ⟨hs'.place, hle⟩)
      rw [← hs.offset_eq, Option.map_some, ← hd] at hlearn
      exact ⟨_, expression_of_unknown hknown hr, .read (f := id) ⟨hlearn, hs'.place, hd⟩ hle⟩
    | @fail log' s' h =>
      refine ⟨_, expression_of_unknown hknown hr, .fail ?_⟩
      rw [hs.offset_eq]
      exact h.learn (r := none) hs.place nofun

theorem rewinds_expression (m : Reader Filter) : (expression text m).Rewinds := by
  intro s t h
  cases hknown : s.known[s.offset]? with
  | some result =>
    rw [expression_of_known hknown] at h
    rcases result with _ | ⟨f, stop⟩
    · cases h
      rfl
    · cases h
  | none =>
    rcases hs : alternatives text m s with e | ⟨result, t'⟩
    · simp only [expression, hknown, hs] at h
      cases h
    · rw [expression_of_unknown hknown hs] at h
      cases h
      exact rewinds_alternatives m s t' hs

/-- A connective between spaces. -/
theorem mirrors_connective (c : Cursor) : Mirrors text depth c 1 id (Rule.connective c) (connective text) := by
  have hkeyword (link : Connective) (c : Cursor) : Mirrors text depth c 1 id
      (Rule.literal link.keyword c >>= fun d => pure (link, d)) (literal text link.keyword >>= fun _ => pure link) :=
    (mirrors_literal link.keyword_ne_nil c).bind fun d => mirrors_pure id (link, d)
  exact (mirrors_someSpaces c).bind fun c₁ =>
    ((hkeyword .and c₁).orElse (rewinds_map (rewinds_literal _) _) (hkeyword .or c₁)).bind fun ⟨link, c₂⟩ =>
      (mirrors_someSpaces c₂).bind fun d => mirrors_pure id (link, d)

/-- A round of a chain. -/
theorem links_succ_apply (m : Reader Filter) (fuel : Nat) (last : Filter) (earlier : List (Filter × Connective))
    (s : State) : links text m (fuel + 1) last earlier s =
      match connective text s with
      | .error e => .error e
      | .ok (none, t) => .ok (some (Rule.joinAll last earlier), { t with offset := s.offset })
      | .ok (some link, t) =>
        match expression text m t with
        | .error e => .error e
        | .ok (some operand, t) => links text m fuel operand ((last, link) :: earlier) t
        | .ok (none, t) =>
          match (negation text m).attempt t with
          | .error e => .error e
          | .ok (some operand, t) => .ok (some (Rule.joinAll operand ((last, link) :: earlier)), t)
          | .ok (none, t) => .ok (some (Rule.joinAll last earlier), { t with offset := s.offset }) := by
  rw [links]
  simp only [Reader.bind_apply, Reader.here, Reader.optional]
  rcases connective text s with e | ⟨_ | link, t⟩
  · rfl
  · rfl
  dsimp only [Reader.bind_apply, Reader.optional]
  rcases expression text m t with e | ⟨_ | operand, t⟩
  · rfl
  · dsimp only [Reader.bind_apply, Reader.optional]
    rcases (negation text m).attempt t with e | ⟨_ | operand, t⟩
    · rfl
    · rfl
    · rfl
  · rfl

/-- The rest of a chain never fails: it may be empty. -/
theorem links_ne_none (m : Reader Filter) (fuel : Nat) : ∀ (last : Filter) (earlier : List (Filter × Connective))
    (s t : State), links text m fuel last earlier s ≠ .ok (none, t) := by
  induction fuel with
  | zero => exact fun _ _ _ _ => nofun
  | succ fuel ih =>
    intro last earlier s t
    rw [links_succ_apply]
    rcases connective text s with e | ⟨_ | link, t₁⟩
    · exact nofun
    · exact nofun
    dsimp only
    rcases expression text m t₁ with e | ⟨_ | operand, t₂⟩
    · exact nofun
    · dsimp only
      rcases (negation text m).attempt t₂ with e | ⟨_ | operand, t₃⟩ <;> exact nofun
    · exact ih operand _ t₂ t

/-- **The rest of a chain.** Each round reads a connective at least, so there is enough fuel for all of them. -/
theorem mirrors_links (hi : ∀ d, Mirrors text depth d 1 id (inner d) m) (fuel : Nat) :
    ∀ (last : Filter) (earlier : List (Filter × Connective)) (c : Cursor), text.length < c.index + fuel →
      Mirrors text depth c 0 id (Rule.links inner fuel last earlier c) (links text m fuel last earlier) := by
  induction fuel with
  | zero =>
    intro last earlier c hfuel log s hs
    have := hs.index_le
    omega
  | succ fuel ih =>
    intro last earlier c hfuel log s hs
    -- Where nothing more is read, the machine is back at `c`.
    have hback {log' : Log} {s' : State} (h : Agrees text depth log' s') :
        Outcome text depth (c.index + 0) id (some (Rule.joinAll last earlier, c), log')
          (some (Rule.joinAll last earlier), { s' with offset := s.offset }) :=
      .read (f := id) ⟨h.seek _, hs.place, hs.offset_eq⟩ (Nat.le_refl _)
    rw [Rule.links_succ_apply, links_succ_apply]
    obtain ⟨r₁, h₁, ho₁⟩ := mirrors_connective c log s hs
    rw [h₁]
    generalize Rule.connective c log = q₁ at ho₁
    cases ho₁ with
    | fail h => exact ⟨_, rfl, hback h⟩
    | @read b₁ l₁ s₁ hs₁ hle₁ =>
      obtain ⟨link, c₁⟩ := b₁
      obtain ⟨r₂, h₂, ho₂⟩ := mirrors_expression hi c₁ l₁ s₁ hs₁
      dsimp only [id] at hs₁ hle₁ ⊢
      rw [h₂]
      generalize Rule.expression inner c₁ l₁ = q₂ at ho₂
      cases ho₂ with
      | @read b₂ l₂ s₂ hs₂ hle₂ =>
        obtain ⟨operand, c₂⟩ := b₂
        dsimp only [id] at hs₂ hle₂ ⊢
        obtain ⟨r₃, h₃, ho₃⟩ := ih operand ((last, link) :: earlier) c₂ (by omega) l₂ s₂ hs₂
        exact ⟨r₃, h₃, ho₃.mono (by omega)⟩
      | @fail l₂ s₂ hagrees₂ =>
        have hs₂ : Stands text depth c₁ l₂ s₂ :=
          ⟨hagrees₂, hs₁.place, (rewinds_expression m s₁ s₂ h₂).trans hs₁.offset_eq⟩
        obtain ⟨r₃, h₃, ho₃⟩ := (mirrors_negation hi c₁).attempt l₂ s₂ hs₂
        dsimp only
        rw [h₃]
        generalize Rule.negation inner c₁ l₂ = q₃ at ho₃
        cases ho₃ with
        | fail h => exact ⟨_, rfl, hback h⟩
        | @read b₃ l₃ s₃ hs₃ hle₃ =>
          obtain ⟨operand, c₃⟩ := b₃
          dsimp only [id] at hs₃ hle₃ ⊢
          exact ⟨_, rfl, .read (f := id) hs₃ (by dsimp only [id]; omega)⟩

theorem mirrors_chain (hi : ∀ d, Mirrors text depth d 1 id (inner d) m) (c : Cursor) :
    Mirrors text depth c 1 id (Rule.chain text.length inner c) (chain text m) :=
  (mirrors_expression hi c).bind_of_le fun ⟨first, d⟩ hle => mirrors_links hi text.length first [] d (by
    dsimp only [id] at hle
    omega)

theorem rewinds_chain (m : Reader Filter) : (chain text m).Rewinds :=
  (rewinds_expression m).bind fun first s t => links_ne_none m text.length first [] s t

end

theorem statement_succ_apply (calls : Nat) (s : State) : statement text (calls + 1) s =
    if s.overflow.isSome then .ok (none, s)
    else if nestingLimit ≤ s.depth then .ok (none, { s with overflow := some s.offset })
    else
      match (chain text (statement text calls) <|> (negation text (statement text calls)).attempt)
        { s with depth := s.depth + 1 } with
      | .error e => .error e
      | .ok (result, t) => .ok (result, { t with depth := t.depth - 1 }) := rfl

theorem rewinds_statement (calls : Nat) : (statement text calls).Rewinds := by
  cases calls with
  | zero => exact fun _ _ => nofun
  | succ calls =>
    intro s t h
    rw [statement_succ_apply] at h
    split at h
    · cases h
      rfl
    split at h
    · cases h
      rfl
    split at h
    · cases h
    · next result t' hs =>
      cases h
      have hrewinds : (chain text (statement text calls) <|> (negation text (statement text calls)).attempt).Rewinds :=
        (rewinds_chain _).orElse (Reader.rewinds_attempt _)
      exact hrewinds { s with depth := s.depth + 1 } t' hs

/-- **A statement** that may nest `levels` statements is one with as many around it as the limit leaves. -/
theorem mirrors_statement (levels : Nat) : ∀ depth, depth + levels = nestingLimit → ∀ c,
    Mirrors text depth c 1 id (Rule.statement text.length levels c) (statement text (levels + 1)) := by
  induction levels with
  | zero =>
    intro depth hdepth c log s hs
    have hdeep : nestingLimit ≤ s.depth := by rw [hs.agrees.depth_eq]; omega
    have hexceed : Rule.statement text.length 0 c log = (none, log.exceed c.index) := rfl
    rw [statement_succ_apply, if_pos hdeep, hexceed, hs.overflow_isSome]
    cases hover : log.overflow with
    | none =>
      refine ⟨_, rfl, .fail { hs.agrees with overflow_eq := ?_ }⟩
      simp [Log.exceed, hover, hs.offset_eq]
    | some i =>
      refine ⟨_, rfl, .fail { hs.agrees with overflow_eq := ?_ }⟩
      simp [Log.exceed, hs.agrees.overflow_eq, hover]
  | succ levels ih =>
    intro depth hdepth c log s hs
    have hdeep : ¬ nestingLimit ≤ s.depth := by rw [hs.agrees.depth_eq]; omega
    have hinner := ih (depth + 1) (by omega)
    have hboth := (mirrors_chain hinner c).orElse (rewinds_chain _) (mirrors_negation hinner c).attempt
    have hs' : Stands text (depth + 1) c log { s with depth := s.depth + 1 } :=
      ⟨hs.agrees.depth_eq ▸ hs.agrees.atDepth (s.depth + 1), hs.place, hs.offset_eq⟩
    obtain ⟨r, hr, ho⟩ := hboth log _ hs'
    have hrule : Rule.statement text.length (levels + 1) c log = if log.overflow.isSome then (none, log) else
      (Rule.chain text.length (Rule.statement text.length levels) c
        <|> Rule.negation (Rule.statement text.length levels) c) log := rfl
    rw [statement_succ_apply, if_neg hdeep, hrule, hs.overflow_isSome, hr]
    split
    · exact ⟨_, rfl, .fail hs.agrees⟩
    · generalize (Rule.chain text.length (Rule.statement text.length levels) c
        <|> Rule.negation (Rule.statement text.length levels) c) log = q at ho
      cases ho with
      | @read b log' t hs'' hle =>
        have hdepth' : t.depth - 1 = depth := by rw [hs''.agrees.depth_eq]; rfl
        exact ⟨_, rfl, .read (f := id) ⟨hdepth' ▸ hs''.agrees.atDepth _, hs''.place, hs''.offset_eq⟩ hle⟩
      | @fail log' t h =>
        have hdepth' : t.depth - 1 = depth := by rw [h.depth_eq]; rfl
        exact ⟨_, rfl, .fail (hdepth' ▸ h.atDepth _)⟩

theorem mirrors_start (c : Cursor) : Mirrors text 0 c 0 id (Rule.start text.length c) (start text) := by
  have hstatement (d : Cursor) : Mirrors text 0 d 1 id (Rule.statement text.length nestingLimit d)
    (statement text (nestingLimit + 1)) := mirrors_statement nestingLimit 0 (Nat.zero_add _) d
  exact (mirrors_anySpaces c).bind fun c₁ =>
    ((hstatement c₁).orElse (rewinds_statement _) (mirrors_group hstatement c₁).attempt).bind fun ⟨f, c₂⟩ =>
      (mirrors_anySpaces c₂).bind fun d => mirrors_pure id (f, d)

end

end SearchFilter.Offsets
