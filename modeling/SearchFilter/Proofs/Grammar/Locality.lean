import SearchFilter.Proofs.Grammar.Levels

/-!
# Reading in front of a closing parenthesis

No token goes on behind a closing parenthesis, and none looks at it: a text that leaves no parenthesis open reads in
front of one as it reads at the end of the input (`full_enclose`).

* `Cursor.enclose` — the same place in a longer text.
* `Token.StopsAt` — scanners that do not look behind a character; `Token.Local`, those that stop at a closing
  parenthesis.
* `Trial.Mirrors` — the same result, renamed.
-/

namespace SearchFilter

open Text (Balanced NoStrayOpen)

/-! ## Scanners -/

section

variable {kind : Char → Bool} {x : Char} {word : List Char}

theorem takeWhile_append_stop (h : kind x = false) (u t : List Char) :
    (u ++ x :: t).takeWhile kind = u.takeWhile kind := by
  induction u with
  | nil => simp [h]
  | cons y u ih => simp only [List.cons_append, List.takeWhile_cons, ih]

theorem isPrefixOf_append_stop (h : x ∉ word) (u t : List Char) :
    word.isPrefixOf (u ++ x :: t) = word.isPrefixOf u := by
  induction word generalizing u with
  | nil => rfl
  | cons y word ih =>
    rw [List.mem_cons, not_or] at h
    cases u with
    | nil =>
      have hyx : (y == x) = false := beq_eq_false_iff_ne.2 fun he => h.1 he.symm
      simp [List.isPrefixOf, hyx]
    | cons v u => simp only [List.cons_append, List.isPrefixOf, ih h.2]

end

namespace Token

variable {α : Type}

/-- A scanner that the character stops. -/
def StopsAt (x : Char) (scan : Token α) : Prop := ∀ u t, scan (u ++ x :: t) = scan u

/-- A scanner that a closing parenthesis stops. -/
def Local (scan : Token α) : Prop := ∀ u t, scan (u ++ ')' :: t) = scan u

/-- The characters that stop every scanner. -/
def IsBreak (x : Char) : Prop := x = ' ' ∨ x = ')'

variable {x : Char}

theorem stopsAt_run {kind : Char → Bool} (h : kind x = false) : StopsAt x (run kind) := fun u t => by
  simp only [run, takeWhile_append_stop h]

theorem stopsAt_fixed {word : String} (value : α) (h : x ∉ word.toList) : StopsAt x (fixed word value) := fun u t => by
  simp only [fixed, isPrefixOf_append_stop h]

theorem stopsAt_word (h : IsBreak x) : StopsAt x word := fun u t => by
  have hx : isFieldChar x = false := by rcases h with rfl | rfl <;> decide
  simp only [word, stopsAt_run hx u t]

theorem local_spaces : Local spaces := fun u t => by
  simp only [spaces, @stopsAt_run ')' (· == ' ') (by decide) u t]

theorem stopsAt_number (h : IsBreak x) : StopsAt x number := fun u t => by
  have hx : x.isDigit = false := by rcases h with rfl | rfl <;> decide
  simp only [number, stopsAt_run hx u t]

theorem stopsAt_boolean (h : IsBreak x) : StopsAt x boolean := fun u t => by
  have hx : x ∉ "true".toList ∧ x ∉ "false".toList := by rcases h with rfl | rfl <;> decide
  simp only [boolean, stopsAt_fixed true hx.1 u t, stopsAt_fixed false hx.2 u t]

theorem stopsAt_null (h : IsBreak x) : StopsAt x null := stopsAt_fixed () (by rcases h with rfl | rfl <;> decide)

theorem IsBreak.bare_eq (h : IsBreak x) : isBareChar x = false := by rcases h with rfl | rfl <;> rfl

theorem stopsAt_closing {quote : Char} (h : IsBreak x) (hq : quote ≠ x) (u t : List Char) :
    closing quote (u ++ x :: t) = closing quote u := by
  have hle : (u.takeWhile isBareChar).length ≤ u.length := (List.takeWhile_prefix _).length_le
  have hhead : ((u ++ x :: t).drop (u.takeWhile isBareChar).length).head? = some quote ↔
      (u.drop (u.takeWhile isBareChar).length).head? = some quote := by
    rw [List.drop_append_of_le_length hle]
    cases u.drop (u.takeWhile isBareChar).length with
    | nil => simp [hq.symm]
    | cons y v => rfl
  simp only [closing, takeWhile_append_stop h.bare_eq, hhead]

theorem text_cons_of_ne {y : Char} (h : y ≠ '\x22') (h' : y ≠ '\x27') (cs : List Char) :
    text (y :: cs) = (run isBareChar (y :: cs)).map fun t => ⟨String.ofList t.value, t.length⟩ := by
  unfold text
  split
  · next he => cases he; exact absurd rfl h
  · next he => cases he; exact absurd rfl h'
  · rfl

theorem stopsAt_text (h : IsBreak x) : StopsAt x text := by
  have hd : '\x22' ≠ x := by rcases h with rfl | rfl <;> decide
  have hs : '\x27' ≠ x := by rcases h with rfl | rfl <;> decide
  intro u t
  cases u with
  | nil =>
    rw [List.nil_append, text_cons_of_ne hd.symm hs.symm, Token.run, List.takeWhile_cons_of_neg (by simp [h.bare_eq])]
    rfl
  | cons y u =>
    by_cases hyd : y = '\x22'
    · subst hyd
      exact stopsAt_closing h hd u t
    by_cases hys : y = '\x27'
    · subst hys
      exact stopsAt_closing h hs u t
    · have hrun := stopsAt_run h.bare_eq (y :: u) t
      rw [List.cons_append] at hrun ⊢
      rw [text_cons_of_ne hyd hys, text_cons_of_ne hyd hys, hrun]

end Token

/-! ## Places -/

/-- The same place in a longer text: with `k` characters more in front and, behind, a closing parenthesis and `t`. -/
def Cursor.enclose (k : Nat) (t : List Char) (c : Cursor) : Cursor := ⟨k + c.index, c.rest ++ ')' :: t⟩

theorem Cursor.advance_enclose {c : Cursor} {n : Nat} (h : n ≤ c.rest.length) (k : Nat) (t : List Char) :
    (c.enclose k t).advance n = (c.advance n).enclose k t := by
  simp only [advance, enclose, List.drop_append_of_le_length h, Nat.add_assoc]

theorem Cursor.pastSpaces_enclose (c : Cursor) (k : Nat) (t : List Char) :
    (c.enclose k t).pastSpaces = c.pastSpaces.enclose k t := by
  have hle := (List.takeWhile_prefix (l := c.rest) (· == ' ')).length_le
  have hstop := @takeWhile_append_stop (· == ' ') ')' (by decide) c.rest t
  have hlen : ((c.enclose k t).rest.takeWhile (· == ' ')).length = (c.rest.takeWhile (· == ' ')).length :=
    congrArg List.length hstop
  rw [pastSpaces, hlen, advance_enclose hle]
  rfl

namespace Grammar

variable {α β γ δ : Type} {c d : Cursor} {k : Nat} {t : List Char}

/-! ## The same results, renamed -/

namespace Trial

variable {u : Trial α} {u' : Trial β} {m : α → β}

/-- `u'` gives what `u` gives, through `m`. -/
def Mirrors (u' : Trial β) (u : Trial α) (m : α → β) : Prop := u'.result = u.result.map m

theorem Mirrors.bind {f : α → Trial γ} {f' : β → Trial δ} {n : γ → δ} (h : u'.Mirrors u m)
    (hf : ∀ a, u.result = some a → (f' (m a)).Mirrors (f a) n) : (u' >>= f').Mirrors (u >>= f) n := by
  rw [Mirrors, result_bind, result_bind, h]
  cases hu : u.result with
  | none => rfl
  | some a => exact hf a hu

theorem Mirrors.orElse {v : Trial α} {v' : Trial β} (h : u'.Mirrors u m) (h' : v'.Mirrors v m) :
    (u' <|> v').Mirrors (u <|> v) m := by
  rw [Mirrors, result_orElse, result_orElse, h, h']
  cases u.result <;> rfl

end Trial

/-! ## Tokens and comparisons -/

theorem mirrors_token {kind : TokenClass} {scan : Token α} (ht : Token.Takes scan) (hl : Token.Local scan)
    (c : Cursor) : (token kind scan (c.enclose k t)).Mirrors (token kind scan c) (Prod.map id (·.enclose k t)) := by
  have hs : scan (c.enclose k t).rest = scan c.rest := hl c.rest t
  unfold token
  rw [hs]
  cases hc : scan c.rest with
  | none => rfl
  | some lexeme =>
    obtain ⟨u, v, hr, hlen, _, _⟩ := ht _ _ hc
    have hle : lexeme.length ≤ c.rest.length := by rw [hr, hlen, List.length_append]; omega
    show some (lexeme.value, (c.enclose k t).advance lexeme.length) = _
    rw [Cursor.advance_enclose hle]
    rfl

theorem mirrors_literal {text : String} (h : ')' ∉ text.toList) (c : Cursor) :
    (literal text (c.enclose k t)).Mirrors (literal text c) (·.enclose k t) := by
  have hp : text.toList.isPrefixOf (c.enclose k t).rest = text.toList.isPrefixOf c.rest := isPrefixOf_append_stop h _ _
  unfold literal
  rw [hp]
  split
  · next hpre =>
    have hle := (List.isPrefixOf_iff_prefix.1 hpre).length_le
    rw [String.length_toList] at hle
    rw [Cursor.advance_enclose hle]
    rfl
  · rfl

theorem mirrors_anySpaces (c : Cursor) : (anySpaces (c.enclose k t)).Mirrors (anySpaces c) (·.enclose k t) :=
  congrArg some (c.pastSpaces_enclose k t)

theorem mirrors_someSpaces (c : Cursor) : (someSpaces (c.enclose k t)).Mirrors (someSpaces c) (·.enclose k t) :=
  (mirrors_token Token.takes_spaces Token.local_spaces c).bind fun ⟨_, d⟩ _ => mirrors_anySpaces d

theorem mirrors_value (c : Cursor) :
    (value (c.enclose k t)).Mirrors (value c) (Prod.map id (·.enclose k t)) := by
  refine Trial.Mirrors.orElse ?_ (Trial.Mirrors.orElse ?_ (Trial.Mirrors.orElse ?_ ?_))
  · exact (mirrors_token Token.takes_number (Token.stopsAt_number (.inr rfl)) c).bind fun ⟨_, _⟩ _ => rfl
  · exact (mirrors_token Token.takes_boolean (Token.stopsAt_boolean (.inr rfl)) c).bind fun ⟨_, _⟩ _ => rfl
  · exact (mirrors_token Token.takes_null (Token.stopsAt_null (.inr rfl)) c).bind fun ⟨_, _⟩ _ => rfl
  · exact (mirrors_token Token.takes_text (Token.stopsAt_text (.inr rfl)) c).bind fun ⟨_, _⟩ _ => rfl

theorem mirrors_anyComparison (c : Cursor) :
    (anyComparison (c.enclose k t)).Mirrors (anyComparison c) (Prod.map (·.shift k) (·.enclose k t)) := by
  have hword := @mirrors_token _ k t .word _ Token.takes_word (Token.stopsAt_word (.inr rfl)) c
  have hop (op : Operator) :
      (comparison op (c.enclose k t)).Mirrors (comparison op c) (Prod.map (·.shift k) (·.enclose k t)) := by
    refine hword.bind fun ⟨field, c₁⟩ _ => (mirrors_anySpaces c₁).bind fun c₂ _ => ?_
    refine (mirrors_literal op.plain_symbol.2 c₂).bind fun c₃ _ => (mirrors_anySpaces c₃).bind fun c₄ _ => ?_
    exact (mirrors_value c₄).bind fun ⟨_, _⟩ _ => rfl
  have hhas : (hasComparison (c.enclose k t)).Mirrors (hasComparison c) (Prod.map (·.shift k) (·.enclose k t)) := by
    refine hword.bind fun ⟨field, c₁⟩ _ => (mirrors_literal (by decide) c₁).bind fun c₂ _ => ?_
    exact (mirrors_value c₂).bind fun ⟨_, _⟩ _ => rfl
  exact hhas.orElse ((hop _).orElse ((hop _).orElse ((hop _).orElse ((hop _).orElse (hop _)))))

/-! ## Statements -/

/-- The places from which statements read the same in front of a closing parenthesis. -/
def EnclosedAt (k : Nat) (t : List Char) (d : Cursor) : Prop :=
  (full (d.enclose k t)).Mirrors (full d) (Prod.map (·.shift k) (·.enclose k t))

/-- Behind the statement in a group there is more text: its parenthesis is not left open. -/
theorem rest_ne_nil_of_open {s : Statement} {c₁ c₂ : Cursor} (h : NoStrayOpen c.rest)
    (h₁ : (literal "(" c).result = some c₁) (h₂ : (full c₁.pastSpaces).result = some (s, c₂)) :
    c₂.pastSpaces.rest ≠ [] := by
  intro hnil
  obtain ⟨u, _, hb, hs⟩ := reads_full _ _ _ h₂
  have hall := (((spans_literal h₁).trans c₁.spans_pastSpaces).trans hs).trans c₂.spans_pastSpaces
  have hspaces := (Cursor.plain_spaces c₁.rest).count
  have hspaces' := (Cursor.plain_spaces c₂.rest).count
  have hcount := hb.count_eq
  have hle := h _ (List.suffix_refl _)
  have hopen : "(".toList = ['('] := rfl
  rw [hall.rest_eq, hnil, hopen] at hle
  simp only [List.count_append, List.count_nil, hspaces, hspaces'] at hle
  simp at hle
  omega

theorem mirrors_close (h : c.rest ≠ []) : (literal ")" (c.enclose k t)).Mirrors (literal ")" c) (·.enclose k t) := by
  obtain ⟨x, cs, hcs⟩ := List.exists_cons_of_ne_nil h
  have hle : 1 ≤ c.rest.length := by rw [hcs]; exact Nat.succ_pos _
  have hp : ")".toList.isPrefixOf (c.enclose k t).rest = ")".toList.isPrefixOf c.rest := by
    show [')'].isPrefixOf (c.rest ++ ')' :: t) = [')'].isPrefixOf c.rest
    rw [hcs]
    rfl
  unfold literal
  rw [hp]
  split
  · exact congrArg some (Cursor.advance_enclose hle k t)
  · rfl

variable (hopen : NoStrayOpen c.rest)
  (hi : ∀ d : Cursor, d.rest.length < c.rest.length → NoStrayOpen d.rest → EnclosedAt k t d)
include hopen hi

theorem mirrors_group :
    (group full (c.enclose k t)).Mirrors (group full c) (Prod.map (·.shift k) (·.enclose k t)) := by
  refine (mirrors_literal (by decide) c).bind fun c₁ h₁ => (mirrors_anySpaces c₁).bind fun c₂ h₂ => ?_
  obtain rfl := anySpaces_eq_some_iff.1 h₂
  have hs := (spans_literal h₁).trans c₁.spans_pastSpaces
  have hlt := hs.length_lt (by simp)
  refine (hi _ hlt (hs.rest_eq ▸ hopen).of_append).bind fun ⟨s, c₃⟩ h₃ => (mirrors_anySpaces c₃).bind fun c₄ h₄ => ?_
  obtain rfl := anySpaces_eq_some_iff.1 h₄
  exact (mirrors_close (rest_ne_nil_of_open hopen h₁ h₃)).bind fun _ _ => rfl

theorem mirrors_expression :
    (expression full (c.enclose k t)).Mirrors (expression full c) (Prod.map (·.shift k) (·.enclose k t)) := by
  rw [expression_eq, expression_eq]
  exact (mirrors_anyComparison c).orElse ((mirrors_group hopen hi).bind fun ⟨_, _⟩ _ => rfl)

theorem mirrors_joined (link : Connective) :
    (joined full link (c.enclose k t)).Mirrors (joined full link c) (Prod.map (·.shift k) (·.enclose k t)) := by
  refine (mirrors_expression hopen hi).bind fun ⟨left, c₁⟩ h₁ => (mirrors_someSpaces c₁).bind fun c₂ h₂ =>
    (mirrors_literal link.plain_keyword.2 c₂).bind fun c₃ h₃ => (mirrors_someSpaces c₃).bind fun c₄ h₄ => ?_
  have hr₁ := reads_expression reads_full h₁
  have hr₂ := (readsPlain_someSpaces h₂).reads
  have hr₃ := (readsPlain_literal link.keyword_ne_nil link.plain_keyword h₃).reads
  have hr := ((hr₁.trans hr₂).trans hr₃).trans (readsPlain_someSpaces h₄).reads
  have hlt := hr.length_lt
  obtain ⟨u, _, _, hs⟩ := hr
  exact (hi c₄ hlt (hs.rest_eq ▸ hopen).of_append).bind fun ⟨_, _⟩ _ => rfl

theorem mirrors_negated :
    (negated full (c.enclose k t)).Mirrors (negated full c) (Prod.map (·.shift k) (·.enclose k t)) := by
  refine (mirrors_literal (by decide) c).bind fun c₁ h₁ => (mirrors_someSpaces c₁).bind fun c₂ h₂ => ?_
  have hr := (readsPlain_literal (by decide) (by decide) h₁).reads.trans (readsPlain_someSpaces h₂).reads
  have hlt := hr.length_lt
  obtain ⟨u, _, _, hs⟩ := hr
  exact (hi c₂ hlt (hs.rest_eq ▸ hopen).of_append).bind fun ⟨_, _⟩ _ => rfl

theorem mirrors_full_of_shorter : EnclosedAt k t c := by
  rw [EnclosedAt, full_eq, full_eq]
  refine (mirrors_joined hopen hi _).orElse ((mirrors_joined hopen hi _).orElse ((mirrors_negated hopen hi).orElse ?_))
  exact (mirrors_expression hopen hi).bind fun ⟨_, _⟩ _ => rfl

omit hopen hi

/-- **A text that leaves no parenthesis open** reads in front of a closing parenthesis as at the end of the input. -/
theorem full_enclose (h : NoStrayOpen c.rest) (k : Nat) (t : List Char) :
    (full (c.enclose k t)).result = (full c).result.map (Prod.map (·.shift k) (·.enclose k t)) := by
  have key (n : Nat) : ∀ c : Cursor, c.rest.length < n → NoStrayOpen c.rest → EnclosedAt k t c := by
    induction n with
    | zero => intro c h; omega
    | succ n ih => exact fun c hn hopen => mirrors_full_of_shorter hopen fun d hd => ih d (by omega)
  exact key _ c (Nat.lt_succ_self _) h

end Grammar

end SearchFilter
