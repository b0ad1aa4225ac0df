import SearchFilter.Proofs.Grammar.Written
import SearchFilter.Proofs.Parser.Nesting

/-!
# Spaces between the pieces of a filter

How many spaces stand between two pieces of a text does not matter, nor does how many stand at its ends. No token reads
on behind a space, so that every rule reads both texts in step (`inStep_statement`). Only behind the last piece one text
may have a space where the other one has none; a rule that asks for a space there asks for more behind it, and reads
neither.

* `Text.pieces` — what stands between the spaces of a text.
* `Text.Respaced` — the same text from some place on, but for spaces.
* `Trial.Related`, `Rule.InStep` — in both texts nothing is read, or related values.
* `parse_of_pieces` — texts with the same pieces are the same filter, or none.
-/

namespace SearchFilter

/-! ## Pieces -/

namespace Text

/-- The runs of characters other than spaces, from left to right. Texts with the same pieces are the same but for
spaces: at least one between two pieces and any number at the ends. -/
def pieces (cs : List Char) : List (List Char) := (cs.splitOn ' ').filter (· ≠ [])

variable {cs ds u r : List Char}

theorem pieces_append_space (cs ds : List Char) : pieces (cs ++ ' ' :: ds) = pieces cs ++ pieces ds := by
  have hsplit : (cs ++ ' ' :: ds).splitOn ' ' = cs.splitOn ' ' ++ ds.splitOn ' ' :=
    List.splitOnP_append_cons cs ds (beq_self_eq_true ' ')
  rw [pieces, hsplit, List.filter_append]
  rfl

theorem pieces_space (cs : List Char) : pieces (' ' :: cs) = pieces cs := pieces_append_space [] cs

theorem pieces_dropWhile (cs : List Char) : pieces (cs.dropWhile (· == ' ')) = pieces cs := by
  induction cs with
  | nil => rfl
  | cons x cs ih =>
    rw [List.dropWhile_cons]
    split
    · next hx => rw [ih, beq_iff_eq.1 hx, pieces_space]
    · rfl

theorem eq_space_of_stops {x : Char} (h : Stops (· != ' ') (x :: r)) : x = ' ' := by simpa using stops_cons.1 h

/-- A text that starts with a piece. -/
theorem pieces_append (hu : ∀ x ∈ u, x ≠ ' ') (hne : u ≠ []) (hr : Stops (· != ' ') r) :
    pieces (u ++ r) = u :: pieces r := by
  have hone : pieces u = [u] := by
    rw [pieces, List.splitOn_eq_singleton fun h => hu _ h rfl, List.filter_cons_of_pos (by simpa using hne)]
    rfl
  cases r with
  | nil => rw [List.append_nil, hone]; rfl
  | cons x r =>
    obtain rfl := eq_space_of_stops hr
    rw [pieces_append_space, pieces_space, hone]
    rfl

theorem eq_nil_of_stops (hr : Stops (· != ' ') r) (h : r.head? ≠ some ' ') : r = [] := by
  cases r with
  | nil => rfl
  | cons x r => exact absurd (congrArg some (eq_space_of_stops hr)) h

/-- A text is the piece it starts with, possibly none, and what follows. -/
theorem exists_piece (cs : List Char) : ∃ u r, cs = u ++ r ∧ (∀ x ∈ u, x ≠ ' ') ∧ Stops (· != ' ') r :=
  ⟨cs.takeWhile (· != ' '), cs.dropWhile (· != ' '), List.takeWhile_append_dropWhile.symm,
    fun x hx => by simpa using List.mem_takeWhile_imp hx, stops_dropWhile _ cs⟩

theorem eq_nil_of_pieces (h : pieces cs = []) (hc : cs.head? ≠ some ' ') : cs = [] := by
  obtain ⟨u, r, rfl, hu, hr⟩ := exists_piece cs
  by_cases hne : u = []
  · subst hne
    exact eq_nil_of_stops hr hc
  · rw [pieces_append hu hne hr] at h
    cases h

/-! ## The same text but for spaces -/

/-- The same up to the first space, and with the same pieces behind it. -/
def Respaced (cs ds : List Char) : Prop := ∃ u r r', cs = u ++ r ∧ ds = u ++ r' ∧ (∀ x ∈ u, x ≠ ' ') ∧
  Stops (· != ' ') r ∧ Stops (· != ' ') r' ∧ pieces r = pieces r'

theorem Respaced.pieces_eq (h : Respaced cs ds) : pieces cs = pieces ds := by
  obtain ⟨u, r, r', rfl, rfl, hu, hr, hr', hp⟩ := h
  by_cases hne : u = []
  · subst hne
    exact hp
  · rw [pieces_append hu hne hr, pieces_append hu hne hr', hp]

theorem respaced_of_pieces (h : pieces cs = pieces ds) (hc : cs.head? ≠ some ' ') (hd : ds.head? ≠ some ' ') :
    Respaced cs ds := by
  obtain ⟨u, r, rfl, hu, hr⟩ := exists_piece cs
  obtain ⟨v, q, rfl, hv, hq⟩ := exists_piece ds
  by_cases hune : u = []
  · subst hune
    obtain rfl := eq_nil_of_stops hr hc
    have hnil := eq_nil_of_pieces h.symm hd
    rw [hnil]
    exact ⟨[], [], [], rfl, rfl, List.forall_mem_nil _, stops_nil, stops_nil, rfl⟩
  by_cases hvne : v = []
  · subst hvne
    obtain rfl := eq_nil_of_stops hq hd
    exact absurd (List.append_eq_nil_iff.1 (eq_nil_of_pieces h hc)).1 hune
  rw [pieces_append hu hune hr, pieces_append hv hvne hq] at h
  obtain ⟨rfl, hp⟩ := List.cons.inj h
  exact ⟨u, r, q, rfl, rfl, hu, hr, hq, hp⟩

end Text

/-! ## Places -/

namespace Cursor

variable {c d : Cursor}

/-- Places before the same text but for spaces. -/
def Respaced (c d : Cursor) : Prop := Text.Respaced c.rest d.rest

theorem respaced_pastSpaces (h : Text.pieces c.rest = Text.pieces d.rest) : c.pastSpaces.Respaced d.pastSpaces := by
  refine Text.respaced_of_pieces ?_ c.head_pastSpaces d.head_pastSpaces
  rw [rest_pastSpaces, rest_pastSpaces, Text.pieces_dropWhile, Text.pieces_dropWhile, h]

theorem Respaced.pastSpaces (h : c.Respaced d) : c.pastSpaces.Respaced d.pastSpaces := respaced_pastSpaces h.pieces_eq

/-- Only spaces are left in both texts or in neither. -/
theorem Respaced.rest_pastSpaces_eq_nil (h : c.Respaced d) : c.pastSpaces.rest = [] ↔ d.pastSpaces.rest = [] := by
  have hp := h.pastSpaces.pieces_eq
  constructor
  · intro hc
    exact Text.eq_nil_of_pieces (by rw [← hp, hc]; rfl) d.head_pastSpaces
  · intro hd
    exact Text.eq_nil_of_pieces (by rw [hp, hd]; rfl) c.head_pastSpaces

/-- Where more than spaces is left, a space stands in both texts or in neither. -/
theorem Respaced.head_eq_space (h : c.Respaced d) (hc : c.rest ≠ []) (hd : d.rest ≠ []) :
    c.rest.head? = some ' ' ↔ d.rest.head? = some ' ' := by
  obtain ⟨u, r, r', hcr, hdr, hu, hr, hr', _⟩ := h
  cases u with
  | nil =>
    have hspace {q : List Char} (hq : Stops (· != ' ') q) (hne : q ≠ []) : q.head? = some ' ' :=
      Decidable.byContradiction fun hhead => hne (Text.eq_nil_of_stops hq hhead)
    rw [List.nil_append] at hcr hdr
    rw [hcr] at hc ⊢
    rw [hdr] at hd ⊢
    exact iff_of_true (hspace hr hc) (hspace hr' hd)
  | cons x u => rw [hcr, hdr, List.cons_append, List.cons_append, List.head?_cons, List.head?_cons]

end Cursor

namespace Token

variable {α : Type} {scan : Token α}

/-- A scanner that a space stops sees no more than the first piece. -/
theorem StopsAt.of_stops (h : StopsAt ' ' scan) {r : List Char} (hr : Stops (· != ' ') r) (u : List Char) :
    scan (u ++ r) = scan u := by
  cases r with
  | nil => rw [List.append_nil]
  | cons x r =>
    obtain rfl := Text.eq_space_of_stops hr
    exact h u r

end Token

namespace Grammar

variable {α β γ δ : Type} {R : α → β → Prop} {S : γ → δ → Prop} {c d : Cursor}

/-! ## Two trials in step -/

namespace Trial

variable {t : Trial α} {u : Trial β}

/-- Both fail, or both succeed with related values. -/
def Related (R : α → β → Prop) (t : Trial α) (u : Trial β) : Prop := Option.Rel R t.result u.result

theorem related_pure {a : α} {b : β} (h : R a b) : Related R (Pure.pure a) (Pure.pure b) := .some h

theorem related_of_none (ht : t.result = none) (hu : u.result = none) : Related R t u := by
  rw [Related, ht, hu]
  exact .none

theorem Related.cases (h : Related R t u) :
    (t.result = none ∧ u.result = none) ∨ ∃ a b, t.result = some a ∧ u.result = some b ∧ R a b := by
  rw [Related] at h
  generalize t.result = a at h
  generalize u.result = b at h
  cases h with
  | none => exact .inl ⟨rfl, rfl⟩
  | some hab => exact .inr ⟨_, _, rfl, rfl, hab⟩

theorem Related.exists_of_some {a : α} (h : Related R t u) (ha : t.result = some a) :
    ∃ b, u.result = some b ∧ R a b := by
  rcases h.cases with ⟨ht, _⟩ | ⟨_, b, ht, hu, hab⟩
  · cases ha.symm.trans ht
  · obtain rfl := Option.some.inj (ha.symm.trans ht)
    exact ⟨b, hu, hab⟩

theorem Related.imp {R' : α → β → Prop} (h : Related R t u) (hR : ∀ a b, R a b → R' a b) : Related R' t u := by
  rcases h.cases with ⟨ht, hu⟩ | ⟨a, b, ht, hu, hab⟩
  · exact related_of_none ht hu
  · rw [Related, ht, hu]
    exact .some (hR a b hab)

theorem Related.bind {f : α → Trial γ} {g : β → Trial δ} (h : Related R t u)
    (hf : ∀ a b, R a b → Related S (f a) (g b)) : Related S (t >>= f) (u >>= g) := by
  rw [Related, result_bind, result_bind]
  rcases h.cases with ⟨ht, hu⟩ | ⟨a, b, ht, hu, hab⟩
  · rw [ht, hu]
    exact .none
  · rw [ht, hu]
    exact hf a b hab

theorem Related.orElse {t' : Trial α} {u' : Trial β} (h : Related R t u) (h' : Related R t' u') :
    Related R (t <|> t') (u <|> u') := by
  rw [Related, result_orElse, result_orElse]
  rcases h.cases with ⟨ht, hu⟩ | ⟨a, b, ht, hu, hab⟩
  · rw [ht, hu]
    exact h'
  · rw [ht, hu]
    exact .some hab

end Trial

open Trial (Related related_pure related_of_none)

/-- Related values, with the same text ahead but for spaces. -/
def Both (R : α → β → Prop) (p : α × Cursor) (q : β × Cursor) : Prop := R p.1 q.1 ∧ p.2.Respaced q.2

/-- A rule that reads related values in texts that differ in spaces only. -/
def Rule.InStep (r : Rule α) (R : α → α → Prop) : Prop := ∀ c d : Cursor, c.Respaced d → (r c).Related (Both R) (r d)

/-! ## Tokens and comparisons -/

theorem respaced_advance {v w r r' : List Char} (hc : c.rest = v ++ w ++ r) (hd : d.rest = v ++ w ++ r')
    (hw : ∀ x ∈ v ++ w, x ≠ ' ') (hr : Stops (· != ' ') r) (hr' : Stops (· != ' ') r')
    (hp : Text.pieces r = Text.pieces r') : (c.advance v.length).Respaced (d.advance v.length) := by
  refine ⟨w, r, r', ?_, ?_, fun x hx => hw x (List.mem_append_right v hx), hr, hr', hp⟩
  · rw [Cursor.advance, hc, List.append_assoc, List.drop_left]
  · rw [Cursor.advance, hd, List.append_assoc, List.drop_left]

theorem inStep_token (kind : TokenClass) {scan : Token α} (ht : Token.Takes scan) (hs : Token.StopsAt ' ' scan) :
    (token kind scan).InStep Eq := by
  rintro c d ⟨u, r, r', hc, hd, hu, hr, hr', hp⟩
  have hscan : scan c.rest = scan u := hc ▸ hs.of_stops hr u
  have hscan' : scan d.rest = scan u := hd ▸ hs.of_stops hr' u
  rw [token, token, hscan, hscan']
  cases hl : scan u with
  | none => exact .none
  | some l =>
    obtain ⟨v, w, rfl, hlen, _⟩ := ht _ _ hl
    exact related_pure ⟨rfl, hlen ▸ respaced_advance hc hd hu hr hr' hp⟩

theorem related_literal {text : String} (ht : ' ' ∉ text.toList) (h : c.Respaced d) :
    (literal text c).Related Cursor.Respaced (literal text d) := by
  obtain ⟨u, r, r', hc, hd, hu, hr, hr', hp⟩ := h
  have hsolid : ∀ x ∈ text.toList, (x != ' ') = true := fun x hx => bne_iff_ne.2 fun he => ht (he ▸ hx)
  rw [literal, literal, hc, hd, isPrefixOf_append_of_stops hsolid hr, isPrefixOf_append_of_stops hsolid hr']
  split
  · next hpre =>
    obtain ⟨w, rfl⟩ := List.isPrefixOf_iff_prefix.1 hpre
    rw [← String.length_toList]
    exact related_pure (respaced_advance hc hd hu hr hr' hp)
  · exact .none

theorem related_anySpaces (h : c.Respaced d) : (anySpaces c).Related Cursor.Respaced (anySpaces d) := .some h.pastSpaces

theorem inStep_word : (token .word Token.word).InStep Eq :=
  inStep_token .word Token.takes_word (Token.stopsAt_word (.inl rfl))

theorem inStep_value : value.InStep Eq := by
  intro c d h
  have hof {ε : Type} {kind : TokenClass} {scan : Token ε} (hs : (token kind scan).InStep Eq) (f : ε → Literal) :
      (token kind scan c >>= fun p => pure (f p.1, p.2)).Related (Both Eq)
        (token kind scan d >>= fun p => pure (f p.1, p.2)) :=
    (hs c d h).bind fun _ _ hpq => related_pure ⟨congrArg f hpq.1, hpq.2⟩
  refine Related.orElse ?_ (Related.orElse ?_ (Related.orElse ?_ ?_))
  · exact hof (inStep_token _ Token.takes_number (Token.stopsAt_number (.inl rfl))) .number
  · exact hof (inStep_token _ Token.takes_boolean (Token.stopsAt_boolean (.inl rfl))) .boolean
  · exact hof (inStep_token _ Token.takes_null (Token.stopsAt_null (.inl rfl))) fun _ => .null
  · exact hof (inStep_token _ Token.takes_text (Token.stopsAt_text (.inl rfl))) .text

theorem inStep_comparison (op : Operator) : (comparison op).InStep Eq := by
  intro c d h
  have hsymbol : ' ' ∉ op.symbol.toList := by cases op <;> decide
  refine (inStep_word c d h).bind fun ⟨_, _⟩ ⟨_, _⟩ ⟨hfield, h₁⟩ => (related_anySpaces h₁).bind fun _ _ h₂ => ?_
  refine (related_literal hsymbol h₂).bind fun _ _ h₃ => (related_anySpaces h₃).bind fun _ _ h₄ => ?_
  exact (inStep_value _ _ h₄).bind fun _ _ ⟨hv, h₅⟩ => related_pure ⟨congrArg₂ (Expression.comparison op) hfield hv, h₅⟩

theorem inStep_hasComparison : hasComparison.InStep Eq := by
  intro c d h
  refine (inStep_word c d h).bind fun ⟨_, _⟩ ⟨_, _⟩ ⟨hfield, h₁⟩ => ?_
  refine (related_literal (by decide) h₁).bind fun _ _ h₂ => ?_
  exact (inStep_value _ _ h₂).bind fun _ _ ⟨hv, h₃⟩ =>
    related_pure ⟨congrArg₂ (Expression.comparison .has) hfield hv, h₃⟩

theorem inStep_anyComparison : anyComparison.InStep Eq := by
  intro c d h
  have hop (op : Operator) := inStep_comparison op c d h
  exact (inStep_hasComparison c d h).orElse
    ((hop _).orElse ((hop _).orElse ((hop _).orElse ((hop _).orElse (hop _)))))

/-! ## Where a space has to stand -/

/-- At the end of the text `f` fails. -/
def FailsAtEnd (f : Cursor → Trial α) : Prop := ∀ c : Cursor, c.rest = [] → (f c).result = none

theorem FailsAtEnd.bind {f : Cursor → Trial α} (h : FailsAtEnd f) (g : α → Trial β) : FailsAtEnd fun c => f c >>= g :=
  fun c hc => by rw [Trial.result_bind, h c hc]; rfl

theorem failsAtEnd_literal {text : String} (h : text.toList ≠ []) : FailsAtEnd (literal text) := fun c hc => by
  rw [literal_eq_miss]
  · rfl
  · rw [hc, List.prefix_nil]
    exact h

theorem Rule.Reads.failsAtEnd {r : Rule α} (h : r.Reads) : FailsAtEnd r := fun c hc => by
  by_contra hne
  obtain ⟨⟨a, d⟩, ha⟩ := Option.ne_none_iff_exists'.1 hne
  have hlt := (h _ _ _ ha).length_lt
  rw [hc] at hlt
  exact Nat.not_lt_zero _ hlt

/-- Behind the last piece it does not matter whether a space is left, if nothing that can be read follows. -/
theorem someSpaces_bind_eq_none {f : Cursor → Trial α} (hf : FailsAtEnd f) (hc : c.pastSpaces.rest = []) :
    (someSpaces c >>= f).result = none := by
  rw [Trial.result_bind, someSpaces_eq]
  split
  · exact hf _ hc
  · rfl

/-- In front of the next piece there is a space in both texts or in neither. -/
theorem related_someSpaces (h : c.Respaced d) (hc : c.pastSpaces.rest ≠ []) :
    (someSpaces c).Related Cursor.Respaced (someSpaces d) := by
  have hne {p : Cursor} (hp : p.pastSpaces.rest ≠ []) : p.rest ≠ [] := fun hnil => hp (by
    rw [Cursor.rest_pastSpaces, hnil]
    rfl)
  have hhead := h.head_eq_space (hne hc) (hne (mt h.rest_pastSpaces_eq_nil.2 hc))
  rw [Related, someSpaces_eq, someSpaces_eq]
  by_cases hspace : c.rest.head? = some ' '
  · simp only [hspace, hhead.1 hspace, if_true]
    exact .some h.pastSpaces
  · simp only [hspace, mt hhead.2 hspace, if_false]
    exact .none

theorem related_someSpaces_bind {f : Cursor → Trial α} {g : Cursor → Trial β} (h : c.Respaced d)
    (hf : FailsAtEnd f) (hg : FailsAtEnd g) (hfg : ∀ p q, p.Respaced q → (f p).Related R (g q)) :
    (someSpaces c >>= f).Related R (someSpaces d >>= g) := by
  by_cases hend : c.pastSpaces.rest = []
  · exact related_of_none (someSpaces_bind_eq_none hf hend)
      (someSpaces_bind_eq_none hg (h.rest_pastSpaces_eq_nil.1 hend))
  · exact (related_someSpaces h hend).bind hfg

/-! ## Statements -/

/-- Derivations of the same filter, nested alike. -/
structure Statement.Alike (s t : Statement) : Prop where
  toFilter_eq : s.toFilter = t.toFilter
  fits_iff : ∀ level, s.Fits level ↔ t.Fits level

/-- Derivations of the same filter, nested alike. -/
structure Expression.Alike (e f : Expression) : Prop where
  toFilter_eq : e.toFilter = f.toFilter
  fits_iff : ∀ level, e.Fits level ↔ f.Fits level

section

variable {s t : Statement} {e f : Expression}

theorem Expression.Alike.join (h : e.Alike f) (hs : s.Alike t) (start start' : Nat) (link : Connective) :
    (Statement.join start e link s).Alike (.join start' f link t) where
  toFilter_eq := by rw [Statement.toFilter, Statement.toFilter, h.toFilter_eq, hs.toFilter_eq]
  fits_iff level := by rw [fits_join, fits_join, h.fits_iff, hs.fits_iff]

theorem Statement.Alike.not (h : s.Alike t) (start start' : Nat) :
    (Statement.not start s).Alike (.not start' t) where
  toFilter_eq := by rw [toFilter, toFilter, h.toFilter_eq]
  fits_iff level := by rw [fits_not, fits_not, h.fits_iff]

theorem Expression.Alike.expression (h : e.Alike f) (start start' : Nat) :
    (Statement.expression start e).Alike (.expression start' f) where
  toFilter_eq := h.toFilter_eq
  fits_iff level := by rw [fits_expression, fits_expression, h.fits_iff]

theorem Statement.Alike.group (h : s.Alike t) : (Expression.group s).Alike (.group t) where
  toFilter_eq := h.toFilter_eq
  fits_iff level := h.fits_iff (level + 1)

end

section

variable {r : Rule Statement} (hr : r.InStep Statement.Alike)
include hr

theorem inStep_group : (group r).InStep Statement.Alike := by
  intro c d h
  refine (related_literal (by decide) h).bind fun c₁ d₁ h₁ => (related_anySpaces h₁).bind fun c₂ d₂ h₂ => ?_
  refine (hr c₂ d₂ h₂).bind fun ⟨s, c₃⟩ ⟨t, d₃⟩ ⟨hst, h₃⟩ => (related_anySpaces h₃).bind fun c₄ d₄ h₄ => ?_
  exact (related_literal (by decide) h₄).bind fun _ _ h₅ => related_pure ⟨hst, h₅⟩

theorem inStep_expression : (expression r).InStep Expression.Alike := by
  intro c d h
  rw [expression_eq, expression_eq]
  refine Related.orElse ?_ ((inStep_group hr c d h).bind fun _ _ ⟨hst, h₁⟩ => related_pure ⟨hst.group, h₁⟩)
  exact (inStep_anyComparison c d h).imp fun _ _ ⟨hef, h₁⟩ => ⟨hef ▸ ⟨rfl, fun _ => Iff.rfl⟩, h₁⟩

variable (hend : FailsAtEnd r)
include hend

theorem inStep_joined (link : Connective) : (joined r link).InStep Statement.Alike := by
  intro c d h
  have hkeyword : ' ' ∉ link.keyword.toList := by cases link <;> decide
  have hends {β : Type} (f : Cursor → Trial β) : FailsAtEnd fun c => literal link.keyword c >>= f :=
    (failsAtEnd_literal link.keyword_ne_nil).bind f
  refine (inStep_expression hr c d h).bind fun ⟨left, c₁⟩ ⟨left', d₁⟩ ⟨hleft, h₁⟩ => ?_
  refine related_someSpaces_bind h₁ (hends _) (hends _) fun c₂ d₂ h₂ => ?_
  refine (related_literal hkeyword h₂).bind fun c₃ d₃ h₃ => ?_
  refine related_someSpaces_bind h₃ (hend.bind _) (hend.bind _) fun c₄ d₄ h₄ => ?_
  exact (hr c₄ d₄ h₄).bind fun _ _ ⟨hright, h₅⟩ => related_pure ⟨hleft.join hright _ _ link, h₅⟩

theorem inStep_negated : (negated r).InStep Statement.Alike := by
  intro c d h
  refine (related_literal (by decide) h).bind fun c₁ d₁ h₁ => ?_
  refine related_someSpaces_bind h₁ (hend.bind _) (hend.bind _) fun c₂ d₂ h₂ => ?_
  exact (hr c₂ d₂ h₂).bind fun _ _ ⟨hst, h₃⟩ => related_pure ⟨hst.not _ _, h₃⟩

end

/-- **Statements** are read in step. The bound on the steps is the same in both texts, and the induction is on it. -/
theorem inStep_statement (fuel : Nat) : (statement fuel).InStep Statement.Alike := by
  induction fuel with
  | zero => exact fun _ _ _ => .none
  | succ fuel ih =>
    intro c d h
    have hend := (reads_statement fuel).failsAtEnd
    refine (inStep_joined ih hend .and c d h).orElse ((inStep_joined ih hend .or c d h).orElse ?_)
    refine (inStep_negated ih hend c d h).orElse ?_
    exact (inStep_expression ih c d h).bind fun _ _ ⟨he, h₁⟩ => related_pure ⟨he.expression _ _, h₁⟩

theorem inStep_full : full.InStep Statement.Alike := by
  intro c d h
  have hc : c.rest.length < c.rest.length + d.rest.length + 1 := by omega
  have hd : d.rest.length < c.rest.length + d.rest.length + 1 := by omega
  rw [← statement_eq_full hc, ← statement_eq_full hd]
  exact inStep_statement _ c d h

/-- Of two texts with the same pieces one is derived as the other is. -/
theorem exists_derivation_of_pieces {cs ds : List Char} {s : Statement} (h : Text.pieces cs = Text.pieces ds)
    (hs : (derivation cs).result = some s) : ∃ t, (derivation ds).result = some t ∧ s.Alike t := by
  obtain ⟨c, hfull, hend⟩ := derivation_eq_some_iff.1 hs
  have hstart : (Cursor.mk 0 cs).pastSpaces.Respaced (Cursor.mk 0 ds).pastSpaces := Cursor.respaced_pastSpaces h
  obtain ⟨⟨t, d⟩, hfull', hst, hcd⟩ := (inStep_full _ _ hstart).exists_of_some hfull
  exact ⟨t, derivation_eq_some_iff.2 ⟨d, hfull', hcd.rest_pastSpaces_eq_nil.1 hend⟩, hst⟩

end Grammar

/-- **Spaces** do not change what a text is read as: two texts with the same pieces are read as the same filter, or
neither is read. -/
theorem parse_of_pieces {s t : String} (h : Text.pieces s.toList = Text.pieces t.toList) (f : Filter) :
    Filter.parse s = .ok f ↔ Filter.parse t = .ok f := by
  have hread {s t : String} (h : Text.pieces s.toList = Text.pieces t.toList) (hs : Filter.parse s = .ok f) :
      Filter.parse t = .ok f := by
    obtain ⟨a, ha, hfits, rfl⟩ := parse_eq_ok_iff.1 hs
    obtain ⟨b, hb, hab⟩ := Grammar.exists_derivation_of_pieces h ha
    exact parse_eq_ok_iff.2 ⟨b, hb, (hab.fits_iff 1).1 hfits, hab.toFilter_eq.symm⟩
  exact ⟨hread h, hread h.symm⟩

/-- A text with single spaces and the same text with spaces wherever there may be some more. -/
theorem parse_of_pieces_single :
    Text.pieces "foo >=bar OR (NOT qux <= 2)".toList = Text.pieces "  foo    >=bar  OR   (NOT     qux <= 2)   ".toList ∧
    Filter.parse "  foo    >=bar  OR   (NOT     qux <= 2)   " = .ok (.join .or
      (.compare .greaterEq "foo" (.literal (.text "bar"))) (.not (.compare .lessEq "qux" (.literal (.number 2))))) := by
  have hpieces : Text.pieces "foo >=bar OR (NOT qux <= 2)".toList =
      Text.pieces "  foo    >=bar  OR   (NOT     qux <= 2)   ".toList := by decide
  have hparse : Filter.parse "foo >=bar OR (NOT qux <= 2)" = .ok (.join .or
      (.compare .greaterEq "foo" (.literal (.text "bar"))) (.not (.compare .lessEq "qux" (.literal (.number 2))))) := by
    cbv
  exact ⟨hpieces, (parse_of_pieces hpieces _).1 hparse⟩

end SearchFilter
