import SearchFilter.Proofs.Grammar.Locality

/-!
# Comparisons as they are written

What a comparison is as text: a field name, an operator with or without spaces around it, and one of the ways to write a
literal. A literal that is written so is read back in front of anything that cannot go on with it (`literal_append`),
and nothing else is read as one (`isLiteral_of_append`).

* `Token.IsLiteral` — the ways to write a literal.
* `Compares` — the ways to write a comparison.
* `anyComparison_eq_some_iff` — these are what is read as a comparison.

One comparison has two readings: behind `>=` without a value, `=` is the value of `>`. It is read so only where no value
follows.
-/

namespace SearchFilter

/-! ## Where a run of characters stops -/

/-- The text does not start with a character of the kind. -/
def Stops (kind : Char → Bool) (cs : List Char) : Prop := ∀ x ∈ cs.head?, kind x = false

section

variable {kind kind' : Char → Bool} {t : List Char} {x : Char}

theorem stops_nil : Stops kind [] := fun _ h => nomatch h

theorem stops_cons : Stops kind (x :: t) ↔ kind x = false := by simp [Stops]

theorem stops_of_space (h : t.head? = some ' ') (u : List Char) : Stops isBareChar (t ++ u) := by
  obtain ⟨r, rfl⟩ := List.head?_eq_some_iff.1 h
  exact stops_cons.2 (by decide)

theorem Stops.mono (h : Stops kind t) (hk : ∀ x, kind' x = true → kind x = true) : Stops kind' t := by
  intro x hx
  by_contra hn
  have hkx := hk x (by simpa using hn)
  rw [h x hx] at hkx
  cases hkx

theorem takeWhile_append_of_stops (h : Stops kind t) (u : List Char) :
    (u ++ t).takeWhile kind = u.takeWhile kind := by
  cases t with
  | nil => rw [List.append_nil]
  | cons x t => exact takeWhile_append_stop (stops_cons.1 h) u t

theorem isPrefixOf_append_of_stops {word : List Char} (hw : ∀ x ∈ word, kind x = true) (h : Stops kind t)
    (u : List Char) : word.isPrefixOf (u ++ t) = word.isPrefixOf u := by
  cases t with
  | nil => rw [List.append_nil]
  | cons x t =>
    refine isPrefixOf_append_stop (fun hx => ?_) u t
    have hkx := hw x hx
    rw [stops_cons.1 h] at hkx
    cases hkx

theorem stops_dropWhile (kind : Char → Bool) (cs : List Char) : Stops kind (cs.dropWhile kind) := by
  intro x hx
  have h := List.head?_dropWhile_not kind cs
  rw [Option.mem_def.1 hx] at h
  simpa using h

/-- What starts with characters of one kind does not start with another one. -/
theorem head_append_ne {w : List Char} (hne : w ≠ []) (hw : ∀ y ∈ w, kind y = true) (hx : kind x = false)
    (t : List Char) : (w ++ t).head? ≠ some x := by
  obtain ⟨y, u, rfl⟩ := List.exists_cons_of_ne_nil hne
  intro h
  obtain rfl : y = x := Option.some.inj h
  rw [hw y (.head _)] at hx
  cases hx

/-- A run that is written is the longest one, if it stops behind it. -/
theorem takeWhile_of_forall {w : List Char} (hw : ∀ x ∈ w, kind x = true) (h : Stops kind t) :
    (w ++ t).takeWhile kind = w := by
  rw [takeWhile_append_of_stops h, List.takeWhile_eq_self_iff.2 hw]

end

/-! ## Places and the text between them -/

namespace Cursor

variable {c d : Cursor} {u v : List Char}

/-- A place is determined by the text in front of it. -/
theorem Spans.eq_advance (h : c.Spans u d) : c.advance u.length = d := by
  obtain ⟨index, rest⟩ := d
  obtain ⟨hr, hi⟩ := h
  simp only at hr hi
  rw [advance, hr, List.drop_left, hi]

theorem Spans.exists_between (h : c.Spans (u ++ v) d) : ∃ p, c.Spans u p ∧ p.Spans v d := by
  refine ⟨c.advance u.length, spans_advance (by rw [h.rest_eq, List.append_assoc]), ?_, ?_⟩
  · simp [advance, h.rest_eq]
  · rw [h.index_eq, List.length_append, ← Nat.add_assoc]
    rfl

end Cursor

/-! ## Literals -/

namespace Token

variable {u t cs : List Char} {α : Type}

theorem bare_of_digit {x : Char} (h : x.isDigit = true) : isBareChar x = true := by
  have hne : ∀ y : Char, y.isDigit = false → x ≠ y := by
    rintro y hy rfl
    rw [h] at hy
    cases hy
  simp [isBareChar, hne ' ' (by decide), hne '(' (by decide), hne ')' (by decide), hne '\x22' (by decide),
    hne '\x27' (by decide)]

theorem run_of_forall {kind : Char → Bool} (hu : ∀ x ∈ u, kind x = true) (hne : u ≠ []) (ht : Stops kind t) :
    run kind (u ++ t) = some ⟨u, u.length⟩ :=
  run_eq_some_iff.2 ⟨takeWhile_of_forall hu ht, hne, rfl⟩

theorem run_eq_none_iff {kind : Char → Bool} : run kind cs = none ↔ Stops kind cs := by
  cases cs with
  | nil => exact ⟨fun _ => stops_nil, fun _ => rfl⟩
  | cons x cs =>
    rw [stops_cons]
    cases h : kind x <;> simp [run, h]

/-- Where no bare character follows, scanners of bare characters see the end of the text. -/
theorem number_append (h : Stops isBareChar t) (u : List Char) : number (u ++ t) = number u := by
  simp only [number, run, takeWhile_append_of_stops (h.mono fun _ => bare_of_digit)]

theorem fixed_append {word : String} (value : α) (hw : ∀ x ∈ word.toList, isBareChar x = true) (h : Stops isBareChar t)
    (u : List Char) : fixed word value (u ++ t) = fixed word value u := by
  simp only [fixed, isPrefixOf_append_of_stops hw h]

theorem boolean_append (h : Stops isBareChar t) (u : List Char) : boolean (u ++ t) = boolean u := by
  have htrue : ∀ x ∈ "true".toList, isBareChar x = true := List.all_eq_true.1 (by decide)
  have hfalse : ∀ x ∈ "false".toList, isBareChar x = true := List.all_eq_true.1 (by decide)
  simp only [boolean, fixed_append true htrue h, fixed_append false hfalse h]

theorem null_append (h : Stops isBareChar t) (u : List Char) : null (u ++ t) = null u :=
  fixed_append () (List.all_eq_true.1 (by decide)) h u

/-- A literal: the first of its four classes that is ahead. -/
def literal : Token Literal := fun cs =>
  ((number cs).map fun t => ⟨.number t.value, t.length⟩).or <|
    ((boolean cs).map fun t => ⟨.boolean t.value, t.length⟩).or <|
      ((null cs).map fun t => ⟨.null, t.length⟩).or ((text cs).map fun t => ⟨.text t.value, t.length⟩)

/-- The ways to write a literal. -/
inductive IsLiteral : List Char → Literal → Prop
  | number {ds : List Char} : ds ≠ [] → (∀ x ∈ ds, x.isDigit = true) → Nat.ofDigitChars 10 ds 0 ≤ maxNumber →
    IsLiteral ds (.number (Int64.ofNat (Nat.ofDigitChars 10 ds 0)))
  | boolean (b : Bool) : IsLiteral (if b then "true".toList else "false".toList) (.boolean b)
  | null : IsLiteral "null".toList .null
  | quoted {quote : Char} {w : List Char} : quote = '\x22' ∨ quote = '\x27' → (∀ x ∈ w, isBareChar x = true) →
    IsLiteral (quote :: (w ++ [quote])) (.text (String.ofList w))
  | bare {w : List Char} : w ≠ [] → (∀ x ∈ w, isBareChar x = true) → Token.number w = none → Token.boolean w = none →
    Token.null w = none → IsLiteral w (.text (String.ofList w))

theorem IsLiteral.ne_nil {y : List Char} {v : Literal} (h : IsLiteral y v) : y ≠ [] := by
  cases h with
  | number hne => exact hne
  | boolean b => cases b <;> nofun
  | null => nofun
  | quoted => nofun
  | bare hne => exact hne

/-- No literal starts with a space. -/
theorem IsLiteral.head_ne_space {y : List Char} {v : Literal} (h : IsLiteral y v) (t : List Char) :
    (y ++ t).head? ≠ some ' ' := by
  cases h with
  | number hne hd => exact head_append_ne hne hd (by decide) t
  | boolean b => cases b <;> nofun
  | null => nofun
  | quoted hq => rcases hq with rfl | rfl <;> nofun
  | bare hne hw => exact head_append_ne hne hw (by decide) t

theorem closing_eq_some_iff {quote : Char} (hq : isBareChar quote = false) {l : Lexeme String} :
    closing quote u = some l ↔ ∃ w r, u = w ++ quote :: r ∧ (∀ x ∈ w, isBareChar x = true) ∧
      l = ⟨String.ofList w, w.length + 2⟩ := by
  constructor
  · intro h
    unfold closing at h
    simp only at h
    split at h
    · next hhead =>
      rw [drop_length_takeWhile] at hhead
      obtain ⟨r, hr⟩ := List.head?_eq_some_iff.1 hhead
      refine ⟨u.takeWhile isBareChar, r, ?_, fun _ hx => List.mem_takeWhile_imp hx, (Option.some.inj h).symm⟩
      rw [← hr, List.takeWhile_append_dropWhile]
    · cases h
  · rintro ⟨w, r, rfl, hw, rfl⟩
    have htake : (w ++ quote :: r).takeWhile isBareChar = w := takeWhile_of_forall hw (stops_cons.2 hq)
    simp [closing, htake]

/-- What is written as a literal is read as it in front of anything that cannot go on with it. -/
theorem literal_append {y : List Char} {v : Literal} (h : IsLiteral y v) (ht : Stops isBareChar t) :
    literal (y ++ t) = some ⟨v, y.length⟩ := by
  cases h with
  | number hne hd hle =>
    have hn : number (y ++ t) = some ⟨Int64.ofNat (Nat.ofDigitChars 10 y 0), y.length⟩ := by
      simp only [number, run_of_forall hd hne (ht.mono fun _ => bare_of_digit), if_pos hle]
    rw [literal, hn]
    rfl
  | boolean b => cases b <;> simp [literal, number, run, boolean, fixed, String.length]
  | null => simp [literal, number, run, boolean, fixed, null, String.length]
  | @quoted quote w hq hw =>
    have hstop : isBareChar quote = false := by rcases hq with rfl | rfl <;> decide
    have hclose := (closing_eq_some_iff hstop).2 ⟨w, t, rfl, hw, rfl⟩
    have hlist : quote :: (w ++ [quote]) ++ t = quote :: (w ++ quote :: t) := by simp
    rw [hlist]
    rcases hq with rfl | rfl <;> simp [literal, number, run, boolean, fixed, null, text, hclose]
  | bare hne hw hn hb hnull =>
    have hq : ∀ quote, isBareChar quote = false → (y ++ t).head? ≠ some quote := by
      intro quote hq he
      obtain ⟨x, w, rfl⟩ := List.exists_cons_of_ne_nil hne
      obtain rfl : x = quote := by simpa using he
      rw [hw x (.head _)] at hq
      cases hq
    have htext : text (y ++ t) = some ⟨String.ofList y, y.length⟩ := by
      obtain ⟨x, w, rfl⟩ := List.exists_cons_of_ne_nil hne
      rw [List.cons_append, text_cons_of_ne (fun he => hq '\x22' (by decide) (by rw [he]; rfl))
        (fun he => hq '\x27' (by decide) (by rw [he]; rfl)), ← List.cons_append, run_of_forall hw hne ht]
      rfl
    rw [literal, number_append ht, boolean_append ht, null_append ht, hn, hb, hnull, htext]
    rfl

theorem run_of_append {kind : Char → Bool} {l : Lexeme (List Char)} (h : run kind (u ++ t) = some l)
    (hl : l.length = u.length) : l = ⟨u, u.length⟩ ∧ u ≠ [] ∧ (∀ x ∈ u, kind x = true) ∧ Stops kind t := by
  obtain ⟨hv, hne, hlen⟩ := run_eq_some_iff.1 h
  have hsplit : u ++ t = l.value ++ (u ++ t).dropWhile kind := by rw [← hv, List.takeWhile_append_dropWhile]
  obtain ⟨hu, ht⟩ := List.append_inj hsplit (by omega)
  obtain ⟨value, length⟩ := l
  subst hu
  refine ⟨by rw [Lexeme.mk.injEq]; exact ⟨rfl, hl⟩, hne, fun x hx => ?_, ht ▸ stops_dropWhile kind (u ++ t)⟩
  have hx' : x ∈ (u ++ t).takeWhile kind := by rw [hv]; exact hx
  exact List.mem_takeWhile_imp hx'

theorem fixed_of_append {word : String} {value : α} {l : Lexeme α} (h : fixed word value (u ++ t) = some l)
    (hl : l.length = u.length) : u = word.toList ∧ l.value = value := by
  unfold fixed at h
  split at h
  · next hp =>
    cases h
    obtain ⟨r, hr⟩ := List.isPrefixOf_iff_prefix.1 hp
    exact ⟨(List.append_inj_left hr (by rw [String.length_toList]; exact hl)).symm, rfl⟩
  · cases h

theorem isLiteral_of_text {y : List Char} {l : Lexeme String} (hn : number (y ++ t) = none)
    (hb : boolean (y ++ t) = none) (hnull : null (y ++ t) = none) (h : text (y ++ t) = some l)
    (hl : l.length = y.length) : IsLiteral y (.text l.value) := by
  have hquoted : ∀ quote u, quote = '\x22' ∨ quote = '\x27' → y ++ t = quote :: u → closing quote u = some l →
      IsLiteral y (.text l.value) := by
    intro quote u hq hu hclose
    have hstop : isBareChar quote = false := by rcases hq with rfl | rfl <;> decide
    obtain ⟨w, r, rfl, hw, rfl⟩ := (closing_eq_some_iff hstop).1 hclose
    have hsplit : y ++ t = quote :: (w ++ [quote]) ++ r := by rw [hu]; simp
    rw [List.append_inj_left hsplit (by simp at hl ⊢; omega)]
    exact .quoted hq hw
  unfold text at h
  split at h
  · next u hu => exact hquoted _ u (.inl rfl) hu h
  · next u hu => exact hquoted _ u (.inr rfl) hu h
  · obtain ⟨l, hrun, rfl⟩ := Option.map_eq_some_iff.1 h
    obtain ⟨rfl, hne, hw, ht⟩ := run_of_append hrun hl
    rw [number_append ht] at hn
    rw [boolean_append ht] at hb
    rw [null_append ht] at hnull
    exact .bare hne hw hn hb hnull

/-- Nothing else is read as a literal. -/
theorem isLiteral_of_append {y : List Char} {l : Lexeme Literal} (h : literal (y ++ t) = some l)
    (hl : l.length = y.length) : IsLiteral y l.value := by
  simp only [literal, Option.or_eq_some_iff, Option.map_eq_some_iff, Option.map_eq_none_iff] at h
  rcases h with ⟨l, hn, rfl⟩ | ⟨hn, ⟨l, hb, rfl⟩ | ⟨hb, ⟨l, hnull, rfl⟩ | ⟨hnull, l, htext, rfl⟩⟩⟩
  · unfold number at hn
    split at hn
    · cases hn
    · next digits hd =>
      simp only at hn
      split at hn
      · next hle =>
        cases hn
        obtain ⟨rfl, hne, hdigits, _⟩ := run_of_append hd hl
        exact .number hne hdigits hle
      · cases hn
  · rcases Option.or_eq_some_iff.1 hb with hb | ⟨_, hb⟩
    · obtain ⟨rfl, hv⟩ := fixed_of_append hb hl
      rw [hv]
      exact .boolean true
    · obtain ⟨rfl, hv⟩ := fixed_of_append hb hl
      rw [hv]
      exact .boolean false
  · obtain ⟨rfl, _⟩ := fixed_of_append hnull hl
    exact .null
  · exact isLiteral_of_text hn hb hnull htext hl

/-- Where no literal is ahead no bare character is. -/
theorem stops_of_literal (h : literal cs = none) : Stops isBareChar cs := by
  simp only [literal, Option.or_eq_none_iff, Option.map_eq_none_iff] at h
  cases cs with
  | nil => exact stops_nil
  | cons x cs =>
    by_cases hd : x = '\x22'
    · exact hd ▸ stops_cons.2 (by decide)
    by_cases hs : x = '\x27'
    · exact hs ▸ stops_cons.2 (by decide)
    have htext := h.2.2.2
    rw [text_cons_of_ne hd hs, Option.map_eq_none_iff] at htext
    exact run_eq_none_iff.1 htext

end Token

namespace Operator

/-- Operators that another one starts with. -/
def IsStrict (op : Operator) : Prop := op = greater ∨ op = less

/-- The operator that starts with a strict one. -/
def wide : Operator → Operator
  | greater => greaterEq
  | less => lessEq
  | op => op

theorem head_symbol_append (op : Operator) (t : List Char) : (op.symbol.toList ++ t).head? ≠ some ' ' := by
  rw [List.head?_append_of_ne_nil _ op.symbol_ne_nil]
  cases op <;> decide

theorem symbol_wide {op : Operator} (h : op.IsStrict) : op.wide.symbol.toList = op.symbol.toList ++ ['='] := by
  rcases h with rfl | rfl <;> rfl

end Operator

namespace Grammar

variable {c d p : Cursor} {v : Literal} {field : String}

theorem result_value (c : Cursor) :
    (value c).result = (Token.literal c.rest).map fun l => (l.value, c.advance l.length) := by
  simp only [value, Trial.result_orElse, Trial.result_bind, Token.literal, token]
  cases Token.number c.rest with
  | some l => rfl
  | none =>
    cases Token.boolean c.rest with
    | some l => rfl
    | none =>
      cases Token.null c.rest with
      | some l => rfl
      | none => cases Token.text c.rest <;> rfl

/-- A written literal is read. -/
theorem value_of_isLiteral {y : List Char} (h : Token.IsLiteral y v) (hs : c.Spans y d) (hd : Stops isBareChar d.rest) :
    (value c).result = some (v, d) := by
  rw [result_value, hs.rest_eq, Token.literal_append h hd, Option.map_some, hs.eq_advance]

/-- Only written literals are. -/
theorem isLiteral_of_value (h : (value c).result = some (v, d)) : ∃ y, c.Spans y d ∧ Token.IsLiteral y v := by
  rw [result_value] at h
  obtain ⟨l, hl, he⟩ := Option.map_eq_some_iff.1 h
  obtain ⟨rfl, rfl⟩ := Prod.mk.inj he
  obtain ⟨y, _, _, hs⟩ := readsPlain_value (result_value c ▸ h)
  have hlen : l.length = y.length := by
    have hi := hs.index_eq
    have ha : (c.advance l.length).index = c.index + l.length := rfl
    omega
  rw [hs.rest_eq] at hl
  exact ⟨y, hs, Token.isLiteral_of_append hl hlen⟩

/-! ## Comparisons -/

/-- The text is a field name. -/
structure IsField (w : List Char) : Prop where
  ne_nil : w ≠ []
  forall_mem : ∀ x ∈ w, isFieldChar x = true

variable {w sp : List Char} {op : Operator} {e : Expression}

theorem IsField.head_ne_space (hw : IsField w) (t : List Char) : (w ++ t).head? ≠ some ' ' :=
  head_append_ne hw.ne_nil hw.forall_mem (by decide) t

theorem token_word_of_spans (hw : IsField w) (hs : c.Spans w d) (hd : Stops isFieldChar d.rest) :
    token .word Token.word c = Pure.pure (String.ofList w, d) := by
  have hword : Token.word c.rest = some ⟨String.ofList w, w.length⟩ := by
    rw [hs.rest_eq, Token.word, Token.run_of_forall hw.forall_mem hw.ne_nil hd]
    rfl
  simp only [token, hword]
  rw [hs.eq_advance]

theorem isField_of_token (h : (token .word Token.word c).result = some (field, d)) :
    ∃ w, IsField w ∧ c.Spans w d ∧ Stops isFieldChar d.rest ∧ field = String.ofList w := by
  obtain ⟨l, hl, rfl, rfl⟩ := token_eq_some_iff.1 h
  obtain ⟨r, hr, rfl⟩ := Option.map_eq_some_iff.1 hl
  obtain ⟨hv, hne, hlen⟩ := Token.run_eq_some_iff.1 hr
  have hdrop : (c.advance r.length).rest = c.rest.dropWhile isFieldChar := by
    show c.rest.drop r.length = _
    rw [hlen, ← hv, drop_length_takeWhile]
  refine ⟨r.value, ⟨hne, fun x hx => List.mem_takeWhile_imp (hv ▸ hx)⟩, ?_, hdrop ▸ stops_dropWhile _ _, rfl⟩
  rw [hlen]
  exact Cursor.spans_advance (hv ▸ List.takeWhile_append_dropWhile.symm)

theorem literal_of_spans {text : String} (hs : c.Spans text.toList d) : literal text c = Pure.pure d := by
  rw [literal_eq_pure ⟨d.rest, hs.rest_eq.symm⟩, ← String.length_toList, hs.eq_advance]

theorem eq_space_of_mem (c : Cursor) : ∀ x ∈ c.rest.takeWhile (· == ' '), x = ' ' := fun x hx => by
  simpa using List.mem_takeWhile_imp hx

theorem eq_space_of_rest (h : c.pastSpaces.rest = []) : ∀ x ∈ c.rest, x = ' ' := by
  have hrest := c.spans_pastSpaces.rest_eq
  rw [h, List.append_nil] at hrest
  rw [hrest]
  exact eq_space_of_mem c

/-- What does not go on behind the spaces ahead does not go on in front of them. -/
theorem stops_of_pastSpaces (h : Stops isBareChar c.pastSpaces.rest) : Stops isBareChar c.rest := by
  by_cases hsp : c.rest.head? = some ' '
  · have hstops := stops_of_space hsp []
    rwa [List.append_nil] at hstops
  · rwa [Cursor.pastSpaces_of_head hsp] at h

/-- Spaces in front of spaces are passed together. -/
theorem pastSpaces_of_spans (hsp : ∀ x ∈ sp, x = ' ') (hs : c.Spans sp d) : c.pastSpaces = d.pastSpaces := by
  have htake : c.rest.takeWhile (· == ' ') = sp ++ d.rest.takeWhile (· == ' ') := by
    rw [hs.rest_eq, List.takeWhile_append_of_pos fun x hx => beq_iff_eq.2 (hsp x hx)]
  rw [Cursor.pastSpaces, Cursor.pastSpaces, htake, ← hs.eq_advance]
  simp [Cursor.advance, Nat.add_assoc]

/-- The value behind an operator, if the operator is ahead. -/
def operand (op : Operator) (c : Cursor) : Option (Literal × Cursor) :=
  (literal op.symbol c).result.bind fun p => (value p.pastSpaces).result

theorem operand_of_spans (hs : c.Spans op.symbol.toList p) : operand op c = (value p.pastSpaces).result := by
  rw [operand, literal_of_spans hs]
  rfl

theorem operand_eq_none (h : ¬ op.symbol.toList <+: c.rest) : operand op c = none := by
  rw [operand, literal_eq_miss h]
  rfl

theorem result_comparison (hw : IsField w) (hs : c.Spans w d) (hd : Stops isFieldChar d.rest) :
    (comparison op c).result =
      (operand op d.pastSpaces).map fun q => (.comparison op (String.ofList w) q.1, q.2) := by
  rw [comparison, token_word_of_spans hw hs hd]
  simp only [Trial.result_bind, Trial.result_pure, Option.bind_some, anySpaces_eq, operand]
  cases (literal op.symbol d.pastSpaces).result with
  | none => rfl
  | some p => exact Option.map_eq_bind.symm

theorem result_hasComparison (hw : IsField w) (hs : c.Spans w d) (hd : Stops isFieldChar d.rest) :
    (hasComparison c).result = (literal ":" d).result.bind fun p =>
      (value p).result.map fun q => (.comparison .has (String.ofList w) q.1, q.2) := by
  rw [hasComparison, token_word_of_spans hw hs hd]
  simp only [Trial.result_bind, Trial.result_pure, Option.bind_some]
  cases (literal ":" d).result with
  | none => rfl
  | some p => exact Option.map_eq_bind.symm

/-- Behind `c` stands a comparison of the field `w` by `op` with the value `v`, which ends at `d`. -/
inductive Compares (c : Cursor) (w : List Char) : Operator → Literal → Cursor → Prop
  | colon {v : Literal} {p d : Cursor} : c.Spans (w ++ ":".toList) p → (value p).result = some (v, d) →
    Compares c w .has v d
  | operator {op : Operator} {v : Literal} {sp : List Char} {p d : Cursor} : op ≠ .has → (∀ x ∈ sp, x = ' ') →
    c.Spans (w ++ (sp ++ op.symbol.toList)) p → (value p.pastSpaces).result = some (v, d) →
    (op.IsStrict → p.rest.head? = some '=' → (value (p.advance 1).pastSpaces).result = none) → Compares c w op v d

theorem compares_of_colon {y : List Char} (hy : Token.IsLiteral y v) (hs : c.Spans (w ++ ":".toList ++ y) d)
    (hd : Stops isBareChar d.rest) : Compares c w .has v d := by
  obtain ⟨p, hp, hv⟩ := hs.exists_between
  exact .colon hp (value_of_isLiteral hy hv hd)

/-- What does not start with `=` is a value behind any operator. -/
theorem compares_of_operator {y sp' : List Char} (hop : op ≠ .has) (hsp : ∀ x ∈ sp, x = ' ') (hsp' : ∀ x ∈ sp', x = ' ')
    (hy : Token.IsLiteral y v) (hne : (sp' ++ y).head? ≠ some '=')
    (hs : c.Spans (w ++ (sp ++ op.symbol.toList) ++ (sp' ++ y)) d) (hd : Stops isBareChar d.rest) :
    Compares c w op v d := by
  obtain ⟨p, hp, hrest⟩ := hs.exists_between
  obtain ⟨q, hq, hv⟩ := hrest.exists_between
  have hpast : p.pastSpaces = q := by
    rw [pastSpaces_of_spans hsp' hq]
    exact Cursor.pastSpaces_of_head (hv.rest_eq ▸ hy.head_ne_space d.rest)
  refine .operator hop hsp hp (hpast ▸ value_of_isLiteral hy hv hd) fun _ heq => ?_
  rw [hrest.rest_eq, List.head?_append_of_ne_nil _ (by simp [hy.ne_nil])] at heq
  exact absurd heq hne

/-- A strict operator in front of `=` is taken for the other one, if a value follows. -/
theorem operand_wide (hop : op.IsStrict) (hs : c.Spans op.symbol.toList p) :
    operand op.wide c = if p.rest.head? = some '=' then (value (p.advance 1).pastSpaces).result else none := by
  split
  · next h =>
    obtain ⟨r, hr⟩ := List.head?_eq_some_iff.1 h
    have hspans := hs.trans (Cursor.spans_advance (u := ['=']) hr)
    rw [← Operator.symbol_wide hop] at hspans
    exact operand_of_spans hspans
  · next h =>
    refine operand_eq_none fun ⟨r, hr⟩ => h ?_
    rw [Operator.symbol_wide hop, hs.rest_eq, List.append_assoc] at hr
    rw [← List.append_cancel_left hr]
    rfl

theorem compares_of_comparison (hop : op ≠ .has) (h : (comparison op c).result = some (e, d))
    (hwide : op.IsStrict → (comparison op.wide c).result = none) :
    ∃ w v, IsField w ∧ Compares c w op v d ∧ e = .comparison op (String.ofList w) v := by
  simp only [comparison, Trial.bind_eq_some_iff, Prod.exists, Trial.result_pure, Option.some.injEq, Prod.mk.injEq,
    anySpaces_eq_some_iff] at h
  obtain ⟨field, c₁, hword, c₂, rfl, p, hl, c₄, rfl, v, c₅, hv, rfl, rfl⟩ := h
  obtain ⟨w, hw, hs, hstop, rfl⟩ := isField_of_token hword
  have hsymbol := spans_literal hl
  have hspans := hs.trans (c₁.spans_pastSpaces.trans hsymbol)
  refine ⟨w, v, hw, .operator hop (eq_space_of_mem c₁) hspans hv fun hstrict hhead => ?_, rfl⟩
  have hnone := hwide hstrict
  rw [result_comparison hw hs hstop, Option.map_eq_none_iff, operand_wide hstrict hsymbol, if_pos hhead] at hnone
  exact hnone

theorem head_eq_of_append {u u' t t' : List Char} (hu : u ≠ []) (hu' : u' ≠ []) (h : u ++ t = u' ++ t') :
    u.head? = u'.head? := by
  rw [← List.head?_append_of_ne_nil u hu, h, List.head?_append_of_ne_nil u' hu']

theorem stops_of_symbol (hop : op ≠ .has) (hsp : ∀ x ∈ sp, x = ' ') {u : List Char} :
    Stops (fun x => isFieldChar x || x == ':') (sp ++ (op.symbol.toList ++ u)) := by
  cases sp with
  | nil => cases op <;> first | exact absurd rfl hop | exact stops_cons.2 (by decide)
  | cons x sp => rw [hsp x (.head _)]; exact stops_cons.2 (by decide)

/-- A comparison that is written is read. -/
theorem anyComparison_of_compares (hw : IsField w) (h : Compares c w op v d) :
    (anyComparison c).result = some (.comparison op (String.ofList w) v, d) := by
  cases h with
  | colon hs hv =>
    obtain ⟨q, hq, hp⟩ := hs.exists_between
    have hstop : Stops isFieldChar q.rest := by
      rw [hp.rest_eq]
      exact stops_cons.2 (by decide)
    rw [anyComparison, Trial.result_orElse, result_hasComparison hw hq hstop, literal_of_spans hp]
    simp [hv]
  | @operator _ _ sp p _ hop hsp hs hv hstrict =>
    obtain ⟨q, hq, hs'⟩ := hs.exists_between
    obtain ⟨q', hq', hp⟩ := hs'.exists_between
    have hrest : q.rest = sp ++ (op.symbol.toList ++ p.rest) := by rw [hq'.rest_eq, hp.rest_eq]
    have hstop := @stops_of_symbol sp op hop hsp p.rest
    rw [← hrest] at hstop
    have hcolon : ¬ ":".toList <+: q.rest := by
      rintro ⟨r, hr⟩
      rw [← hr] at hstop
      exact absurd (stops_cons.1 hstop) (by decide)
    have hpast : q.pastSpaces = q' := by
      rw [pastSpaces_of_spans hsp hq']
      refine Cursor.pastSpaces_of_head ?_
      rw [hp.rest_eq]
      exact op.head_symbol_append p.rest
    have hfield : Stops isFieldChar q.rest := hstop.mono fun x hx => by simp [hx]
    have hoperand : operand op q' = some (v, d) := by rw [operand_of_spans hp, hv]
    have hwide (hop : op.IsStrict) : operand op.wide q' = none := by
      rw [operand_wide hop hp]
      split
      · next hhead => exact hstrict hop hhead
      · rfl
    have hnone (op' : Operator) (hne : op'.symbol.toList.head? ≠ op.symbol.toList.head?) : operand op' q' = none := by
      refine operand_eq_none ?_
      rintro ⟨r, hr⟩
      exact hne (head_eq_of_append op'.symbol_ne_nil op.symbol_ne_nil (hr.trans hp.rest_eq))
    simp only [anyComparison, Trial.result_orElse, result_hasComparison hw hq hfield, literal_eq_miss hcolon,
      result_comparison hw hq hfield, hpast, Trial.result_miss, Option.bind_none, Option.none_or]
    cases op with
    | has => exact absurd rfl hop
    | greaterEq => rw [hoperand]; rfl
    | greater =>
      have h₁ : operand .greaterEq q' = none := hwide (.inl rfl)
      rw [h₁, hoperand]
      rfl
    | lessEq =>
      rw [hnone .greaterEq (by decide), hnone .greater (by decide), hoperand]
      rfl
    | less =>
      have h₁ : operand .lessEq q' = none := hwide (.inr rfl)
      rw [hnone .greaterEq (by decide), hnone .greater (by decide), h₁, hoperand]
      rfl
    | equals =>
      rw [hnone .greaterEq (by decide), hnone .greater (by decide), hnone .lessEq (by decide), hnone .less (by decide),
        hoperand]
      rfl

/-- **What is read as a comparison**: what is written as one. -/
theorem anyComparison_eq_some_iff : (anyComparison c).result = some (e, d) ↔
    ∃ w op v, IsField w ∧ Compares c w op v d ∧ e = .comparison op (String.ofList w) v := by
  constructor
  · intro h
    simp only [anyComparison, Trial.orElse_eq_some_iff] at h
    have key {op : Operator} (hop : op ≠ .has) (h : (comparison op c).result = some (e, d))
        (hwide : op.IsStrict → (comparison op.wide c).result = none) :
        ∃ w op v, IsField w ∧ Compares c w op v d ∧ e = .comparison op (String.ofList w) v := by
      obtain ⟨w, v, hw, hc, he⟩ := compares_of_comparison hop h hwide
      exact ⟨w, op, v, hw, hc, he⟩
    rcases h with h | ⟨_, h | ⟨h₁, h | ⟨_, h | ⟨h₃, h | ⟨_, h⟩⟩⟩⟩⟩
    · simp only [hasComparison, Trial.bind_eq_some_iff, Prod.exists, Trial.result_pure, Option.some.injEq,
        Prod.mk.injEq] at h
      obtain ⟨field, c₁, hword, p, hl, v, c₃, hv, rfl, rfl⟩ := h
      obtain ⟨w, hw, hs, _, rfl⟩ := isField_of_token hword
      exact ⟨w, .has, v, hw, .colon (hs.trans (spans_literal hl)) hv, rfl⟩
    · exact key (by decide) h (by rintro (h | h) <;> cases h)
    · exact key (by decide) h fun _ => h₁
    · exact key (by decide) h (by rintro (h | h) <;> cases h)
    · exact key (by decide) h fun _ => h₃
    · exact key (by decide) h (by rintro (h | h) <;> cases h)
  · rintro ⟨w, op, v, hw, hc, rfl⟩
    exact anyComparison_of_compares hw hc

/-! ## Statements -/

variable {sp' : List Char} {s : Statement}

/-- A run of spaces, at least one. -/
structure IsSpaces (sp : List Char) : Prop where
  ne_nil : sp ≠ []
  forall_mem : ∀ x ∈ sp, x = ' '

theorem isSpaces_append_one (h : ∀ x ∈ sp, x = ' ') : IsSpaces (sp ++ [' ']) :=
  ⟨by simp, List.forall_mem_append.2 ⟨h, by simp⟩⟩

theorem isSpaces_one : IsSpaces [' '] := ⟨nofun, List.forall_mem_singleton.2 rfl⟩

theorem IsSpaces.head_eq (h : IsSpaces sp) : sp.head? = some ' ' := by
  obtain ⟨x, w, rfl⟩ := List.exists_cons_of_ne_nil h.ne_nil
  rw [h.forall_mem x (.head _)]
  rfl

theorem isSpaces_of_head (h : c.rest.head? = some ' ') : IsSpaces (c.rest.takeWhile (· == ' ')) := by
  obtain ⟨r, hr⟩ := List.head?_eq_some_iff.1 h
  refine ⟨?_, eq_space_of_mem c⟩
  rw [hr, List.takeWhile_cons_of_pos rfl]
  exact List.cons_ne_nil _ _

theorem someSpaces_of_spans (hsp : IsSpaces sp) (hs : c.Spans sp d) (hd : d.rest.head? ≠ some ' ') :
    (someSpaces c).result = some d := by
  refine someSpaces_eq_some_iff.2 ⟨?_, ?_⟩
  · rw [hs.rest_eq, List.head?_append_of_ne_nil _ hsp.ne_nil, hsp.head_eq]
  · rw [pastSpaces_of_spans hsp.forall_mem hs, Cursor.pastSpaces_of_head hd]

theorem connective_of_spans {link : Connective} (hsp : IsSpaces sp) (hsp' : IsSpaces sp')
    (hs : c.Spans (sp ++ link.keyword.toList ++ sp') d) (hd : d.rest.head? ≠ some ' ') :
    (connective c).result = some (link, d) := by
  obtain ⟨q, hq, hlast⟩ := hs.exists_between
  obtain ⟨p, hp, hlink⟩ := hq.exists_between
  have hhead : p.rest.head? ≠ some ' ' := by
    rw [hlink.rest_eq]
    cases link <;> nofun
  obtain ⟨hspace, hpast⟩ := someSpaces_eq_some_iff.1 (someSpaces_of_spans hsp hp hhead)
  refine connective_eq_some_iff.2 ⟨hspace, q, ?_, someSpaces_of_spans hsp' hlast hd⟩
  rw [hpast, literal_of_spans hlink]
  rfl

/-- The spaces and the keyword of a connective. -/
theorem spans_of_connective {link : Connective} (h : (connective c).result = some (link, d)) :
    ∃ sp sp', IsSpaces sp ∧ IsSpaces sp' ∧ c.Spans (sp ++ link.keyword.toList ++ sp') d := by
  obtain ⟨hsp, p, hp, hd⟩ := connective_eq_some_iff.1 h
  obtain ⟨hsp', rfl⟩ := someSpaces_eq_some_iff.1 hd
  exact ⟨_, _, isSpaces_of_head hsp, isSpaces_of_head hsp',
    (c.spans_pastSpaces.trans (spans_literal hp)).trans p.spans_pastSpaces⟩

theorem negated_of_spans (hsp : IsSpaces sp) (hs : c.Spans ("NOT".toList ++ sp) p) (hp : p.rest.head? ≠ some ' ')
    (h : (full p).result = some (s, d)) : (negated full c).result = some (.not c.index s, d) := by
  obtain ⟨q, hq, hlast⟩ := hs.exists_between
  exact negated_eq_some_iff.2 ⟨q, p, s, by rw [literal_of_spans hq]; rfl, someSpaces_of_spans hsp hlast hp, h, rfl⟩

theorem group_of_spans {q : Cursor} (hsp : ∀ x ∈ sp, x = ' ') (hs : c.Spans ('(' :: sp) p)
    (hp : p.rest.head? ≠ some ' ') (h : (full p).result = some (s, q)) (hq : q.pastSpaces.rest.head? = some ')') :
    (group full c).result = some (s, q.pastSpaces.advance 1) := by
  have hopen : c.Spans (['('] ++ sp) p := hs
  obtain ⟨p', hp', hlast⟩ := hopen.exists_between
  have hone : c.advance 1 = p' := hp'.eq_advance
  refine group_eq_some_iff.2 ⟨by rw [hs.rest_eq]; rfl, q, ?_, hq, rfl⟩
  rw [hone, pastSpaces_of_spans hsp hlast, Cursor.pastSpaces_of_head hp]
  exact h

end Grammar

end SearchFilter
