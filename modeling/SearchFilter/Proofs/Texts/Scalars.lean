import SearchFilter.Proofs.Quoting
import SearchFilter.Yaml.Style

/-!
# Strings in YAML text show where they end

A string stands without quotes, between quotes of two kinds, or as a literal in lines of its own, and its first
character shows which. What may follow it depends on that: a quote ends what stands between quotes, a line end or a
colon what stands without, and a line further out what stands in lines.

* `Yaml.escapes_doubleQuotedChar`, `Yaml.singleQuoted_append_inj` — strings between quotes end at the closing one.
* `Yaml.indentLines_append_inj`, `Yaml.literal_append_inj` — text in lines ends where no line of it can follow.
* `Yaml.IsPlain.append_inj` — no string without quotes goes on with what may follow another one.
* `Yaml.write_append_inj`, `Yaml.lineEnded_write_append_inj` — strings of all styles, on a line or in lines.
-/

namespace SearchFilter.Yaml

variable {x y : String} {cs ds s t : List Char}

/-! ## Between double quotes -/

theorem upper_inj {m n : Nat} (hm : m < 16) (hn : n < 16) (h : m.digitChar.toUpper = n.digitChar.toUpper) : m = n := by
  have key : ∀ m < 16, ∀ n < 16, m.digitChar.toUpper = n.digitChar.toUpper → m = n := by decide
  exact key m hm n hn h

theorem upperHex_one {n : Nat} (h : n < 16) : upperHex 1 n = [n.digitChar.toUpper] := by
  rw [upperHex, Nat.toDigits_of_lt_base h]
  rfl

/-- A number in one digit more ends with its last digit. -/
theorem upperHex_succ (k n : Nat) :
    upperHex (k + 2) n = upperHex (k + 1) (n / 16) ++ [(n % 16).digitChar.toUpper] := by
  by_cases hn : n < 16
  · rw [upperHex, upperHex, Nat.toDigits_of_lt_base hn, Nat.div_eq_of_lt hn, Nat.mod_eq_of_lt hn]
    simp [List.replicate_succ']
  · rw [upperHex, upperHex, Text.toDigits_succ (Nat.le_of_not_lt hn)]
    simp

theorem div_lt_pow {k n : Nat} (h : n < Nat.pow 16 (k + 1)) : n / 16 < Nat.pow 16 k :=
  Nat.div_lt_of_lt_mul (Nat.lt_of_lt_of_eq h (Nat.mul_comm _ 16))

theorem length_upperHex {k n : Nat} (h : n < Nat.pow 16 (k + 1)) : (upperHex (k + 1) n).length = k + 1 := by
  induction k generalizing n with
  | zero =>
    rw [upperHex_one h]
    rfl
  | succ k ih =>
    rw [upperHex_succ, List.length_append, ih (div_lt_pow h)]
    rfl

theorem upperHex_inj {k m n : Nat} (hm : m < Nat.pow 16 (k + 1)) (hn : n < Nat.pow 16 (k + 1))
    (h : upperHex (k + 1) m = upperHex (k + 1) n) : m = n := by
  induction k generalizing m n with
  | zero =>
    rw [upperHex_one hm, upperHex_one hn] at h
    exact upper_inj hm hn (List.cons.inj h).1
  | succ k ih =>
    rw [upperHex_succ, upperHex_succ] at h
    obtain ⟨hdiv, hmod⟩ := List.append_inj' h rfl
    have hdiv := ih (div_lt_pow hm) (div_lt_pow hn) hdiv
    have hmod := upper_inj (Nat.mod_lt m (by decide)) (Nat.mod_lt n (by decide)) (List.cons.inj hmod).1
    omega

/-- The letters that stand before the number of a character, with the number of digits behind the first one. -/
def numberLetters : List (Char × Nat) := [('x', 1), ('u', 3), ('U', 7)]

/-- A character is written as it is, by a letter or by its number. -/
theorem doubleQuotedChar_cases (c : Char) :
    (doubleQuotedChar c = [c] ∧ c ≠ '\\' ∧ c ≠ '\x22') ∨
      (∃ x, doubleQuotedChar c = ['\\', x] ∧ escapeLetter? c = some x) ∨
      ∃ p ∈ numberLetters, c.toNat < Nat.pow 16 (p.2 + 1) ∧
        doubleQuotedChar c = '\\' :: p.1 :: upperHex (p.2 + 1) c.toNat := by
  unfold doubleQuotedChar
  cases hletter : escapeLetter? c with
  | some x => exact .inr (.inl ⟨x, rfl, rfl⟩)
  | none =>
    have hne : c ≠ '\\' ∧ c ≠ '\x22' := by
      constructor
      · rintro rfl
        exact absurd hletter (by decide)
      · rintro rfl
        exact absurd hletter (by decide)
    have hlt : c.toNat < Nat.pow 16 8 := Nat.lt_of_lt_of_le c.val.toNat_lt (by decide)
    dsimp only
    split
    · exact .inl ⟨rfl, hne⟩
    split
    · next h => exact .inr (.inr ⟨('x', 1), .head _, Nat.lt_succ_of_le h, rfl⟩)
    split
    · next h => exact .inr (.inr ⟨('u', 3), .tail _ (.head _), Nat.lt_succ_of_le h, rfl⟩)
    · exact .inr (.inr ⟨('U', 7), .tail _ (.tail _ (.head _)), hlt, rfl⟩)

/-- The code of a character is a letter or its number. -/
theorem code_cases {c : Char} {k : List Char} (h : doubleQuotedChar c = '\\' :: k) :
    (∃ x, k = [x] ∧ escapeLetter? c = some x) ∨
      ∃ p ∈ numberLetters, c.toNat < Nat.pow 16 (p.2 + 1) ∧ k = p.1 :: upperHex (p.2 + 1) c.toNat := by
  rcases doubleQuotedChar_cases c with ⟨hc, hne, _⟩ | ⟨x, hc, hx⟩ | ⟨p, hp, hlt, hc⟩ <;> rw [hc] at h
  · exact absurd (List.cons.inj h).1 hne
  · exact .inl ⟨x, (List.cons.inj h).2.symm, hx⟩
  · exact .inr ⟨p, hp, hlt, (List.cons.inj h).2.symm⟩

theorem mem_escapeLetters {c x : Char} (h : escapeLetter? c = some x) : (c, x) ∈ escapeLetters := by
  obtain ⟨l, r, hletters, _⟩ := List.lookup_eq_some_iff.1 h
  rw [hletters]
  exact List.mem_append_right l (.head r)

theorem escapeLetter_inj {c d x : Char} (hc : escapeLetter? c = some x) (hd : escapeLetter? d = some x) : c = d := by
  have key : ∀ p ∈ escapeLetters, ∀ q ∈ escapeLetters, p.2 = q.2 → p.1 = q.1 := by decide
  exact key _ (mem_escapeLetters hc) _ (mem_escapeLetters hd) rfl

theorem escapeLetter_ne {c x : Char} {p : Char × Nat} (hc : escapeLetter? c = some x) (hp : p ∈ numberLetters) :
    x ≠ p.1 := by
  have key : ∀ q ∈ escapeLetters, ∀ p ∈ numberLetters, q.2 ≠ p.1 := by decide
  exact key _ (mem_escapeLetters hc) p hp

theorem numberLetters_inj {p q : Char × Nat} (hp : p ∈ numberLetters) (hq : q ∈ numberLetters) (h : p.1 = q.1) :
    p = q := by
  have key : ∀ p ∈ numberLetters, ∀ q ∈ numberLetters, p.1 = q.1 → p = q := by decide
  exact key p hp q hq h

theorem escapes_doubleQuotedChar : Text.Escapes doubleQuotedChar where
  shown_or_code c := by
    rcases doubleQuotedChar_cases c with hc | ⟨x, hc, _⟩ | ⟨p, _, _, hc⟩
    · exact .inl hc
    · exact .inr ⟨_, hc⟩
    · exact .inr ⟨_, hc⟩
  code_append_inj hk hl h := by
    rcases code_cases hk with ⟨x, rfl, hx⟩ | ⟨p, hp, hc, rfl⟩ <;>
      rcases code_cases hl with ⟨y, rfl, hy⟩ | ⟨q, hq, hd, rfl⟩ <;>
      rw [List.cons_append, List.cons_append, List.cons.injEq] at h <;> obtain ⟨hletter, hrest⟩ := h
    · subst hletter
      exact ⟨escapeLetter_inj hx hy, hrest⟩
    · exact absurd hletter (escapeLetter_ne hx hq)
    · exact absurd hletter.symm (escapeLetter_ne hy hp)
    · obtain rfl := numberLetters_inj hp hq hletter
      obtain ⟨hdigits, hst⟩ := List.append_inj hrest ((length_upperHex hc).trans (length_upperHex hd).symm)
      exact ⟨Char.toNat_inj.1 (upperHex_inj hc hd hdigits), hst⟩

/-! ## Text in lines -/

/-- Whether a text ends at the start of a line, if `atStart` tells whether it starts at one. -/
def endsLine : (atStart : Bool) → List Char → Bool
  | atStart, [] => atStart
  | _, c :: rest => endsLine (isBreak c) rest

theorem endsLine_eq (atStart : Bool) (cs : List Char) : endsLine atStart cs = cs.getLast?.elim atStart isBreak := by
  induction cs generalizing atStart with
  | nil => rfl
  | cons c rest ih =>
    rw [endsLine, ih]
    cases rest <;> rfl

theorem endsLine_of_forall (h : ∀ c ∈ cs, isBreak c = false) : endsLine false cs = false := by
  rw [endsLine_eq]
  cases hlast : cs.getLast? with
  | none => rfl
  | some c => exact h c (List.mem_of_getLast? hlast)

/-- The spaces in front of a line. -/
def margin (indent : Nat) (atStart : Bool) : List Char := if atStart then List.replicate indent ' ' else []

/-- Behind a margin stands no break, unless a break follows it. -/
theorem ne_break_of_margin {indent : Nat} {atStart : Bool} {b c : Char} (hb : isBreak b = true)
    (hc : isBreak c = false) : b :: s ≠ margin indent atStart ++ c :: t := by
  intro h
  have hhead : b = c ∨ b = ' ' := by
    cases atStart
    · exact .inl (List.cons.inj h).1
    · cases indent
      · exact .inl (List.cons.inj h).1
      · exact .inr (List.cons.inj h).1
  rcases hhead with rfl | rfl
  · rw [hb] at hc
    cases hc
  · exact absurd hb (by decide)

section

variable {indent : Nat} {write : Char → List Char} {atStart : Bool} {c : Char}

theorem indentLines_break (hc : isBreak c = true) :
    indentLines indent write atStart (c :: cs) = c :: indentLines indent write true cs := if_pos hc

theorem indentLines_char (hc : isBreak c = false) : indentLines indent write atStart (c :: cs) =
    margin indent atStart ++ (write c ++ indentLines indent write false cs) := by
  rw [indentLines, if_neg (Bool.eq_false_iff.1 hc), List.append_assoc]
  rfl

theorem indentLines_of_forall (h : ∀ c ∈ cs, isBreak c = false) :
    indentLines indent write false cs = cs.flatMap write := by
  induction cs with
  | nil => rfl
  | cons c cs ih =>
    rw [indentLines_char (h c (.head _)), ih fun x hx => h x (.tail _ hx)]
    rfl

/-- What may follow text in lines: neither a break nor a character as it is written there. -/
structure EndsLines (indent : Nat) (write : Char → List Char) (atStart : Bool) (s : List Char) : Prop where
  ne_break : ∀ b t, isBreak b = true → s ≠ b :: t
  ne_char : ∀ c t, isBreak c = false → s ≠ margin indent atStart ++ (write c ++ t)

/-- **Text in lines** shows where it ends, if characters do. -/
theorem indentLines_append_inj
    (hwrite : ∀ {c d s t}, isBreak c = false → isBreak d = false → write c ++ s = write d ++ t → c = d ∧ s = t)
    (hhead : ∀ c, isBreak c = false → ∃ x k, write c = x :: k ∧ isBreak x = false)
    (h : indentLines indent write atStart cs ++ s = indentLines indent write atStart ds ++ t)
    (hs : EndsLines indent write (endsLine atStart cs) s) (ht : EndsLines indent write (endsLine atStart ds) t) :
    cs = ds ∧ s = t := by
  have hends {atStart : Bool} {d : Char} {ds s t : List Char} (hs : EndsLines indent write atStart s) :
      s ≠ indentLines indent write atStart (d :: ds) ++ t := by
    intro h
    cases hd : isBreak d with
    | true =>
      rw [indentLines_break hd] at h
      exact hs.ne_break d _ hd h
    | false =>
      rw [indentLines_char hd, List.append_assoc, List.append_assoc] at h
      exact hs.ne_char d _ hd h
  induction cs generalizing ds atStart with
  | nil =>
    cases ds with
    | nil => exact ⟨rfl, h⟩
    | cons d ds => exact absurd h (hends hs)
  | cons c cs ih =>
    cases ds with
    | nil => exact absurd h.symm (hends ht)
    | cons d ds =>
      cases hc : isBreak c <;> cases hd : isBreak d
      case true.true =>
        rw [indentLines_break hc, indentLines_break hd, List.cons_append, List.cons_append, List.cons.injEq] at h
        obtain ⟨rfl, hrest⟩ := h
        rw [endsLine, hc] at hs ht
        obtain ⟨rfl, hst⟩ := ih hrest hs ht
        exact ⟨rfl, hst⟩
      case true.false =>
        obtain ⟨x, k, hwd, hx⟩ := hhead d hd
        rw [indentLines_break hc, indentLines_char hd, List.append_assoc, hwd] at h
        exact absurd h (ne_break_of_margin hc hx)
      case false.true =>
        obtain ⟨x, k, hwc, hx⟩ := hhead c hc
        rw [indentLines_break hd, indentLines_char hc, List.append_assoc, hwc] at h
        exact absurd h.symm (ne_break_of_margin hd hx)
      case false.false =>
        rw [indentLines_char hc, indentLines_char hd, List.append_assoc, List.append_assoc, List.append_assoc,
          List.append_assoc] at h
        obtain ⟨rfl, hrest⟩ := hwrite hc hd (List.append_cancel_left h)
        rw [endsLine, hc] at hs ht
        obtain ⟨rfl, hst⟩ := ih hrest hs ht
        exact ⟨rfl, hst⟩

end

/-! ## Between single quotes -/

theorem margin_endsLine (indent : Nat) (cs : List Char) :
    margin indent (endsLine false cs) = if cs.getLast?.any isBreak then List.replicate indent ' ' else [] := by
  rw [endsLine_eq]
  cases cs.getLast? <;> rfl

theorem singleQuoted_append (indent : Nat) (cs s : List Char) : singleQuoted indent cs ++ s =
    '\x27' :: (indentLines indent singleQuotedChar false cs ++
      (margin indent (endsLine false cs) ++ '\x27' :: s)) := by
  rw [margin_endsLine]
  simp [singleQuoted]

theorem exists_singleQuotedChar (c : Char) : ∃ k, singleQuotedChar c = c :: k := by
  unfold singleQuotedChar
  split
  · exact ⟨_, rfl⟩
  · exact ⟨_, rfl⟩

theorem singleQuotedChar_append_inj {c d : Char} (h : singleQuotedChar c ++ s = singleQuotedChar d ++ t) :
    c = d ∧ s = t := by
  obtain rfl : c = d := by
    obtain ⟨k, hc⟩ := exists_singleQuotedChar c
    obtain ⟨l, hd⟩ := exists_singleQuotedChar d
    rw [hc, hd] at h
    exact (List.cons.inj h).1
  exact ⟨rfl, List.append_cancel_left h⟩

/-- A quote ends the string unless another one follows. -/
theorem endsLines_quote (indent : Nat) (atStart : Bool) (hs : s.head? ≠ some '\x27') :
    EndsLines indent singleQuotedChar atStart (margin indent atStart ++ '\x27' :: s) where
  ne_break _ _ hb h := ne_break_of_margin hb (by decide) h.symm
  ne_char c t _ h := by
    have h := List.append_cancel_left h
    unfold singleQuotedChar at h
    split at h
    · next hc =>
      rw [(List.cons.inj h).2, hc] at hs
      exact hs rfl
    · next hne => exact hne (List.cons.inj h).1.symm

/-- The closing quote shows where a string ends. -/
theorem singleQuoted_append_inj {indent : Nat} (h : singleQuoted indent cs ++ s = singleQuoted indent ds ++ t)
    (hs : s.head? ≠ some '\x27') (ht : t.head? ≠ some '\x27') : cs = ds ∧ s = t := by
  rw [singleQuoted_append, singleQuoted_append] at h
  have hhead (c : Char) (hc : isBreak c = false) : ∃ x k, singleQuotedChar c = x :: k ∧ isBreak x = false := by
    obtain ⟨k, hk⟩ := exists_singleQuotedChar c
    exact ⟨c, k, hk, hc⟩
  obtain ⟨rfl, hend⟩ := indentLines_append_inj (fun _ _ => singleQuotedChar_append_inj) hhead (List.cons.inj h).2
    (endsLines_quote indent _ hs) (endsLines_quote indent _ ht)
  exact ⟨rfl, (List.cons.inj (List.append_cancel_left hend)).2⟩

/-! ## Literals -/

/-- A text and a line end, unless it ends with one or is empty. -/
def lineEnded (cs : List Char) : List Char := if endsLine true cs then cs else cs ++ ['\n']

theorem endsLine_append (atStart : Bool) (cs ds : List Char) :
    endsLine atStart (cs ++ ds) = endsLine (endsLine atStart cs) ds := by
  induction cs generalizing atStart with
  | nil => rfl
  | cons c cs ih => exact ih (isBreak c)

/-- What stands before a text does not matter, unless the text is empty. -/
theorem endsLine_congr (a b : Bool) (h : cs ≠ []) : endsLine a cs = endsLine b cs := by
  cases cs with
  | nil => exact absurd rfl h
  | cons c cs => rfl

theorem lineEnded_append (cs : List Char) (h : ds ≠ []) : lineEnded (cs ++ ds) = cs ++ lineEnded ds := by
  rw [lineEnded, lineEnded, endsLine_append, endsLine_congr _ true h]
  split
  · rfl
  · rw [List.append_assoc]

theorem exists_lineEnded (cs : List Char) : ∃ e, lineEnded cs = cs ++ e := by
  unfold lineEnded
  split
  · exact ⟨[], (List.append_nil cs).symm⟩
  · exact ⟨_, rfl⟩

/-- What may follow a block whose lines start `indent` spaces in: a line that starts further out, or nothing. -/
def EndsBlock (indent : Nat) (s : List Char) : Prop :=
  s = [] ∨ ∃ k c t, k < indent ∧ s = List.replicate k ' ' ++ c :: t ∧ c ≠ ' ' ∧ isBreak c = false

theorem EndsBlock.mono {k n : Nat} (h : EndsBlock k s) (hle : k ≤ n) : EndsBlock n s := by
  obtain rfl | ⟨j, c, t, hj, hs⟩ := h
  · exact .inl rfl
  · exact .inr ⟨j, c, t, Nat.lt_of_lt_of_le hj hle, hs⟩

/-- No line of the block follows. -/
theorem EndsBlock.ne_line {indent : Nat} (h : EndsBlock indent s) (c : Char) (t : List Char) :
    s ≠ List.replicate indent ' ' ++ c :: t := by
  obtain rfl | ⟨k, c', t', hk, rfl, hc, _⟩ := h
  · simp
  · obtain ⟨n, rfl⟩ := Nat.exists_eq_add_of_lt hk
    intro h
    rw [Nat.add_assoc, ← List.replicate_append_replicate, List.append_assoc, List.replicate_succ, List.cons_append] at h
    exact hc (List.cons.inj (List.append_cancel_left h)).1

theorem EndsBlock.ne_break {indent : Nat} (h : EndsBlock indent s) (b : Char) (t : List Char) (hb : isBreak b = true) :
    s ≠ b :: t := by
  obtain rfl | ⟨k, c, t', _, rfl, _, hc⟩ := h
  · simp
  · have hmargin : b :: t ≠ margin k true ++ c :: t' := ne_break_of_margin hb hc
    exact hmargin.symm

theorem EndsBlock.endsLines {indent : Nat} (h : EndsBlock indent s) :
    EndsLines indent (fun c => [c]) true s where
  ne_break := h.ne_break
  ne_char c t _ := h.ne_line c t

theorem endsLine_lineEnded (cs : List Char) : endsLine true (lineEnded cs) = true := by
  unfold lineEnded
  split
  · next h => exact h
  · rw [endsLine_append]
    rfl

theorem lineEnded_inj (hends : endsLine true cs = endsLine true ds) (h : lineEnded cs = lineEnded ds) : cs = ds := by
  rw [lineEnded, lineEnded, hends] at h
  split at h
  · exact h
  · exact List.append_cancel_right h

section

variable {indent : Nat}

theorem endsLine_indentLines (atStart a : Bool) (cs : List Char) :
    endsLine a (indentLines indent (fun c => [c]) atStart cs) = endsLine a cs := by
  induction cs generalizing atStart a with
  | nil => rfl
  | cons c cs ih =>
    cases hc : isBreak c with
    | true =>
      rw [indentLines_break hc]
      exact ih true (isBreak c)
    | false =>
      rw [indentLines_char hc, endsLine_append]
      exact ih false (isBreak c)

theorem indentLines_append (atStart : Bool) (cs ds : List Char) : indentLines indent (fun c => [c]) atStart (cs ++ ds) =
    indentLines indent (fun c => [c]) atStart cs ++ indentLines indent (fun c => [c]) (endsLine atStart cs) ds := by
  induction cs generalizing atStart with
  | nil => rfl
  | cons c cs ih =>
    rw [List.cons_append, endsLine]
    cases hc : isBreak c with
    | true => rw [indentLines_break hc, indentLines_break hc, ih, List.cons_append]
    | false => rw [indentLines_char hc, indentLines_char hc, ih, List.append_assoc, List.append_assoc]

theorem indentLines_ne_nil (atStart : Bool) (h : cs ≠ []) : indentLines indent (fun c => [c]) atStart cs ≠ [] := by
  cases cs with
  | nil => exact absurd rfl h
  | cons c cs =>
    cases hc : isBreak c with
    | true => simp [indentLines_break hc]
    | false => simp [indentLines_char hc]

theorem lineEnded_indentLines (cs : List Char) : lineEnded (indentLines indent (fun c => [c]) true cs) =
    indentLines indent (fun c => [c]) true (lineEnded cs) := by
  rw [lineEnded, lineEnded, endsLine_indentLines]
  split
  · rfl
  · rw [indentLines_append]
    rfl

/-- The lines of a literal behind its header. -/
theorem lineEnded_literal (h : cs ≠ []) :
    lineEnded (literalHeader cs ++ '\n' :: indentLines indent (fun c => [c]) true cs) =
      literalHeader cs ++ '\n' :: indentLines indent (fun c => [c]) true (lineEnded cs) := by
  rw [List.append_cons, lineEnded_append _ (indentLines_ne_nil true h), lineEnded_indentLines, ← List.append_cons]

theorem endsLines_literal (cs : List Char) (hs : EndsBlock indent s) :
    EndsLines indent (fun c => [c]) (endsLine true (lineEnded cs)) s := by
  rw [endsLine_lineEnded]
  exact hs.endsLines

/-- A header is a bar, a hint at the spaces that lines start with, and a sign for how the text ends. -/
theorem literalHeader_cases (hcs : cs ≠ []) : ∃ hint chomp, literalHeader cs = '|' :: hint ++ chomp ∧
    (hint = [] ∨ hint = ['2']) ∧ if endsLine true cs then chomp = ['+'] ∨ chomp = [] else chomp = ['-'] := by
  refine ⟨_, _, rfl, ?hint, ?chomp⟩
  case hint =>
    split
    · exact .inr rfl
    · exact .inl rfl
  case chomp =>
    rw [endsLine_congr true false hcs, endsLine_eq, ← List.head?_reverse]
    match cs.reverse with
    | [] => rfl
    | [c] => cases hc : isBreak c <;> simp [hc]
    | c :: d :: _ => cases hc : isBreak c <;> cases hd : isBreak d <;> simp [hc, hd]

/-- The header says whether a line end has to be taken away from the last line. -/
theorem mem_literalHeader_iff (hcs : cs ≠ []) : '-' ∈ literalHeader cs ↔ endsLine true cs = false := by
  obtain ⟨hint, chomp, hheader, hhint, hchomp⟩ := literalHeader_cases hcs
  rw [hheader]
  split at hchomp
  · next hends => rcases hhint with rfl | rfl <;> rcases hchomp with rfl | rfl <;> simp [hends]
  · next hends => rcases hhint with rfl | rfl <;> simp [hchomp, hends]

theorem lineFeed_notMem_literalHeader (hcs : cs ≠ []) : '\n' ∉ literalHeader cs := by
  obtain ⟨hint, chomp, hheader, hhint, hchomp⟩ := literalHeader_cases hcs
  rw [hheader]
  split at hchomp
  · rcases hhint with rfl | rfl <;> rcases hchomp with rfl | rfl <;> simp
  · rcases hhint with rfl | rfl <;> simp [hchomp]

/-- A literal in front of a line that is no part of it. -/
theorem literal_append_inj (hcs : cs ≠ []) (hds : ds ≠ [])
    (h : lineEnded (literalHeader cs ++ '\n' :: indentLines indent (fun c => [c]) true cs) ++ s =
      lineEnded (literalHeader ds ++ '\n' :: indentLines indent (fun c => [c]) true ds) ++ t)
    (hs : EndsBlock indent s) (ht : EndsBlock indent t) : cs = ds ∧ s = t := by
  rw [lineEnded_literal hcs, lineEnded_literal hds, List.append_assoc, List.append_assoc, List.cons_append,
    List.cons_append] at h
  obtain ⟨hheader, htext⟩ := Text.append_cons_inj (lineFeed_notMem_literalHeader hcs)
    (lineFeed_notMem_literalHeader hds) h
  have hchar {c d : Char} {s t : List Char} (h : [c] ++ s = [d] ++ t) : c = d ∧ s = t := List.cons.inj h
  obtain ⟨hlines, hst⟩ := indentLines_append_inj (fun _ _ => hchar) (fun c hc => ⟨c, [], rfl, hc⟩) htext
    (endsLines_literal cs hs) (endsLines_literal ds ht)
  have hends : endsLine true cs = endsLine true ds := by
    have hiff := mem_literalHeader_iff hcs
    rw [hheader, mem_literalHeader_iff hds] at hiff
    cases hd : endsLine true ds with
    | false => exact hiff.1 hd
    | true =>
      cases hc : endsLine true cs with
      | true => rfl
      | false => rw [hiff.2 hc] at hd; cases hd
  exact ⟨lineEnded_inj hends hlines, hst⟩

end

/-! ## Without quotes -/

/-- Strings that may stand without quotes, and words like these. -/
structure IsPlain (cs : List Char) : Prop where
  ne_nil : cs ≠ []
  head : cs.head? ≠ some ' '
  ne_break : ∀ c ∈ cs, isBreak c = false
  start : startsWithIndicator cs = false
  inner : hasInnerIndicator cs = false

/-- What may follow a string on its line: the end of the line, or the colon behind a key. -/
def EndsScalar (s : List Char) : Prop := ∃ t, s = '\n' :: t ∨ s = ':' :: ' ' :: t ∨ s = ':' :: '\n' :: t

theorem EndsScalar.head_ne {c : Char} (h : EndsScalar s) (hc : c ≠ '\n' ∧ c ≠ ':') : s.head? ≠ some c := by
  obtain ⟨t, rfl | rfl | rfl⟩ := h <;> simp [hc.1.symm, hc.2.symm]

theorem EndsScalar.append (h : EndsScalar s) (t : List Char) : EndsScalar (s ++ t) := by
  obtain ⟨r, rfl | rfl | rfl⟩ := h
  · exact ⟨r ++ t, .inl rfl⟩
  · exact ⟨r ++ t, .inr (.inl rfl)⟩
  · exact ⟨r ++ t, .inr (.inr rfl)⟩

theorem hasInnerIndicator_append (hcs : cs ≠ []) (h : isSeparator ds.head? = true) :
    hasInnerIndicator (cs ++ ':' :: ds) = true := by
  induction cs with
  | nil => exact absurd rfl hcs
  | cons c cs ih =>
    cases cs with
    | nil => simp [hasInnerIndicator, h]
    | cons d cs => simp [hasInnerIndicator, ← ih (List.cons_ne_nil d cs)]

/-- Nothing that follows a string on its line goes on with a longer string. -/
theorem IsPlain.ne_append (hd : IsPlain (cs ++ ds)) (hcs : cs ≠ []) (hds : ds ≠ []) (hs : EndsScalar s) :
    s ≠ ds ++ t := by
  intro h
  obtain ⟨d, ds, rfl⟩ := List.exists_cons_of_ne_nil hds
  have hbreak : isBreak d = false := hd.ne_break d (List.mem_append_right cs (.head _))
  have hcolon {gap : Char} {r : List Char} (hgap : isSeparator (some gap) = true) (hr : gap :: r = ds ++ t) :
      d ≠ ':' := by
    rintro rfl
    have hinner : hasInnerIndicator (cs ++ ':' :: ds) = true := by
      refine hasInnerIndicator_append hcs ?_
      cases ds with
      | nil => rfl
      | cons x ds => rwa [List.head?_cons, ← (List.cons.inj hr).1]
    rw [hd.inner] at hinner
    cases hinner
  obtain ⟨r, rfl | rfl | rfl⟩ := hs <;> obtain ⟨rfl, htail⟩ := List.cons.inj h
  · exact absurd hbreak (by decide)
  · exact hcolon (by decide) htail rfl
  · exact hcolon (by decide) htail rfl

/-- **A string without quotes** shows where it ends. -/
theorem IsPlain.append_inj (hc : IsPlain cs) (hd : IsPlain ds) (hs : EndsScalar s) (ht : EndsScalar t)
    (h : cs ++ s = ds ++ t) : cs = ds ∧ s = t := by
  rcases List.append_eq_append_iff.1 h with ⟨u, rfl, hu⟩ | ⟨u, rfl, hu⟩
  · by_cases hne : u = []
    · subst hne
      exact ⟨(List.append_nil cs).symm, hu⟩
    · exact absurd hu (hd.ne_append hc.ne_nil hne hs)
  · by_cases hne : u = []
    · subst hne
      exact ⟨List.append_nil ds, hu.symm⟩
    · exact absurd hu (hc.ne_append hd.ne_nil hne ht)

/-! ## All styles -/

theorem isPlain_of_allowsPlain (hne : cs ≠ []) (h : allowsPlain cs = true) : IsPlain cs := by
  simp only [allowsPlain, Bool.and_eq_true, Bool.not_eq_true', List.any_eq_false, decide_eq_true_eq] at h
  obtain ⟨⟨⟨⟨⟨_, hbreak⟩, hhead⟩, _⟩, hstart⟩, hinner⟩ := h
  exact ⟨hne, hhead, fun c hc => Bool.eq_false_iff.2 (hbreak c hc), hstart, hinner⟩

/-- What a style asks of a string. -/
def Style.Allows (asKey : Bool) (cs : List Char) : Style → Prop
  | .plain => IsPlain cs
  | .literal => asKey = false ∧ cs ≠ []
  | _ => True

/-- A string is written in a style that allows it. -/
theorem style_allows (asKey : Bool) (x : String) : (style asKey x).Allows asKey x.toList := by
  unfold style
  dsimp only
  split
  · next hline =>
    split
    · trivial
    · next hliteral =>
      simp only [Bool.or_eq_true, not_or, Bool.not_eq_true] at hliteral
      refine ⟨hliteral.2, ?_⟩
      intro hnil
      simp [hnil] at hline
  · split
    · next hplain =>
      rw [Bool.and_eq_true, Bool.not_eq_true'] at hplain
      refine isPlain_of_allowsPlain ?_ hplain.1
      intro hnil
      rw [String.toList_inj.1 (hnil.trans String.toList_empty.symm)] at hplain
      exact absurd hplain.2 (by decide)
    · split <;> trivial

/-- The style that a character starts. -/
def Style.ofHead (c : Char) : Style :=
  if c = '\x27' then .singleQuoted else if c = '\x22' then .doubleQuoted else if c = '|' then .literal else .plain

theorem IsPlain.ofHead {c : Char} (h : IsPlain (c :: cs)) : Style.ofHead c = .plain := by
  have hstart := h.start
  simp only [startsWithIndicator, Bool.or_eq_false_iff] at hstart
  have key : ∀ c, isIndicator c = false → c ≠ '\x27' ∧ c ≠ '\x22' ∧ c ≠ '|' := by
    intro c hc
    refine ⟨?_, ?_, ?_⟩ <;> rintro rfl <;> exact absurd hc (by decide)
  obtain ⟨hsingle, hdouble, hliteral⟩ := key c hstart.2.1
  rw [Style.ofHead, if_neg hsingle, if_neg hdouble, if_neg hliteral]

section

variable {k l : Bool} {m n indent : Nat}

theorem toList_write_plain (h : style k x = .plain) : (write k indent x).toList = x.toList := by
  simp only [write, h]

theorem toList_write_singleQuoted (h : style k x = .singleQuoted) :
    (write k indent x).toList = singleQuoted indent x.toList := by
  simp only [write, h, String.toList_ofList]

theorem toList_write_doubleQuoted (h : style k x = .doubleQuoted) :
    (write k indent x).toList = '\x22' :: (x.toList.flatMap doubleQuotedChar ++ ['\x22']) := by
  simp only [write, h, String.toList_ofList, List.cons_append]

theorem toList_write_literal (h : style k x = .literal) : (write k indent x).toList =
    literalHeader x.toList ++ '\n' :: indentLines indent (fun c => [c]) true x.toList := by
  simp only [write, h, String.toList_ofList]

theorem isPlain_of_style (h : style k x = .plain) : IsPlain x.toList := by
  have hallows := style_allows k x
  rwa [h] at hallows

theorem ne_nil_of_style (h : style k x = .literal) : x.toList ≠ [] := by
  have hallows := style_allows k x
  rw [h] at hallows
  exact hallows.2

theorem style_key_ne_literal (x : String) : style true x ≠ .literal := by
  intro h
  have hallows := style_allows true x
  rw [h] at hallows
  exact absurd hallows.1 (by decide)

/-- A string shows its style in its first character. -/
theorem exists_head_write (k : Bool) (indent : Nat) (x : String) :
    ∃ c r, (write k indent x).toList = c :: r ∧ Style.ofHead c = style k x := by
  cases hs : style k x with
  | plain =>
    have hplain := isPlain_of_style hs
    obtain ⟨c, r, hx⟩ := List.exists_cons_of_ne_nil hplain.ne_nil
    rw [hx] at hplain
    exact ⟨c, r, (toList_write_plain hs).trans hx, hplain.ofHead⟩
  | singleQuoted => exact ⟨_, _, toList_write_singleQuoted hs, rfl⟩
  | doubleQuoted => exact ⟨_, _, toList_write_doubleQuoted hs, rfl⟩
  | literal => exact ⟨_, _, toList_write_literal hs, rfl⟩

theorem style_eq_of_write (h : (write k m x).toList ++ s = (write l n y).toList ++ t) : style k x = style l y := by
  obtain ⟨c, r, hx, hc⟩ := exists_head_write k m x
  obtain ⟨d, u, hy, hd⟩ := exists_head_write l n y
  rw [hx, hy] at h
  rw [← hc, ← hd, (List.cons.inj h).1]

/-- **A string on its line** shows where it ends. -/
theorem write_append_inj (h : (write k indent x).toList ++ s = (write l indent y).toList ++ t)
    (hx : style k x ≠ .literal) (hs : EndsScalar s) (ht : EndsScalar t) : x = y ∧ s = t := by
  have hy := style_eq_of_write h
  have hchars : x.toList = y.toList ∧ s = t := by
    cases hk : style k x with
    | plain =>
      rw [hk] at hy
      rw [toList_write_plain hk, toList_write_plain hy.symm] at h
      exact (isPlain_of_style hk).append_inj (isPlain_of_style hy.symm) hs ht h
    | singleQuoted =>
      rw [hk] at hy
      rw [toList_write_singleQuoted hk, toList_write_singleQuoted hy.symm] at h
      exact singleQuoted_append_inj h (hs.head_ne (by decide)) (ht.head_ne (by decide))
    | doubleQuoted =>
      rw [hk] at hy
      rw [toList_write_doubleQuoted hk, toList_write_doubleQuoted hy.symm, List.cons_append, List.cons_append,
        List.append_assoc, List.append_assoc] at h
      exact escapes_doubleQuotedChar.flatMap_append_inj (List.cons.inj h).2
    | literal => exact absurd hk hx
  exact ⟨String.toList_inj.1 hchars.1, hchars.2⟩

/-- But for literals, a string ends within its line. -/
theorem lineEnded_write (h : style k x ≠ .literal) :
    lineEnded (write k indent x).toList = (write k indent x).toList ++ ['\n'] := by
  have hends : endsLine true (write k indent x).toList = false := by
    cases hk : style k x with
    | plain =>
      have hplain := isPlain_of_style hk
      rw [toList_write_plain hk, endsLine_congr true false hplain.ne_nil]
      exact endsLine_of_forall hplain.ne_break
    | singleQuoted =>
      have happend := singleQuoted_append indent x.toList []
      rw [List.append_nil] at happend
      rw [toList_write_singleQuoted hk, happend, ← List.append_assoc, ← List.cons_append, endsLine_append]
      rfl
    | doubleQuoted =>
      rw [toList_write_doubleQuoted hk, ← List.cons_append, endsLine_append]
      rfl
    | literal => exact absurd hk h
  rw [lineEnded, hends]
  rfl

/-- **A string and the end of its last line** show where they end. -/
theorem lineEnded_write_append_inj
    (h : lineEnded (write false indent x).toList ++ s = lineEnded (write false indent y).toList ++ t)
    (hs : EndsBlock indent s) (ht : EndsBlock indent t) : x = y ∧ s = t := by
  have hy : style false x = style false y := by
    obtain ⟨u, hu⟩ := exists_lineEnded (write false indent x).toList
    obtain ⟨v, hv⟩ := exists_lineEnded (write false indent y).toList
    rw [hu, hv, List.append_assoc, List.append_assoc] at h
    exact style_eq_of_write h
  by_cases hx : style false x = .literal
  · have hy := hy.symm.trans hx
    rw [toList_write_literal hx, toList_write_literal hy] at h
    obtain ⟨hxy, hst⟩ := literal_append_inj (ne_nil_of_style hx) (ne_nil_of_style hy) h hs ht
    exact ⟨String.toList_inj.1 hxy, hst⟩
  · rw [lineEnded_write hx, lineEnded_write (hy ▸ hx), List.append_assoc, List.append_assoc] at h
    obtain ⟨hxy, hst⟩ := write_append_inj h hx ⟨s, .inl rfl⟩ ⟨t, .inl rfl⟩
    exact ⟨hxy, (List.cons.inj hst).2⟩

/-! ## Strings among other lines -/

/-- A string starts a line: neither with a space nor with a break. -/
theorem exists_start_write (k : Bool) (indent : Nat) (x : String) :
    ∃ c r, (write k indent x).toList = c :: r ∧ c ≠ ' ' ∧ isBreak c = false := by
  cases hs : style k x with
  | plain =>
    have hplain := isPlain_of_style hs
    obtain ⟨c, r, hx⟩ := List.exists_cons_of_ne_nil hplain.ne_nil
    rw [hx] at hplain
    exact ⟨c, r, (toList_write_plain hs).trans hx, fun hc => hplain.head (congrArg some hc),
      hplain.ne_break c (.head _)⟩
  | singleQuoted => exact ⟨_, _, toList_write_singleQuoted hs, by decide, by decide⟩
  | doubleQuoted => exact ⟨_, _, toList_write_doubleQuoted hs, by decide, by decide⟩
  | literal => exact ⟨_, _, toList_write_literal hs, by decide, by decide⟩

/-- Only a plain string starts like an item or a key that stands by itself, and it ends there. -/
theorem plain_of_opener {p : Char} (hp : p = '-' ∨ p = '?') (h : (write k indent x).toList ++ s = p :: ' ' :: t) :
    style k x = .plain ∧ s.head? = some ' ' := by
  obtain ⟨c, r, hx, hc⟩ := exists_head_write k indent x
  rw [hx] at h
  obtain ⟨rfl, hr⟩ := List.cons.inj h
  have hstyle : style k x = .plain := by
    rw [← hc]
    rcases hp with rfl | rfl <;> rfl
  refine ⟨hstyle, ?_⟩
  rw [toList_write_plain hstyle] at hx
  have hstart := (isPlain_of_style hstyle).start
  rw [hx] at hstart
  cases r with
  | nil => exact congrArg List.head? hr
  | cons y r =>
    obtain rfl : y = ' ' := (List.cons.inj hr).1
    rcases hp with rfl | rfl <;> simp [startsWithIndicator, isSeparator] at hstart

theorem lineEnded_write_ne_opener {p : Char} (hp : p = '-' ∨ p = '?') :
    lineEnded (write k indent x).toList ++ s ≠ p :: ' ' :: t := by
  intro h
  obtain ⟨u, hu⟩ := exists_lineEnded (write k indent x).toList
  have hplain : style k x = .plain := by
    rw [hu, List.append_assoc] at h
    exact (plain_of_opener hp h).1
  rw [lineEnded_write (by rw [hplain]; decide), List.append_assoc] at h
  exact absurd (Option.some.inj (plain_of_opener hp h).2) (by decide)

/-- How far in its lines stand does not matter for a string of one line. -/
theorem write_congr (m n : Nat) (h : ∀ c ∈ x.toList, isBreak c = false) (hx : style k x ≠ .literal) :
    (write k m x).toList = (write k n x).toList := by
  cases hs : style k x with
  | plain => rw [toList_write_plain hs, toList_write_plain hs]
  | singleQuoted =>
    have hline (indent : Nat) : singleQuoted indent x.toList ++ [] =
        '\x27' :: (x.toList.flatMap singleQuotedChar ++ ['\x27']) := by
      rw [singleQuoted_append, indentLines_of_forall h, endsLine_of_forall h]
      rfl
    rw [toList_write_singleQuoted hs, toList_write_singleQuoted hs, ← List.append_nil (singleQuoted m _), hline,
      ← hline n, List.append_nil]
  | doubleQuoted => rw [toList_write_doubleQuoted hs, toList_write_doubleQuoted hs]
  | literal => exact absurd hs hx

end

end SearchFilter.Yaml
