import SearchFilter.Proofs.Texts.Lines

/-!
# Documents in YAML text show where they end

A document is a word such as `null` or `[]`, a string, an array with items or an object with members, and how its text
starts shows which. The items of an array may stand as far in as the key in front of it, and so what may follow a
document without becoming a part of it depends on its kind.

* `Document.NumberFree.same_kind` — documents that the same text starts with are of one kind.
* `Document.Ends` — what may follow a document.
* `Document.NumberFree.shownInLines` — a document in front of what may follow is told apart from all others.
* `Document.NumberFree.yaml_inj` — documents of the same text are the same.
-/

namespace SearchFilter.Document

open Yaml

variable {d e : Document} {s t : List Char} {m n : Nat} {w key : String}

/-! ## Kinds of documents -/

/-- The word for a document without parts, if there is one. -/
def word? : Document → Option String
  | null => some "null"
  | boolean b => some (if b then "true" else "false")
  | array [] => some "[]"
  | object [] => some "\x7b\x7d"
  | _ => none

/-- All words, with their documents. -/
def words : List (String × Document) :=
  [("null", null), ("true", boolean true), ("false", boolean false), ("[]", array []), ("\x7b\x7d", object [])]

theorem mem_words (h : d.word? = some w) : (w, d) ∈ words := by
  unfold word? at h
  split at h
  case h_2 b => cases b <;> cases h <;> simp [words]
  case h_5 => cases h
  all_goals
    cases h
    simp [words]

theorem words_inj (hd : (w, d) ∈ words) (he : (w, e) ∈ words) : d = e := by
  simp only [words, List.mem_cons, Prod.mk.injEq, List.not_mem_nil, or_false] at hd he
  rcases hd with ⟨rfl, rfl⟩ | ⟨rfl, rfl⟩ | ⟨rfl, rfl⟩ | ⟨rfl, rfl⟩ | ⟨rfl, rfl⟩ <;>
    rcases he with ⟨h, rfl⟩ | ⟨h, rfl⟩ | ⟨h, rfl⟩ | ⟨h, rfl⟩ | ⟨h, rfl⟩ <;>
    first | rfl | exact absurd h (by decide)

/-- What words have in common: they start like plain strings, are on one line, and no string is written like them. -/
structure IsWord (w : String) : Prop where
  start : ∃ c r, w.toList = c :: r ∧ Style.ofHead c = .plain ∧ c ≠ '-' ∧ c ≠ '?'
  lineEnded_eq : lineEnded w.toList = w.toList ++ ['\n']
  line : '\n' ∉ w.toList
  colon : ':' ∉ w.toList
  style_ne : style false w ≠ .plain

theorem isWord_of_word (h : d.word? = some w) : IsWord w := by
  have hstart : ∀ w ∈ words.map Prod.fst, ∃ c r, w.toList = c :: r ∧ Style.ofHead c = .plain ∧ c ≠ '-' ∧ c ≠ '?' := by
    simp only [words, List.map_cons, List.map_nil, List.forall_mem_cons]
    exact ⟨⟨_, _, rfl, by decide⟩, ⟨_, _, rfl, by decide⟩, ⟨_, _, rfl, by decide⟩, ⟨_, _, rfl, by decide⟩,
      ⟨_, _, rfl, by decide⟩, List.forall_mem_nil _⟩
  have hrest : ∀ w ∈ words.map Prod.fst, lineEnded w.toList = w.toList ++ ['\n'] ∧ '\n' ∉ w.toList ∧ ':' ∉ w.toList ∧
      style false w ≠ .plain := by decide
  have hmem : w ∈ words.map Prod.fst := List.mem_map.2 ⟨_, mem_words h, rfl⟩
  obtain ⟨hlines, hline, hcolon, hstyle⟩ := hrest w hmem
  exact ⟨hstart w hmem, hlines, hline, hcolon, hstyle⟩

theorem lines_of_word (h : d.word? = some w) (n : Nat) : lines n d = w.toList ++ ['\n'] := by
  rw [← (isWord_of_word h).lineEnded_eq]
  unfold word? at h
  split at h <;> cases h <;> rfl

theorem isInline_of_word (h : d.word? = some w) : d.isInline = true := by
  unfold word? at h
  split at h <;> first | rfl | cases h

theorem NumberFree.kinds (h : d.NumberFree) : (∃ w, d.word? = some w) ∨ (∃ x, d = Document.string x) ∨
    (∃ x xs, d = Document.array (x :: xs)) ∨ ∃ key e ps, d = Document.object ((key, e) :: ps) := by
  cases h with
  | null => exact .inl ⟨_, rfl⟩
  | boolean => exact .inl ⟨_, rfl⟩
  | string x => exact .inr (.inl ⟨x, rfl⟩)
  | @array items =>
    cases items with
    | nil => exact .inl ⟨_, rfl⟩
    | cons x xs => exact .inr (.inr (.inl ⟨x, xs, rfl⟩))
  | @object members =>
    cases members with
    | nil => exact .inl ⟨_, rfl⟩
    | cons p ps => exact .inr (.inr (.inr ⟨p.1, p.2, ps, rfl⟩))

/-! ## Kinds are told apart -/

/-- No text starts with both documents, however far in they stand. -/
def Apart (d e : Document) : Prop := ∀ m n s t, lines m d ++ s ≠ lines n e ++ t

theorem Apart.symm (h : Apart d e) : Apart e d := fun m n s t heq => h n m t s heq.symm

theorem endsScalar_valueLines (n : Nat) (d : Document) (l : Nat → List Char) :
    EndsScalar (':' :: valueLines n d l) := by
  unfold valueLines
  split
  · exact ⟨_, .inr (.inl rfl)⟩
  · exact ⟨_, .inr (.inr rfl)⟩

/-- What an object starts with: a key of one line and a colon, or a question mark. -/
theorem memberLine_cases (n : Nat) (key : String) (d : Document) (l : Nat → List Char) :
    (∃ r, EndsScalar (':' :: r) ∧ (∀ c ∈ key.toList, isBreak c = false) ∧
      memberLine n key d l = (write true (n + 2) key).toList ++ ':' :: r) ∨
      ∃ r, memberLine n key d l = '?' :: ' ' :: r := by
  unfold memberLine
  split
  · next hshort =>
    refine .inl ⟨_, endsScalar_valueLines n d l, ?_, rfl⟩
    · simp only [isShortKey, Bool.and_eq_true, Bool.not_eq_true', List.any_eq_false] at hshort
      exact fun c hc => Bool.eq_false_iff.2 (hshort.1 c hc)
  · exact .inr ⟨_, rfl⟩

theorem lines_object (n : Nat) (key : String) (d : Document) (ps : List (String × Document)) :
    lines n (object ((key, d) :: ps)) = memberLine n key d (lines · d) ++ memberLines n false ps := rfl

theorem lines_array (n : Nat) (x : Document) (xs : List Document) :
    lines n (array (x :: xs)) = '-' :: ' ' :: (lines (n + 2) x ++ itemLines n false xs) := rfl

theorem apart_word_string (hd : d.word? = some w) (x : String) : Apart d (string x) := by
  intro m n s t h
  have hw := isWord_of_word hd
  obtain ⟨c, r, hc, hplain, _⟩ := hw.start
  obtain ⟨y, u, hy, hhead⟩ := exists_head_write false n x
  obtain ⟨v, hv⟩ := exists_lineEnded (write false n x).toList
  have hlines : lines n (string x) = lineEnded (write false n x).toList := rfl
  rw [lines_of_word hd, hlines] at h
  have hstyle : style false x = .plain := by
    rw [hv, hc, hy] at h
    rw [← hhead, ← (List.cons.inj h).1, hplain]
  rw [lineEnded_write (by rw [hstyle]; decide), toList_write_plain hstyle, List.append_assoc, List.append_assoc] at h
  have hline : '\n' ∉ x.toList := fun hmem => absurd ((isPlain_of_style hstyle).ne_break _ hmem) (by decide)
  obtain rfl := String.toList_inj.1 (Text.append_cons_inj hw.line hline h).1
  exact hw.style_ne hstyle

theorem apart_word_array (hd : d.word? = some w) (x : Document) (xs : List Document) : Apart d (array (x :: xs)) := by
  intro m n s t h
  obtain ⟨c, r, hc, _, hne, _⟩ := (isWord_of_word hd).start
  rw [lines_of_word hd, hc] at h
  exact hne (List.cons.inj h).1

theorem apart_word_object (hd : d.word? = some w) (key : String) (e : Document) (ps : List (String × Document)) :
    Apart d (object ((key, e) :: ps)) := by
  intro m n s t h
  have hw := isWord_of_word hd
  obtain ⟨c, r, hc, hplain, _, hne⟩ := hw.start
  rw [lines_of_word hd, lines_object] at h
  rcases memberLine_cases n key e (lines · e) with ⟨r, _, hkey, hmember⟩ | ⟨r, hmember⟩ <;> rw [hmember] at h
  · obtain ⟨y, u, hy, hhead⟩ := exists_head_write true (n + 2) key
    have hstyle : style true key = .plain := by
      rw [hc, hy] at h
      rw [← hhead, ← (List.cons.inj h).1, hplain]
    have htext : w.toList ++ '\n' :: s = (key.toList ++ [':']) ++ (r ++ (memberLines n false ps ++ t)) := by
      rw [toList_write_plain hstyle] at h
      simpa using h
    -- The word would have the colon, or the key the line end.
    rcases List.append_eq_append_iff.1 htext with ⟨u, hu, hrest⟩ | ⟨u, hu, _⟩
    · cases u with
      | nil => exact hw.colon (by rw [← List.append_nil w.toList, ← hu]; simp)
      | cons z u =>
        obtain rfl : '\n' = z := (List.cons.inj hrest).1
        have hmem : '\n' ∈ key.toList ++ [':'] := by rw [hu]; simp
        rcases List.mem_append.1 hmem with hmem | hmem
        · exact absurd (hkey _ hmem) (by decide)
        · exact absurd hmem (by decide)
    · exact hw.colon (by rw [hu]; simp)
  · rw [hc] at h
    exact hne (List.cons.inj h).1

theorem apart_string_array (x : String) (y : Document) (ys : List Document) : Apart (string x) (array (y :: ys)) :=
  fun _ _ _ _ => lineEnded_write_ne_opener (.inl rfl)

theorem apart_string_object (x key : String) (e : Document) (ps : List (String × Document)) :
    Apart (string x) (object ((key, e) :: ps)) := by
  intro m n s t h
  have hlines : lines m (string x) = lineEnded (write false m x).toList := rfl
  rw [hlines, lines_object] at h
  rcases memberLine_cases n key e (lines · e) with ⟨r, hr, hkey, hmember⟩ | ⟨r, hmember⟩ <;> rw [hmember] at h
  · have hliteral := style_key_ne_literal key
    obtain ⟨v, hv⟩ := exists_lineEnded (write false m x).toList
    have hstyle : style false x = style true key := by
      rw [hv, List.append_assoc, List.append_assoc, List.append_assoc] at h
      exact style_eq_of_write h
    rw [lineEnded_write (by rwa [hstyle]), ← write_congr m (n + 2) hkey hliteral, List.append_assoc, List.append_assoc,
      List.append_assoc] at h
    have hst := (write_append_inj h (by rwa [hstyle]) ⟨s, .inl rfl⟩ (hr.append _)).2
    exact absurd (List.cons.inj hst).1 (by decide)
  · exact lineEnded_write_ne_opener (.inr rfl) h

theorem apart_array_object (x : Document) (xs : List Document) (key : String) (e : Document)
    (ps : List (String × Document)) : Apart (array (x :: xs)) (object ((key, e) :: ps)) := by
  intro m n s t h
  rw [lines_array, lines_object] at h
  rcases memberLine_cases n key e (lines · e) with ⟨r, _, _, hmember⟩ | ⟨r, hmember⟩ <;> rw [hmember] at h
  · rw [List.append_assoc, List.append_assoc] at h
    exact absurd (Option.some.inj (plain_of_opener (.inl rfl) h.symm).2) (by decide)
  · exact absurd (List.cons.inj h).1 (by decide)

/-- What can start a text is of one kind. -/
theorem NumberFree.same_kind (hd : d.NumberFree) (he : e.NumberFree) (h : lines m d ++ s = lines n e ++ t) :
    (∃ w v, d.word? = some w ∧ e.word? = some v) ∨ (∃ x y, d = Document.string x ∧ e = Document.string y) ∨
      (∃ x xs y ys, d = Document.array (x :: xs) ∧ e = Document.array (y :: ys)) ∨
      ∃ key d' ps key' e' qs, d = Document.object ((key, d') :: ps) ∧ e = Document.object ((key', e') :: qs) := by
  rcases hd.kinds with ⟨w, hw⟩ | ⟨x, rfl⟩ | ⟨x, xs, rfl⟩ | ⟨key, d', ps, rfl⟩ <;>
    rcases he.kinds with ⟨v, hv⟩ | ⟨y, rfl⟩ | ⟨y, ys, rfl⟩ | ⟨key', e', qs, rfl⟩
  · exact .inl ⟨w, v, hw, hv⟩
  · exact absurd h (apart_word_string hw y m n s t)
  · exact absurd h (apart_word_array hw y ys m n s t)
  · exact absurd h (apart_word_object hw key' e' qs m n s t)
  · exact absurd h ((apart_word_string hv x).symm m n s t)
  · exact .inr (.inl ⟨x, y, rfl, rfl⟩)
  · exact absurd h (apart_string_array x y ys m n s t)
  · exact absurd h (apart_string_object x key' e' qs m n s t)
  · exact absurd h ((apart_word_array hv x xs).symm m n s t)
  · exact absurd h ((apart_string_array y x xs).symm m n s t)
  · exact .inr (.inr (.inl ⟨x, xs, y, ys, rfl, rfl⟩))
  · exact absurd h (apart_array_object x xs key' e' qs m n s t)
  · exact absurd h ((apart_word_object hv key d' ps).symm m n s t)
  · exact absurd h ((apart_string_object y key d' ps).symm m n s t)
  · exact absurd h ((apart_array_object y ys key d' ps).symm m n s t)
  · exact .inr (.inr (.inr ⟨key, d', ps, key', e', qs, rfl, rfl⟩))

/-! ## What may follow -/

theorem endsBlock_line {k : Nat} (hk : k < n) {c : Char} (hc : c ≠ ' ') (hb : isBreak c = false) (t : List Char) :
    EndsBlock n (List.replicate k ' ' ++ c :: t) := .inr ⟨k, c, t, hk, rfl, hc, hb⟩

/-- What may follow the items of an array `n` spaces in: no item, and no line further in. -/
structure EndsItems (n : Nat) (s : List Char) : Prop where
  outside : EndsBlock (n + 1) s
  ne_item : ∀ t, s ≠ List.replicate n ' ' ++ '-' :: ' ' :: t

theorem EndsItems.of_block (h : EndsBlock n s) : EndsItems n s :=
  ⟨h.mono (Nat.le_succ n), fun _ => h.ne_line _ _⟩

/-- What may follow a document. -/
def Ends (n : Nat) : Document → List Char → Prop
  | array (_ :: _), s => EndsItems n s
  | _, s => EndsBlock n s

theorem ends_of_block (h : EndsBlock n s) (d : Document) : Ends n d s := by
  unfold Ends
  split
  · exact .of_block h
  · exact h

/-- The lines of items go on outside of the items. -/
theorem EndsItems.items (h : EndsItems n s) (xs : List Document) : EndsBlock (n + 1) (itemLines n false xs ++ s) := by
  cases xs with
  | nil => exact h.outside
  | cons x xs =>
    have hline : itemLines n false (x :: xs) ++ s =
        List.replicate n ' ' ++ '-' :: (' ' :: (lines (n + 2) x ++ itemLines n false xs) ++ s) := by
      rw [itemLines, List.append_assoc]
      rfl
    rw [hline]
    exact endsBlock_line (Nat.lt_succ_self n) (by decide) (by decide) _

/-- The line of a member starts like no item. -/
theorem exists_start_memberLine (n : Nat) (key : String) (d : Document) (l : Nat → List Char) (s : List Char) :
    ∃ c r, memberLine n key d l ++ s = c :: r ∧ c ≠ ' ' ∧ isBreak c = false ∧ ∀ t, c :: r ≠ '-' :: ' ' :: t := by
  rcases memberLine_cases n key d l with ⟨r, _, _, hmember⟩ | ⟨r, hmember⟩ <;> rw [hmember]
  · obtain ⟨c, u, hc, hspace, hbreak⟩ := exists_start_write true (n + 2) key
    refine ⟨c, u ++ (':' :: r ++ s), by rw [hc, List.append_assoc]; rfl, hspace, hbreak, fun t h => ?_⟩
    have h : (write true (n + 2) key).toList ++ (':' :: r ++ s) = '-' :: ' ' :: t := by rw [hc, ← h]; rfl
    exact absurd (Option.some.inj (plain_of_opener (.inl rfl) h).2) (by decide)
  · exact ⟨'?', _, rfl, by decide, by decide, fun t h => absurd (List.cons.inj h).1 (by decide)⟩

theorem EndsItems.members (h : EndsBlock n s) (ps : List (String × Document)) :
    EndsItems n (memberLines n false ps ++ s) := by
  cases ps with
  | nil => exact .of_block h
  | cons p ps =>
    obtain ⟨key, d⟩ := p
    obtain ⟨c, r, hline, hspace, hbreak, hne⟩ :=
      exists_start_memberLine n key d (lines · d) (memberLines n false ps ++ s)
    have hlines : memberLines n false ((key, d) :: ps) ++ s = List.replicate n ' ' ++ c :: r := by
      rw [memberLines, List.append_assoc, List.append_assoc, hline]
      rfl
    rw [hlines]
    exact ⟨endsBlock_line (Nat.lt_succ_self n) hspace hbreak r, fun t h => hne t (List.append_cancel_left h)⟩

/-! ## Documents -/

/-- Whether a document can be told from all others, where nothing follows that could belong to it. -/
def ShownInLines (d : Document) : Prop :=
  ∀ {e : Document} {n : Nat} {s t : List Char}, e.NumberFree → lines n d ++ s = lines n e ++ t →
    Ends n d s → Ends n e t → d = e ∧ s = t

theorem itemLines_append_inj {xs ys : List Document} (hx : ∀ d ∈ xs, ShownInLines d) (hy : ∀ d ∈ ys, d.NumberFree)
    (h : itemLines n false xs ++ s = itemLines n false ys ++ t) (hs : EndsItems n s) (ht : EndsItems n t) :
    xs = ys ∧ s = t := by
  have hcons (x : Document) (xs : List Document) (s : List Char) : itemLines n false (x :: xs) ++ s =
      List.replicate n ' ' ++ '-' :: ' ' :: (lines (n + 2) x ++ (itemLines n false xs ++ s)) := by
    simp [itemLines, margin]
  induction xs generalizing ys with
  | nil =>
    cases ys with
    | nil => exact ⟨rfl, h⟩
    | cons y ys =>
      rw [hcons] at h
      exact absurd h (hs.ne_item _)
  | cons x xs ih =>
    cases ys with
    | nil =>
      rw [hcons] at h
      exact absurd h.symm (ht.ne_item _)
    | cons y ys =>
      rw [hcons, hcons] at h
      have hitem := (List.cons.inj (List.cons.inj (List.append_cancel_left h)).2).2
      obtain ⟨rfl, hrest⟩ := hx x (.head _) (hy y (.head _)) hitem
        (ends_of_block ((hs.items xs).mono (Nat.le_succ _)) x) (ends_of_block ((ht.items ys).mono (Nat.le_succ _)) y)
      obtain ⟨rfl, hst⟩ := ih (fun d hd => hx d (.tail _ hd)) (fun d hd => hy d (.tail _ hd)) hrest
      exact ⟨rfl, hst⟩

theorem NumberFree.block_kinds (hd : d.NumberFree) (h : d.isInline = false) :
    (∃ x xs, d = Document.array (x :: xs)) ∨ ∃ key e ps, d = Document.object ((key, e) :: ps) := by
  rcases hd.kinds with ⟨w, hw⟩ | ⟨x, rfl⟩ | hd | hd
  · rw [isInline_of_word hw] at h
    cases h
  · cases h
  · exact .inl hd
  · exact .inr hd

theorem valueLines_inline (h : d.isInline = true) (n : Nat) (s : List Char) :
    valueLines n d (lines · d) ++ s = ' ' :: (lines (n + 2) d ++ s) := by
  rw [valueLines, if_pos h]
  rfl

theorem valueLines_block (h : d.isInline = false) (n : Nat) (s : List Char) : valueLines n d (lines · d) ++ s =
    '\n' :: (List.replicate (valueIndent n d) ' ' ++ (lines (valueIndent n d) d ++ s)) := by
  rw [valueLines, if_neg (Bool.eq_false_iff.1 h), List.cons_append, List.append_assoc]

/-- Below a key an array stands less far in than an object. -/
theorem valueLines_ne (x : Document) (xs : List Document) (key : String) (e : Document)
    (ps : List (String × Document)) :
    valueLines n (array (x :: xs)) (lines · (array (x :: xs))) ++ s ≠
      valueLines n (object ((key, e) :: ps)) (lines · (object ((key, e) :: ps))) ++ t := by
  intro h
  rw [valueLines_block rfl, valueLines_block rfl] at h
  obtain ⟨c, r, hline, _⟩ :=
    exists_start_memberLine (n + 2) key e (lines · e) (memberLines (n + 2) false ps ++ t)
  have hends : EndsBlock (n + 2) (List.replicate n ' ' ++ (lines n (array (x :: xs)) ++ s)) :=
    endsBlock_line (c := '-') (Nat.lt_add_of_pos_right (by decide)) (by decide) (by decide) _
  refine hends.ne_line c r ((List.cons.inj h).2.trans ?_)
  rw [← hline, ← List.append_assoc (memberLine _ _ _ _)]
  rfl

theorem valueLines_append_inj (hshown : ShownInLines d) (hd : d.NumberFree) (he : e.NumberFree)
    (h : valueLines n d (lines · d) ++ s = valueLines n e (lines · e) ++ t) (hs : EndsItems n s)
    (ht : EndsItems n t) : d = e ∧ s = t := by
  have hsd := ends_of_block (hs.outside.mono (Nat.le_succ _)) d
  have hte := ends_of_block (ht.outside.mono (Nat.le_succ _)) e
  cases hdi : d.isInline <;> cases hei : e.isInline
  case true.true =>
    rw [valueLines_inline hdi, valueLines_inline hei] at h
    exact hshown he (List.cons.inj h).2 hsd hte
  case true.false =>
    rw [valueLines_inline hdi, valueLines_block hei] at h
    exact absurd (List.cons.inj h).1 (by decide)
  case false.true =>
    rw [valueLines_block hdi, valueLines_inline hei] at h
    exact absurd (List.cons.inj h).1 (by decide)
  case false.false =>
    rcases hd.block_kinds hdi with ⟨x, xs, rfl⟩ | ⟨key, d', ps, rfl⟩ <;>
      rcases he.block_kinds hei with ⟨y, ys, rfl⟩ | ⟨key', e', qs, rfl⟩
    · rw [valueLines_block hdi, valueLines_block hei] at h
      exact hshown he (List.append_cancel_left (List.cons.inj h).2) hs ht
    · exact absurd h (valueLines_ne x xs key' e' qs)
    · exact absurd h.symm (valueLines_ne y ys key d' ps)
    · rw [valueLines_block hdi, valueLines_block hei] at h
      exact hshown he (List.append_cancel_left (List.cons.inj h).2) hsd hte

theorem memberLine_short (h : isShortKey key = true) (n : Nat) (d : Document) (l : Nat → List Char) (s : List Char) :
    memberLine n key d l ++ s = (write true (n + 2) key).toList ++ ':' :: (valueLines n d l ++ s) := by
  rw [memberLine, if_pos h, List.append_assoc]
  rfl

theorem memberLine_long (h : isShortKey key = false) (n : Nat) (d : Document) (l : Nat → List Char) (s : List Char) :
    memberLine n key d l ++ s = '?' :: ' ' :: (lineEnded (write false (n + 2) key).toList ++
      (List.replicate n ' ' ++ ':' :: ' ' :: (l (n + 2) ++ s))) := by
  rw [memberLine, if_neg (Bool.eq_false_iff.1 h)]
  simp

/-- A key on the line of its value is no key that stands by itself. -/
theorem memberLine_ne {key' : String} (hk : isShortKey key = true) (hk' : isShortKey key' = false) :
    memberLine n key d (lines · d) ++ s ≠ memberLine n key' e (lines · e) ++ t := by
  intro h
  rw [memberLine_short hk, memberLine_long hk'] at h
  exact absurd (Option.some.inj (plain_of_opener (.inr rfl) h).2) (by decide)

theorem memberLine_append_inj {key' : String} (hshown : ShownInLines d) (hd : d.NumberFree) (he : e.NumberFree)
    (h : memberLine n key d (lines · d) ++ s = memberLine n key' e (lines · e) ++ t)
    (hs : EndsItems n s) (ht : EndsItems n t) : key = key' ∧ d = e ∧ s = t := by
  have hends {u : List Char} : EndsBlock (n + 2) (List.replicate n ' ' ++ ':' :: u) :=
    endsBlock_line (Nat.lt_add_of_pos_right (by decide)) (by decide) (by decide) u
  cases hk : isShortKey key <;> cases hk' : isShortKey key'
  case true.true =>
    rw [memberLine_short hk, memberLine_short hk'] at h
    obtain ⟨rfl, hvalue⟩ := write_append_inj h (style_key_ne_literal key)
      ((endsScalar_valueLines n d _).append s) ((endsScalar_valueLines n e _).append t)
    exact ⟨rfl, valueLines_append_inj hshown hd he (List.cons.inj hvalue).2 hs ht⟩
  case true.false => exact absurd h (memberLine_ne hk hk')
  case false.true => exact absurd h.symm (memberLine_ne hk' hk)
  case false.false =>
    rw [memberLine_long hk, memberLine_long hk', List.cons.injEq, List.cons.injEq] at h
    obtain ⟨rfl, hvalue⟩ := lineEnded_write_append_inj h.2.2 hends hends
    have hlines := (List.cons.inj (List.cons.inj (List.append_cancel_left hvalue)).2).2
    exact ⟨rfl, hshown he hlines (ends_of_block (hs.outside.mono (Nat.le_succ _)) d)
      (ends_of_block (ht.outside.mono (Nat.le_succ _)) e)⟩

theorem memberLines_append_inj {ps qs : List (String × Document)} (hp : ∀ p ∈ ps, ShownInLines p.2)
    (hps : ∀ p ∈ ps, p.2.NumberFree) (hqs : ∀ q ∈ qs, q.2.NumberFree)
    (h : memberLines n false ps ++ s = memberLines n false qs ++ t) (hs : EndsBlock n s) (ht : EndsBlock n t) :
    ps = qs ∧ s = t := by
  have hcons (key : String) (d : Document) (ps : List (String × Document)) (s : List Char) :
      memberLines n false ((key, d) :: ps) ++ s =
        List.replicate n ' ' ++ (memberLine n key d (lines · d) ++ (memberLines n false ps ++ s)) := by
    simp [memberLines, margin]
  have hnil (key : String) (d : Document) (ps : List (String × Document)) {s t : List Char} (hs : EndsBlock n s) :
      s ≠ memberLines n false ((key, d) :: ps) ++ t := by
    obtain ⟨c, r, hline, _⟩ := exists_start_memberLine n key d (lines · d) (memberLines n false ps ++ t)
    rw [hcons, hline]
    exact hs.ne_line c r
  induction ps generalizing qs with
  | nil =>
    cases qs with
    | nil => exact ⟨rfl, h⟩
    | cons q qs => exact absurd h (hnil q.1 q.2 qs hs)
  | cons p ps ih =>
    cases qs with
    | nil => exact absurd h.symm (hnil p.1 p.2 ps ht)
    | cons q qs =>
      obtain ⟨key, d⟩ := p
      obtain ⟨key', e⟩ := q
      rw [hcons, hcons] at h
      obtain ⟨rfl, rfl, hrest⟩ := memberLine_append_inj (hp _ (.head _)) (hps _ (.head _)) (hqs _ (.head _))
        (List.append_cancel_left h) (.members hs ps) (.members ht qs)
      obtain ⟨rfl, hst⟩ := ih (fun p h => hp p (.tail _ h)) (fun p h => hps p (.tail _ h))
        (fun q h => hqs q (.tail _ h)) hrest
      exact ⟨rfl, hst⟩

theorem shownInLines_word (hfree : d.NumberFree) (hd : d.word? = some w) : ShownInLines d := by
  intro e n s t he h _ _
  rcases hfree.same_kind he h with ⟨w', v, hw, hv⟩ | ⟨x, y, rfl, _⟩ | ⟨x, xs, y, ys, rfl, _⟩ |
    ⟨key, d', ps, key', e', qs, rfl, _⟩
  · rw [lines_of_word hw, lines_of_word hv, List.append_assoc, List.append_assoc] at h
    obtain ⟨hwv, hst⟩ := Text.append_cons_inj (isWord_of_word hw).line (isWord_of_word hv).line h
    obtain rfl := String.toList_inj.1 hwv
    exact ⟨words_inj (mem_words hw) (mem_words hv), hst⟩
  all_goals cases hd

theorem shownInLines_string (x : String) : ShownInLines (string x) := by
  intro e n s t he h hs ht
  rcases (NumberFree.string x).same_kind he h with ⟨w, v, hw, _⟩ | ⟨x, y, hx, rfl⟩ | ⟨_, _, _, _, hx, _⟩ |
    ⟨_, _, _, _, _, _, hx, _⟩
  · cases hw
  · cases hx
    obtain ⟨rfl, hst⟩ := lineEnded_write_append_inj h hs ht
    exact ⟨rfl, hst⟩
  · cases hx
  · cases hx

theorem itemLines_of_lines (n : Nat) (x : Document) (xs : List Document) :
    itemLines n false (x :: xs) = List.replicate n ' ' ++ lines n (array (x :: xs)) := rfl

theorem memberLines_of_lines (n : Nat) (p : String × Document) (ps : List (String × Document)) :
    memberLines n false (p :: ps) = List.replicate n ' ' ++ lines n (object (p :: ps)) := rfl

/-- An array shows where it ends if its items do. -/
theorem shownInLines_array {xs : List Document} (hxs : ∀ d ∈ xs, d.NumberFree) (hshown : ∀ d ∈ xs, ShownInLines d) :
    ShownInLines (array xs) := by
  cases xs with
  | nil => exact shownInLines_word (.array hxs) rfl
  | cons x xs =>
    intro e n s t he h hs ht
    rcases (NumberFree.array hxs).same_kind he h with ⟨w, v, hw, _⟩ | ⟨_, _, hx, _⟩ | ⟨x, xs, y, ys, hx, rfl⟩ |
      ⟨_, _, _, _, _, _, hx, _⟩
    · cases hw
    · cases hx
    · cases hx
      cases he with
      | array hys =>
        have hitems : itemLines n false (x :: xs) ++ s = itemLines n false (y :: ys) ++ t := by
          rw [itemLines_of_lines, itemLines_of_lines, List.append_assoc, List.append_assoc, h]
        obtain ⟨hxy, hst⟩ := itemLines_append_inj hshown hys hitems hs ht
        exact ⟨by rw [hxy], hst⟩
    · cases hx

/-- An object shows where it ends if the values of its members do. -/
theorem shownInLines_object {ps : List (String × Document)} (hps : ∀ p ∈ ps, p.2.NumberFree)
    (hshown : ∀ p ∈ ps, ShownInLines p.2) : ShownInLines (object ps) := by
  cases ps with
  | nil => exact shownInLines_word (.object hps) rfl
  | cons p ps =>
    intro e n s t he h hs ht
    rcases (NumberFree.object hps).same_kind he h with ⟨w, v, hw, _⟩ | ⟨_, _, hp, _⟩ | ⟨_, _, _, _, hp, _⟩ |
      ⟨key, d, ps, key', e', qs, hp, rfl⟩
    · cases hw
    · cases hp
    · cases hp
    · cases hp
      cases he with
      | object hqs =>
        have hmembers : memberLines n false ((key, d) :: ps) ++ s = memberLines n false ((key', e') :: qs) ++ t := by
          rw [memberLines_of_lines, memberLines_of_lines, List.append_assoc, List.append_assoc, h]
        obtain ⟨hpq, hst⟩ := memberLines_append_inj hshown hps hqs hmembers hs ht
        exact ⟨by rw [hpq], hst⟩

/-- **A document without numbers** shows where it ends. -/
theorem NumberFree.shownInLines (hd : d.NumberFree) : ShownInLines d := by
  induction hd with
  | null => exact shownInLines_word .null rfl
  | boolean b => exact shownInLines_word (.boolean b) rfl
  | string x => exact shownInLines_string x
  | array hxs ih => exact shownInLines_array hxs ih
  | object hps ih => exact shownInLines_object hps ih

/-! ## Texts -/

theorem toList_yaml (d : Document) : d.yaml.toList = lines (if d.isInline then 2 else 0) d := by
  rw [yaml, toList_freshLine, List.replicate_zero, List.append_nil]
  cases hd : d.isInline with
  | true =>
    obtain ⟨text, htext, _, hlines⟩ := exists_inlineYaml? hd 2
    simp only [htext, if_true, hlines]
  | false =>
    simp only [inlineYaml?_eq_none hd]
    rw [lineEnded_blockAfter _ _ d hd]
    rfl

/-- Documents without numbers are told apart by their texts. -/
theorem NumberFree.yaml_inj (hd : d.NumberFree) (he : e.NumberFree) (h : d.yaml = e.yaml) : d = e := by
  have happend := congrArg (·.toList ++ []) h
  simp only [toList_yaml] at happend
  have hinline : d.isInline = e.isInline := by
    rcases hd.same_kind he happend with ⟨w, v, hw, hv⟩ | ⟨x, y, rfl, rfl⟩ | ⟨x, xs, y, ys, rfl, rfl⟩ |
      ⟨key, d', ps, key', e', qs, rfl, rfl⟩
    · rw [isInline_of_word hw, isInline_of_word hv]
    all_goals rfl
  rw [hinline] at happend
  exact (hd.shownInLines he happend (ends_of_block (.inl rfl) d) (ends_of_block (.inl rfl) e)).1

end SearchFilter.Document
