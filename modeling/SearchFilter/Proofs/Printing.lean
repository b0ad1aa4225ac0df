import SearchFilter.Filter.Printer
import SearchFilter.Proofs.Grammar.Enclosure
import SearchFilter.Proofs.Grammar.Written
import SearchFilter.Proofs.Parser.Nesting

/-!
# Printed filters are read back

* `wellFormed_of_full` — whatever is derived stands for a well-formed filter.
* `full_of_print` — a printed filter is derived as itself wherever a statement may end behind it, and nests as deep as
  `Filter.nesting` says.
* `parse_print` — what is read is well-formed, and well-formed filters are read back.
-/

namespace SearchFilter

open Grammar (full derivation Statement)

/-! ## What is read is well-formed -/

/-- A written literal can be printed. -/
theorem Literal.wellFormed_of_isLiteral {y : List Char} {v : Literal} (h : Token.IsLiteral y v) : v.WellFormed := by
  cases h with
  | number _ _ hle =>
    have hlt : Nat.ofDigitChars 10 y 0 < 2 ^ 63 := Nat.lt_of_le_of_lt hle (by decide)
    show 0 ≤ (Int64.ofNat _).toInt
    rw [Int64.toInt_ofNat_of_lt hlt]
    exact Int.natCast_nonneg _
  | boolean | null => trivial
  | quoted _ hw =>
    intro x hx
    rw [String.toList_ofList] at hx
    exact hw x hx
  | bare _ hw =>
    intro x hx
    rw [String.toList_ofList] at hx
    exact hw x hx

namespace Grammar

variable {c d p : Cursor} {s : Statement} {e : Expression} {op : Operator} {field : String} {v : Literal}
  {w : List Char}

theorem Compares.exists_value (h : Compares c w op v d) : ∃ p, (value p).result = some (v, d) := by
  cases h with
  | colon _ hv => exact ⟨_, hv⟩
  | operator _ _ _ hv => exact ⟨_, hv⟩

theorem wellFormed_of_anyComparison (h : (anyComparison c).result = some (e, d)) : e.toFilter.WellFormed := by
  obtain ⟨w, op, v, hw, hc, rfl⟩ := anyComparison_eq_some_iff.1 h
  obtain ⟨p, hv⟩ := hc.exists_value
  obtain ⟨y, _, hy⟩ := isLiteral_of_value hv
  refine .compare op ?_ ?_ (Literal.wellFormed_of_isLiteral hy)
  · exact fun he => hw.ne_nil (String.ofList_eq_empty_iff.1 he)
  · intro x hx
    rw [String.toList_ofList] at hx
    exact hw.forall_mem x hx

/-- **Whatever is derived** stands for a well-formed filter. -/
theorem wellFormed_of_full {s : Statement} (h : (full c).result = some (s, d)) : s.toFilter.WellFormed := by
  induction c using Cursor.induction_rest generalizing s d with
  | _ c ih =>
  rcases full_eq_some_iff.1 h with ⟨left, c₁, next, hleft, hnext, rfl⟩ | ⟨_, hneg⟩
  · have hwf : left.toFilter.WellFormed := by
      rcases expression_eq_some_iff.1 hleft with hcomp | ⟨_, inner, hgroup, rfl⟩
      · exact wellFormed_of_anyComparison hcomp
      · obtain ⟨ho, e, hinner, _, _⟩ := group_eq_some_iff.1 hgroup
        have hlt := (spans_literal (literal_open_eq_some_iff.2 ⟨ho, rfl⟩)).length_lt (by decide)
        have hle := length_pastSpaces_le (c.advance 1)
        exact ih _ (by omega) hinner
    have hr₁ := reads_expression reads_full hleft
    rcases continuation_eq_some_iff.1 hnext with ⟨link, right, c₂, hlink, hright, rfl⟩ | ⟨_, rfl, rfl⟩
    · exact .join link hwf (ih c₂ (hr₁.trans (readsPlain_connective hlink).reads).length_lt hright)
    · exact hwf
  · obtain ⟨c₁, c₂, operand, h₁, h₂, hr, rfl⟩ := negated_eq_some_iff.1 hneg
    have hlt₁ := (spans_literal h₁).length_lt (by decide)
    have hlt₂ := (readsPlain_someSpaces h₂).reads.length_lt
    exact .not (ih c₂ (by omega) hr)

end Grammar

theorem wellFormed_of_parse {text : String} {f : Filter} (h : Filter.parse text = .ok f) : f.WellFormed := by
  obtain ⟨s, hs, _, rfl⟩ := parse_eq_ok_iff.1 h
  obtain ⟨d, hfull, _⟩ := Grammar.derivation_eq_some_iff.1 hs
  exact Grammar.wellFormed_of_full hfull

/-! ## Literals and comparisons that are printed -/

/-- Digits are read back as the number they were printed for. -/
theorem isLiteral_toString {n : Int64} (h : 0 ≤ n.toInt) : Token.IsLiteral (toString n.toInt).toList (.number n) := by
  obtain ⟨k, hk⟩ := Int.eq_ofNat_of_zero_le h
  have hlt : k < 2 ^ 63 := by
    have := n.toInt_lt
    omega
  have hn : Int64.ofNat k = n := by
    apply Int64.toInt_inj.1
    rw [Int64.toInt_ofNat_of_lt hlt, hk]
  have hdigits : (toString n.toInt).toList = Nat.toDigits 10 k := by
    rw [hk]
    exact Nat.toList_repr
  have hvalue : Nat.ofDigitChars 10 (Nat.toDigits 10 k) 0 = k := Nat.ofDigitChars_ten_toDigits
  have hle : Nat.ofDigitChars 10 (Nat.toDigits 10 k) 0 ≤ Token.maxNumber := by
    rw [hvalue]
    exact Nat.le_of_lt_succ hlt
  have hdigit : ∀ x ∈ Nat.toDigits 10 k, x.isDigit = true := fun x hx =>
    Nat.isDigit_of_mem_toDigits (b := 10) (by decide) (by decide) hx
  have hlit := Token.IsLiteral.number Nat.toDigits_ne_nil hdigit hle
  rw [hdigits]
  rwa [hvalue, hn] at hlit

theorem Literal.isLiteral_print {v : Literal} (h : v.WellFormed) : Token.IsLiteral v.print.toList v := by
  cases v with
  | text s =>
    have hs : (Literal.text s).print.toList = '\x22' :: (s.toList ++ ['\x22']) := by simp [Literal.print]
    have hlit := Token.IsLiteral.quoted (.inl rfl) h
    rw [String.ofList_toList] at hlit
    rwa [hs]
  | number n => exact isLiteral_toString h
  | boolean b =>
    have hb := Token.IsLiteral.boolean b
    cases b <;> exact hb
  | null => exact .null

namespace Grammar

variable {c d : Cursor} {op : Operator} {field : String} {v : Literal}

/-- Behind a place where a statement may end no word or text goes on. -/
theorem stops_of_closed (h : d.Closed) : Stops isBareChar d.rest := by
  refine stops_of_pastSpaces fun x hx => ?_
  rcases h with h | h
  · rw [h] at hx
    cases hx
  · obtain rfl : ')' = x := by rw [h] at hx; simpa using hx
    rfl

/-- A printed comparison is read in front of anything that cannot go on with its value. -/
theorem anyComparison_of_print (hne : field ≠ "") (hfield : ∀ x ∈ field.toList, isFieldChar x) (hv : v.WellFormed)
    (hs : c.Spans (Filter.compare op field (.literal v)).print.toList d) (hd : Stops isBareChar d.rest) :
    (anyComparison c).result = some (.comparison op field v, d) := by
  have hw : IsField field.toList := ⟨fun he => hne (String.toList_eq_nil_iff.1 he), hfield⟩
  have hlit := Literal.isLiteral_print hv
  suffices hc : Compares c field.toList op v d by
    have h := anyComparison_of_compares hw hc
    rwa [String.ofList_toList] at h
  by_cases hop : op = .has
  · subst hop
    have htext : (Filter.compare .has field (.literal v)).print.toList =
        field.toList ++ ":".toList ++ v.print.toList := by
      simp [Filter.print, Operator.symbol]
    exact compares_of_colon hlit (htext ▸ hs) hd
  · have htext : (Filter.compare op field (.literal v)).print.toList =
        field.toList ++ (" ".toList ++ op.symbol.toList) ++ (" ".toList ++ v.print.toList) := by
      simp [Filter.print, hop]
    have hspace : ∀ x ∈ " ".toList, x = ' ' := by simp
    exact compares_of_operator hop hspace hspace hlit (by simp) (htext ▸ hs) hd

end Grammar

/-! ## Filters that are printed -/

/-- No printed filter starts with a space. -/
theorem Filter.WellFormed.head_ne_space {f : Filter} (h : f.WellFormed) (t : List Char) :
    (f.print.toList ++ t).head? ≠ some ' ' := by
  induction h generalizing t with
  | @join left right link hl _ ihl _ =>
    cases hc : left.isComparison with
    | true =>
      have htext := ihl (" ".toList ++ link.keyword.toList ++ " ".toList ++ right.print.toList ++ t)
      simpa [Filter.print, hc] using htext
    | false => simp [Filter.print, hc]
  | not _ _ => simp [Filter.print]
  | @compare op field v hne hfield _ =>
    have hw : Grammar.IsField field.toList := ⟨fun he => hne (String.toList_eq_nil_iff.1 he), hfield⟩
    rw [Filter.print, String.toList_append, String.toList_append, List.append_assoc, List.append_assoc]
    exact hw.head_ne_space _

namespace Grammar

variable {c d : Cursor}

/-- At level `level` the text between `c` and `d` is derived as the filter, nested as deep as it says. -/
def DerivesAs (c d : Cursor) (f : Filter) : Prop := ∃ s, (full c).result = some (s, d) ∧ s.toFilter = f ∧
  ∀ level, ∀ l ∈ s.levels level, l.1 ≤ level + f.nesting

/-- The left side of a connective: a comparison as it is, anything else in parentheses. -/
theorem expression_of_left {left : Filter} (hwf : left.WellFormed)
    (hi : ∀ c d : Cursor, c.Spans left.print.toList d → d.Closed → DerivesAs c d left)
    (hs : c.Spans (if left.isComparison then left.print else "(" ++ left.print ++ ")").toList d)
    (hd : d.rest.head? = some ' ') : ∃ e, (expression full c).result = some (e, d) ∧ e.toFilter = left ∧
      ∀ level, ∀ l ∈ e.levels level, l.1 ≤ level + if left.isComparison then 0 else left.nesting + 1 := by
  cases hc : left.isComparison with
  | true =>
    cases hwf with
    | join | not => cases hc
    | compare op hne hfield hv =>
      have hstop : Stops isBareChar d.rest := by
        obtain ⟨r, hr⟩ := List.head?_eq_some_iff.1 hd
        exact hr ▸ stops_cons.2 (by decide)
      have hread := anyComparison_of_print hne hfield hv hs hstop
      exact ⟨_, expression_eq_some_iff.2 (.inl hread), rfl, nofun⟩
  | false =>
    have htext : c.Spans ("(".toList ++ left.print.toList ++ ")".toList) d := by simpa [hc] using hs
    obtain ⟨q, hq, hclose⟩ := htext.exists_between
    obtain ⟨p, hopen, hinner⟩ := hq.exists_between
    have hpast : q.pastSpaces = q := Cursor.pastSpaces_of_head (by rw [hclose.rest_eq]; nofun)
    have hclosed : q.Closed := .inr (by rw [hpast, hclose.rest_eq]; rfl)
    obtain ⟨s, hread, hfilter, hlevels⟩ := hi p q hinner hclosed
    have hopen : c.Spans ('(' :: []) p := hopen
    have hgroup := group_of_spans (by simp) hopen (hinner.rest_eq ▸ hwf.head_ne_space q.rest) hread
      (by rw [hpast, hclose.rest_eq]; rfl)
    have hend : q.pastSpaces.advance 1 = d := by
      rw [hpast]
      exact hclose.eq_advance
    refine ⟨_, expression_of_group (hend ▸ hgroup), hfilter, fun level l hl => ?_⟩
    have hle := hlevels (level + 1) l hl
    show l.1 ≤ level + (left.nesting + 1)
    omega

/-- **A printed filter** is derived as itself wherever a statement may end behind it. -/
theorem derivesAs_of_print {f : Filter} (h : f.WellFormed) :
    ∀ c d : Cursor, c.Spans f.print.toList d → d.Closed → DerivesAs c d f := by
  induction h with
  | @join left right link hleft hright ihl ihr =>
    intro c d hs hd
    have htext : (Filter.join link left right).print.toList =
        (if left.isComparison then left.print else "(" ++ left.print ++ ")").toList ++
          (" ".toList ++ link.keyword.toList ++ " ".toList ++ right.print.toList) := by
      simp [Filter.print]
    obtain ⟨c₁, hs₁, hrest⟩ := (htext ▸ hs).exists_between
    obtain ⟨c₂, hs₂, hs₃⟩ := hrest.exists_between
    obtain ⟨e, he, hfilter, hlevels⟩ := expression_of_left hleft ihl hs₁ (by rw [hs₂.rest_eq]; rfl)
    obtain ⟨s, hread, hfilter', hlevels'⟩ := ihr c₂ d hs₃ hd
    have hlink := connective_of_spans isSpaces_one isSpaces_one hs₂ (hs₃.rest_eq ▸ hright.head_ne_space d.rest)
    refine ⟨_, full_of_joined he hlink hread, by rw [Statement.toFilter, hfilter, hfilter'], fun level l hl => ?_⟩
    rw [Statement.levels, List.cons_append, List.mem_cons, List.mem_append] at hl
    rw [Filter.nesting]
    rcases hl with rfl | hl | hl
    · exact Nat.le_add_right _ _
    · have := hlevels level l hl
      omega
    · have := hlevels' level l hl
      omega
  | @not operand hoperand ih =>
    intro c d hs hd
    have htext : (Filter.not operand).print.toList = "NOT".toList ++ " ".toList ++ operand.print.toList := by
      simp [Filter.print]
    obtain ⟨p, hp, hs'⟩ := (htext ▸ hs).exists_between
    obtain ⟨s, hread, hfilter, hlevels⟩ := ih p d hs' hd
    have hneg := negated_of_spans isSpaces_one hp (hs'.rest_eq ▸ hoperand.head_ne_space d.rest) hread
    refine ⟨_, full_of_negated hneg, by rw [Statement.toFilter, hfilter], fun level l hl => ?_⟩
    rw [Statement.levels, List.mem_cons] at hl
    rw [Filter.nesting]
    rcases hl with rfl | hl
    · exact Nat.le_add_right _ _
    · have := hlevels (level + 1) l hl
      omega
  | compare op hne hfield hv =>
    intro c d hs hd
    have hread := anyComparison_of_print hne hfield hv hs (stops_of_closed hd)
    refine ⟨_, full_of_closed (expression_eq_some_iff.2 (.inl hread)) hd, rfl, fun level l hl => ?_⟩
    obtain rfl := List.mem_singleton.1 hl
    exact Nat.le_add_right _ _

end Grammar

/-! ## Round trip -/

/-- **What is read and what is printed.** Whatever is read is well-formed, and every well-formed filter that nests its
statements within the limit is read back from its text. -/
theorem parse_print :
    (∀ text f, Filter.parse text = .ok f → f.WellFormed) ∧
    ∀ f : Filter, f.WellFormed → f.nesting ≤ 511 → Filter.parse f.print = .ok f := by
  refine ⟨fun text f h => wellFormed_of_parse h, fun f hwf hn => ?_⟩
  let c : Cursor := ⟨0, f.print.toList⟩
  let d : Cursor := ⟨f.print.toList.length, []⟩
  have hs : c.Spans f.print.toList d := ⟨(List.append_nil _).symm, (Nat.zero_add _).symm⟩
  obtain ⟨s, hread, hfilter, hlevels⟩ := Grammar.derivesAs_of_print hwf c d hs (.inl rfl)
  have hstart : c.pastSpaces = c := Cursor.pastSpaces_of_head (hs.rest_eq ▸ hwf.head_ne_space [])
  refine parse_eq_ok_iff.2 ⟨s, Grammar.derivation_eq_some_iff.2 ⟨d, hstart.symm ▸ hread, rfl⟩, fun l hl => ?_, hfilter⟩
  have := hlevels 1 l hl
  show l.1 ≤ 512
  omega

/-- Fields named like keywords, a text without characters and a negation that takes what follows it. -/
theorem parse_print_keywords :
    (∃ f, Filter.parse "NOT:'' OR NOT b<3" = .ok f ∧ f.WellFormed) ∧
    Filter.parse "(NOT:\"\" AND b >= 3) OR NOT OR = null AND c < true" =
      .ok (.join .or
        (.join .and (.compare .has "NOT" (.literal (.text ""))) (.compare .greaterEq "b" (.literal (.number 3))))
        (.not (.join .and (.compare .equals "OR" (.literal .null))
          (.compare .less "c" (.literal (.boolean true)))))) := by
  constructor
  · have hparse : Filter.parse "NOT:'' OR NOT b<3" = .ok (.join .or (.compare .has "NOT" (.literal (.text "")))
        (.not (.compare .less "b" (.literal (.number 3))))) := by cbv
    exact ⟨_, hparse, parse_print.1 _ _ hparse⟩
  · have hfield (w : String) (h : w ∈ ["NOT", "OR", "b", "c"]) : w ≠ "" ∧ ∀ x ∈ w.toList, isFieldChar x = true := by
      have hall : ∀ w ∈ ["NOT", "OR", "b", "c"], w ≠ "" ∧ w.toList.all isFieldChar = true := by decide
      exact ⟨(hall w h).1, List.all_eq_true.1 (hall w h).2⟩
    have hcompare (op : Operator) (w : String) (v : Literal) (h : w ∈ ["NOT", "OR", "b", "c"]) (hv : v.WellFormed) :
        (Filter.compare op w (.literal v)).WellFormed := .compare op (hfield w h).1 (hfield w h).2 hv
    have hempty := hcompare .has "NOT" (.text "") (by decide) fun _ h => absurd h List.not_mem_nil
    have hnumber := hcompare .greaterEq "b" (.number 3) (by decide) (show (0 : Int) ≤ 3 by decide)
    have hnull := hcompare .equals "OR" .null (by decide) trivial
    have hboolean := hcompare .less "c" (.boolean true) (by decide) trivial
    have hwf := Filter.WellFormed.join .or (.join .and hempty hnumber) (.not (.join .and hnull hboolean))
    have hprint := parse_print.2 _ hwf (by decide)
    have htext : (Filter.join .or (.join .and (.compare .has "NOT" (.literal (.text "")))
        (.compare .greaterEq "b" (.literal (.number 3)))) (.not (.join .and (.compare .equals "OR" (.literal .null))
          (.compare .less "c" (.literal (.boolean true)))))).print =
        "(NOT:\"\" AND b >= 3) OR NOT OR = null AND c < true" := by decide
    rwa [htext] at hprint

end SearchFilter
