import Mathlib
import SearchFilter.Proofs.Grammar.Enclosure
import SearchFilter.Proofs.Grammar.Written
import SearchFilter.Proofs.Parser.Nesting
import SearchFilter.Request

/-!
# Filters with several alternatives

Alternatives are put in parentheses and joined by `OR` as texts. Balanced ones are read one by one, whatever stands
beside them, and the whole is read as the disjunction of what they are read as.

* `Filter.anyOf` — the disjunction of filters.
* `ReadAs` — characters that are read to their end as a filter.
* `readAs_alternatives` — derived alternatives, joined, are read as the disjunction.
* `compile_of_derivation` — what is read can be compiled.
* `filterQuery_many` — several alternatives mean the same as their disjunction.
* `accepted_iff_balanced` — what a text that is read says about its alternatives.
-/

namespace SearchFilter

open Grammar (Statement full derivation)
open Text (Balanced NoStrayClose)

/-- The disjunction of filters, nested to the right. -/
def Filter.anyOf : Filter → List Filter → Filter
  | last, [] => last
  | first, next :: rest => .join .or first (anyOf next rest)

/-! ## The joined text -/

namespace Terms

/-- An alternative in parentheses, and the text behind it. -/
def wrapped (g : String) (t : List Char) : List Char := '(' :: (g.toList ++ ')' :: t)

/-- The alternatives behind the first one. -/
def behind : List String → List Char
  | [] => []
  | g :: gs => " OR ".toList ++ wrapped g (behind gs)

theorem toList_intercalate (g : String) (gs : List String) :
    (" OR ".intercalate ((g :: gs).map fun f => "(" ++ f ++ ")")).toList = wrapped g (behind gs) := by
  induction gs generalizing g with
  | nil => simp [wrapped, behind]
  | cons g' gs ih =>
    have h := ih g'
    rw [List.map_cons] at h
    rw [List.map_cons, List.map_cons, String.intercalate_cons_cons, String.toList_append, h]
    simp [wrapped, behind]

variable {fs gs : List String} {g : String}

theorem toFilter_eq (h : nonBlank fs = g :: gs) : (many fs).toFilter.toList = wrapped g (behind gs) := by
  rw [toFilter, h, toList_intercalate]

/-- Every alternative stands between parentheses. -/
theorem exists_wrapped (hg : g ∈ nonBlank fs) : ∃ pre t, (many fs).toFilter.toList = pre ++ wrapped g t := by
  have key (gs : List String) : ∀ (first : String), g ∈ first :: gs →
      ∃ pre t, wrapped first (behind gs) = pre ++ wrapped g t := by
    induction gs with
    | nil =>
      intro first h
      obtain rfl := List.mem_singleton.1 h
      exact ⟨[], [], rfl⟩
    | cons next gs ih =>
      intro first h
      rcases List.mem_cons.1 h with rfl | h
      · exact ⟨[], _, rfl⟩
      · obtain ⟨pre, t, he⟩ := ih next h
        exact ⟨'(' :: (first.toList ++ ')' :: (" OR ".toList ++ pre)), t, by simp [wrapped, behind] at he ⊢; exact he⟩
  obtain ⟨first, rest, hne⟩ := List.exists_cons_of_ne_nil (List.ne_nil_of_mem hg)
  rw [toFilter_eq hne]
  exact key rest first (hne ▸ hg)

end Terms

/-! ## Derivations of the joined text -/

/-- The text `g` is derived as `s`. -/
def Derives (g : String) (s : Statement) : Prop := (derivation g.toList).result = some s

/-- The characters `u` open a parenthesis and are read to their end as `f`, wherever they stand. -/
structure ReadAs (u : List Char) (f : Filter) : Prop where
  opens : u.head? = some '('
  exists_full : ∀ c : Cursor, c.rest = u → ∃ t d, (full c).result = some (t, d) ∧ d.rest = [] ∧ t.toFilter = f

section

variable {g text : String} {s : Statement} {f : Filter} {u : List Char}

/-- A derived text in parentheses. -/
theorem readAs_wrapped (hs : Derives g s) : ReadAs (Terms.wrapped g []) s.toFilter where
  opens := rfl
  exists_full c hc := by
    obtain ⟨d, hgroup, hd⟩ := Grammar.group_of_derivation hc hs
    have hclosed : d.Closed := .inl (by rw [Cursor.rest_pastSpaces, hd]; rfl)
    exact ⟨_, d, Grammar.full_of_closed (Grammar.expression_of_group hgroup) hclosed, hd, Statement.toFilter_shift _ s⟩

/-- A derived text in parentheses, and a connective in front of what is read already. -/
theorem ReadAs.join (h : ReadAs u f) (hs : Derives g s) (link : Connective) :
    ReadAs (Terms.wrapped g ([' '] ++ link.keyword.toList ++ [' '] ++ u)) (.join link s.toFilter f) where
  opens := rfl
  exists_full c hc := by
    obtain ⟨c₁, hgroup, hc₁⟩ := Grammar.group_of_derivation hc hs
    have hspans := Cursor.spans_advance hc₁
    have hc₂ : (c₁.advance ([' '] ++ link.keyword.toList ++ [' ']).length).rest = u :=
      List.append_cancel_left (hspans.rest_eq.symm.trans hc₁)
    have hlink := Grammar.connective_of_spans Grammar.isSpaces_one Grammar.isSpaces_one hspans
      (by rw [hc₂, h.opens]; nofun)
    obtain ⟨right, d, hright, hd, hfilter⟩ := h.exists_full _ hc₂
    refine ⟨_, d, Grammar.full_of_joined (Grammar.expression_of_group hgroup) hlink hright, hd, ?_⟩
    show Filter.join link ((s.shift _).toFilter) right.toFilter = _
    rw [Statement.toFilter_shift, hfilter]

/-- What is read to its end is a whole text. -/
theorem ReadAs.exists_derives (h : ReadAs text.toList f) : ∃ t, Derives text t ∧ t.toFilter = f := by
  have hstart : (Cursor.mk 0 text.toList).pastSpaces = ⟨0, text.toList⟩ := by
    apply Cursor.pastSpaces_of_head
    rw [h.opens]
    nofun
  obtain ⟨t, d, hfull, hd, hfilter⟩ := h.exists_full ⟨0, text.toList⟩ rfl
  refine ⟨t, Grammar.derivation_eq_some_iff.2 ⟨d, by rw [hstart]; exact hfull, ?_⟩, hfilter⟩
  rw [Cursor.rest_pastSpaces, hd]
  rfl

end

/-- **Derived alternatives**, put in parentheses and joined, are read as their disjunction. -/
theorem readAs_alternatives {gs : List String} {ss : List Statement} (hgs : List.Forall₂ Derives gs ss) :
    ∀ (g : String) (s : Statement), Derives g s →
      ReadAs (Terms.wrapped g (Terms.behind gs)) (Filter.anyOf s.toFilter (ss.map (·.toFilter))) := by
  induction hgs with
  | nil => exact fun g s hs => readAs_wrapped hs
  | @cons g' s' gs ss hs' hgs ih => exact fun g s hs => (ih g' s' hs').join hs .or

/-- Alternatives that are derived one by one make a text that is derived as their disjunction. -/
theorem derivation_of_alternatives {fs gs : List String} {g : String} {s : Statement} {ss : List Statement}
    (hfs : Terms.nonBlank fs = g :: gs) (hs : Derives g s) (hgs : List.Forall₂ Derives gs ss) :
    ∃ t, Derives (Terms.many fs).toFilter t ∧ t.toFilter = Filter.anyOf s.toFilter (ss.map (·.toFilter)) := by
  apply ReadAs.exists_derives
  rw [Terms.toFilter_eq hfs]
  exact readAs_alternatives hgs g s hs

/-! ## Compiling what was read -/

mutual

/-- Derivations compare with literals only, so that what they stand for can be compiled. -/
theorem compile_statement : ∀ s : Statement, ∃ q, s.toFilter.compile = .ok q
  | .join _ left link right => by
    obtain ⟨l, hl⟩ := compile_expression left
    obtain ⟨r, hr⟩ := compile_statement right
    exact ⟨link.combine l r, by rw [Statement.toFilter, Filter.compile_join, hl, hr]; rfl⟩
  | .not _ operand => by
    obtain ⟨q, hq⟩ := compile_statement operand
    exact ⟨q.map .negate, by rw [Statement.toFilter, Filter.compile_not, hq]; rfl⟩
  | .expression _ only => compile_expression only

theorem compile_expression : ∀ e : Grammar.Expression, ∃ q, e.toFilter.compile = .ok q
  | .comparison op field value => ⟨op.condition field value, Filter.compile_compare op field (.literal value)⟩
  | .group inner => compile_statement inner

end

theorem derives_of_parse {g : String} {f : Filter} (h : Filter.parse g = .ok f) :
    ∃ s, Derives g s ∧ s.Fits 1 ∧ s.toFilter = f :=
  parse_eq_ok_iff.1 h

/-- A derived text is read, unless it nests too deep. -/
theorem parse_of_derives {g : String} {s : Statement}
    (hn : ∀ e, Filter.parse g = .error e → e.problem ≠ .nestedTooDeep) (h : Derives g s) :
    Filter.parse g = .ok s.toFilter := by
  rcases parse_cases g with ⟨e, he, hp⟩ | ⟨_, _, _, hparse⟩
  · exact absurd hp (hn e he)
  · rw [h] at hparse
    exact hparse

/-- What was read can be compiled. -/
theorem exists_compile_of_parse {g : String} {f : Filter} (h : Filter.parse g = .ok f) : ∃ q, f.compile = .ok q := by
  obtain ⟨s, _, _, rfl⟩ := derives_of_parse h
  exact compile_statement s

theorem Query.ofFilter?_of_parse {g : String} {f : Filter} {q : Option Query} (h : Filter.parse g = .ok f)
    (hq : f.compile = .ok q) : Query.ofFilter? g = .ok q := by
  rw [Query.ofFilter?, h]
  simp only [hq]

/-! ## Several alternatives -/

section

variable {fs : List String} {g : String}

/-- A balanced alternative of a text that is read is read by itself. -/
theorem parse_of_alternative {t : Filter} (h : Filter.parse (Terms.many fs).toFilter = .ok t)
    (hg : g ∈ Terms.nonBlank fs) (hb : Balanced g.toList) :
    ∃ s, Derives g s ∧ Filter.parse g = .ok s.toFilter := by
  obtain ⟨s, hs, hfits, _⟩ := derives_of_parse h
  obtain ⟨pre, u, htext⟩ := Terms.exists_wrapped hg
  obtain ⟨s', hs', hfits'⟩ := Grammar.derivation_of_part hs hfits htext hb
  exact ⟨s', hs', parse_eq_ok_iff.2 ⟨s', hs', hfits'.of_succ, rfl⟩⟩

theorem exists_forall₂ {α β : Type} {R : α → β → Prop} {xs : List α} (h : ∀ x ∈ xs, ∃ y, R x y) :
    ∃ ys, List.Forall₂ R xs ys := by
  induction xs with
  | nil => exact ⟨[], .nil⟩
  | cons x xs ih =>
    obtain ⟨y, hy⟩ := h x (.head _)
    obtain ⟨ys, hys⟩ := ih fun x hx => h x (.tail _ hx)
    exact ⟨y :: ys, .cons hy hys⟩

/-- The text of balanced alternatives, if it is read, is read as the disjunction of what they are read as. -/
theorem parse_alternatives {gs : List String} {t : Filter} (h : Filter.parse (Terms.many fs).toFilter = .ok t)
    (hfs : Terms.nonBlank fs = g :: gs) (hb : ∀ x ∈ Terms.nonBlank fs, Balanced x.toList) :
    ∃ n ns, List.Forall₂ (fun x n => Filter.parse x = .ok n) (Terms.nonBlank fs) (n :: ns) ∧ t = Filter.anyOf n ns := by
  have hread : ∀ x ∈ Terms.nonBlank fs, ∃ s, Derives x s ∧ Filter.parse x = .ok s.toFilter := fun x hx =>
    parse_of_alternative h hx (hb x hx)
  rw [hfs] at hread ⊢
  obtain ⟨s, hs, hparse⟩ := hread g (.head _)
  obtain ⟨ss, hss⟩ := exists_forall₂ fun x hx => hread x (.tail _ hx)
  obtain ⟨u, hu, hfilter⟩ := derivation_of_alternatives hfs hs (hss.imp fun _ _ hx => hx.1)
  obtain ⟨v, hv, _, rfl⟩ := derives_of_parse h
  obtain rfl : u = v := Option.some.inj (hu.symm.trans hv)
  refine ⟨s.toFilter, ss.map (·.toFilter), .cons hparse ?_, hfilter⟩
  exact List.forall₂_map_right_iff.2 (hss.imp fun _ _ hx => hx.2)

/-- Alternatives that are read one by one make a text that is read, unless it nests too deep. -/
theorem exists_parse_of_alternatives
    (hn : ∀ e, Filter.parse (Terms.many fs).toFilter = .error e → e.problem ≠ .nestedTooDeep)
    (hne : Terms.nonBlank fs ≠ []) (h : ∀ x ∈ Terms.nonBlank fs, ∃ n, Filter.parse x = .ok n) :
    ∃ t, Filter.parse (Terms.many fs).toFilter = .ok t := by
  obtain ⟨first, gs, hfs⟩ := List.exists_cons_of_ne_nil hne
  have hderives : ∀ x ∈ Terms.nonBlank fs, ∃ s, Derives x s := fun x hx => by
    obtain ⟨n, hx⟩ := h x hx
    obtain ⟨s, hs, _⟩ := derives_of_parse hx
    exact ⟨s, hs⟩
  rw [hfs] at hderives
  obtain ⟨s, hs⟩ := hderives first (.head _)
  obtain ⟨ss, hss⟩ := exists_forall₂ fun x hx => hderives x (.tail _ hx)
  obtain ⟨u, hu, _⟩ := derivation_of_alternatives hfs hs hss
  exact ⟨_, parse_of_derives hn hu⟩

theorem trim_toFilter_ne (h : Terms.nonBlank fs ≠ []) : Text.trim (Terms.many fs).toFilter ≠ "" := by
  intro he
  obtain ⟨first, gs, hfs⟩ := List.exists_cons_of_ne_nil h
  have hopen : '(' ∈ (Terms.many fs).toFilter.toList := by
    rw [Terms.toFilter_eq hfs]
    exact .head _
  exact absurd (Text.trim_eq_empty_iff.1 he '(' hopen) (by decide)

/-- The query of several alternatives whose text is read is what that text compiles to. -/
theorem filterQuery_of_parse {t : Filter} (hne : Terms.nonBlank fs ≠ [])
    (h : Filter.parse (Terms.many fs).toFilter = .ok t) :
    ∃ q, t.compile = .ok q ∧ (Terms.many fs).filterQuery = .ok q := by
  obtain ⟨q, hq⟩ := exists_compile_of_parse h
  refine ⟨q, hq, ?_⟩
  rw [Terms.filterQuery, if_neg (trim_toFilter_ne hne), Query.ofFilter?_of_parse h hq]

/-- **Several alternatives** with balanced parentheses mean the same as their disjunction: unless they nest too deep
they are read together if and only if each of them is read by itself. -/
theorem filterQuery_many (fs : List String) (hb : ∀ f ∈ fs, Balanced f.toList) :
    (Terms.nonBlank fs = [] → (Terms.many fs).filterQuery = .ok none) ∧
    (Terms.nonBlank fs ≠ [] →
      (∀ e, Filter.parse (Terms.many fs).toFilter = .error e → e.problem ≠ .nestedTooDeep) →
      ((∃ t, Filter.parse (Terms.many fs).toFilter = .ok t) ↔ ∀ g ∈ Terms.nonBlank fs, ∃ n, Filter.parse g = .ok n) ∧
      ∀ t, Filter.parse (Terms.many fs).toFilter = .ok t →
        (∃ n ns, List.Forall₂ (fun g n => Filter.parse g = .ok n) (Terms.nonBlank fs) (n :: ns) ∧
          t = Filter.anyOf n ns) ∧
        ∃ q, t.compile = .ok q ∧ (Terms.many fs).filterQuery = .ok q) := by
  have hbalanced : ∀ g ∈ Terms.nonBlank fs, Balanced g.toList := by
    intro g hg
    obtain ⟨f, hf, rfl⟩ := List.mem_map.1 (List.mem_filter.1 hg).1
    rw [Text.trim, String.toList_ofList]
    exact Text.balanced_trimChars (hb f hf)
  refine ⟨fun hnil => ?_, fun hne hn => ⟨⟨?_, ?_⟩, fun t ht => ⟨?_, filterQuery_of_parse hne ht⟩⟩⟩
  · have hempty : (Terms.many fs).toFilter = "" := by
      rw [Terms.toFilter, hnil]
      rfl
    rw [Terms.filterQuery, hempty]
    rfl
  · rintro ⟨t, ht⟩ g hg
    obtain ⟨s, _, hparse⟩ := parse_of_alternative ht hg (hbalanced g hg)
    exact ⟨_, hparse⟩
  · exact exists_parse_of_alternatives hn hne
  · obtain ⟨first, gs, hfs⟩ := List.exists_cons_of_ne_nil hne
    exact parse_alternatives ht hfs hbalanced

/-- A balanced alternative of its own, one in a group and blank ones between them. -/
theorem filterQuery_many_group :
    ∃ n ns, List.Forall₂ (fun g n => Filter.parse g = .ok n) ["a:1", "(b:2 OR NOT c > 3)"] (n :: ns) ∧
      Filter.parse (Terms.many [" a:1 ", "", "(b:2 OR NOT c > 3)"]).toFilter = .ok (Filter.anyOf n ns) := by
  have hparse : Filter.parse (Terms.many [" a:1 ", "", "(b:2 OR NOT c > 3)"]).toFilter =
      .ok (.join .or (.compare .has "a" (.literal (.number 1))) (.join .or (.compare .has "b" (.literal (.number 2)))
        (.not (.compare .greater "c" (.literal (.number 3)))))) := by cbv
  have hn : ∀ e, Filter.parse (Terms.many [" a:1 ", "", "(b:2 OR NOT c > 3)"]).toFilter = .error e →
      e.problem ≠ .nestedTooDeep := by
    intro e he
    rw [hparse] at he
    cases he
  have hmany := (filterQuery_many [" a:1 ", "", "(b:2 OR NOT c > 3)"] (by decide)).2 (by decide) hn
  obtain ⟨⟨n, ns, hns, ht⟩, _⟩ := hmany.2 _ hparse
  exact ⟨n, ns, hns, ht ▸ hparse⟩

/-! ## Alternatives that are not balanced -/

/-- An alternative may close the parenthesis in front of it and open one for the parenthesis behind it. -/
theorem filterQuery_many_closing :
    (Terms.many ["a:1) OR (b:2"]).filterQuery = .ok (some (.group .or [.fieldEquals "a" "1", .fieldEquals "b" "2"])) ∧
    "a:1) OR (b:2" ∈ Terms.nonBlank ["a:1) OR (b:2"] ∧ ∀ n, Filter.parse "a:1) OR (b:2" ≠ .ok n := by
  refine ⟨by cbv, by decide, fun n hn => ?_⟩
  have herror : Filter.parse "a:1) OR (b:2" = .error (.locate (.unexpected [.endOfInput, .token .space])
    "a:1) OR (b:2".toList 3) := by cbv
  rw [herror] at hn
  cases hn

theorem count_behind_cons (g : String) (gs : List String) :
    (Terms.behind (g :: gs)).count '(' = g.toList.count '(' + (Terms.behind gs).count '(' + 1 ∧
      (Terms.behind (g :: gs)).count ')' = g.toList.count ')' + (Terms.behind gs).count ')' + 1 := by
  simp [Terms.behind, Terms.wrapped]
  omega

theorem count_behind_le {gs : List String} (h : ∀ x ∈ gs, NoStrayClose x.toList) :
    (Terms.behind gs).count ')' ≤ (Terms.behind gs).count '(' := by
  induction gs with
  | nil => exact Nat.le_refl _
  | cons g gs ih =>
    have hg := h g (.head _) g.toList (List.prefix_refl _)
    have hgs := ih fun x hx => h x (.tail _ hx)
    have hcount := count_behind_cons g gs
    omega

/-- Alternatives none of which closes more than it opened are balanced if they open and close equally many. -/
theorem balanced_of_count_behind {gs : List String} (h : ∀ x ∈ gs, NoStrayClose x.toList)
    (hcount : (Terms.behind gs).count '(' = (Terms.behind gs).count ')') : ∀ x ∈ gs, Balanced x.toList := by
  induction gs with
  | nil => exact fun x hx => nomatch hx
  | cons g gs ih =>
    have hg := h g (.head _) g.toList (List.prefix_refl _)
    have hgs := count_behind_le fun x hx => h x (.tail _ hx)
    have hcons := count_behind_cons g gs
    intro x hx
    rcases List.mem_cons.1 hx with rfl | hx
    · exact ⟨h x (.head _), by omega⟩
    · exact ih (fun x hx => h x (.tail _ hx)) (by omega) x hx

/-- No alternative of a derived text is left open if none closes more than it opened. -/
theorem balanced_of_noStrayClose {s : Statement} (hs : Derives (Terms.many fs).toFilter s)
    (h : ∀ x ∈ Terms.nonBlank fs, NoStrayClose x.toList) : ∀ x ∈ Terms.nonBlank fs, Balanced x.toList := by
  intro x hx
  obtain ⟨g, gs, hfs⟩ := List.exists_cons_of_ne_nil (List.ne_nil_of_mem hx)
  have hcount := (Grammar.balanced_of_derivation hs).count_eq
  rw [Terms.toFilter_eq hfs] at hcount
  rw [hfs] at h hx
  refine balanced_of_count_behind h ?_ x hx
  simpa [Terms.behind] using hcount

/-- The text of alternatives with a query is read. -/
theorem parse_of_filterQuery {q : Option Query} (h : (Terms.many fs).filterQuery = .ok q)
    (hne : Terms.nonBlank fs ≠ []) : ∃ t, Filter.parse (Terms.many fs).toFilter = .ok t := by
  rw [Terms.filterQuery, if_neg (trim_toFilter_ne hne), Query.ofFilter?] at h
  cases hp : Filter.parse (Terms.many fs).toFilter with
  | error e => rw [hp] at h; cases h
  | ok t => exact ⟨t, rfl⟩

/-- **Alternatives of a filter that has a query** are read by themselves if and only if they are balanced. If none
closes a parenthesis that it did not open all of them are, and their text is read as their disjunction. -/
theorem accepted_iff_balanced {fs : List String} {q : Option Query} (h : (Terms.many fs).filterQuery = .ok q) :
    (∀ g ∈ Terms.nonBlank fs, (∃ n, Filter.parse g = .ok n) ↔ Balanced g.toList) ∧
    ((∀ g ∈ Terms.nonBlank fs, NoStrayClose g.toList) → Terms.nonBlank fs ≠ [] →
      ∃ n ns, List.Forall₂ (fun g n => Filter.parse g = .ok n) (Terms.nonBlank fs) (n :: ns) ∧
        Filter.parse (Terms.many fs).toFilter = .ok (Filter.anyOf n ns)) := by
  constructor
  · intro g hg
    obtain ⟨t, ht⟩ := parse_of_filterQuery h (List.ne_nil_of_mem hg)
    constructor
    · rintro ⟨n, hn⟩
      obtain ⟨s, hs, _⟩ := derives_of_parse hn
      exact Grammar.balanced_of_derivation hs
    · intro hb
      obtain ⟨s, _, hparse⟩ := parse_of_alternative ht hg hb
      exact ⟨_, hparse⟩
  · intro hclose hne
    obtain ⟨t, ht⟩ := parse_of_filterQuery h hne
    obtain ⟨s, hs, _⟩ := derives_of_parse ht
    obtain ⟨g, gs, hfs⟩ := List.exists_cons_of_ne_nil hne
    obtain ⟨n, ns, hns, rfl⟩ := parse_alternatives ht hfs (balanced_of_noStrayClose hs hclose)
    exact ⟨n, ns, hns, ht⟩

/-- Beside an alternative that closes the parenthesis in front of it others are still read by themselves. -/
theorem accepted_iff_balanced_closing :
    (Terms.many ["a:1) OR (b:2", "c:3"]).filterQuery = .ok (some (.group .or [.fieldEquals "a" "1",
      .group .or [.fieldEquals "b" "2", .fieldEquals "c" "3"]])) ∧
    (∃ n, Filter.parse "c:3" = .ok n) ∧ (¬ ∃ n, Filter.parse "a:1) OR (b:2" = .ok n) ∧
    ∃ n ns, List.Forall₂ (fun g n => Filter.parse g = .ok n) ["c:3", "(d:4)"] (n :: ns) := by
  have hquery : (Terms.many ["a:1) OR (b:2", "c:3"]).filterQuery = .ok (some (.group .or [.fieldEquals "a" "1",
      .group .or [.fieldEquals "b" "2", .fieldEquals "c" "3"]])) := by cbv
  have hbalanced : (Terms.many ["c:3", "(d:4)"]).filterQuery = .ok (some (.group .or [.fieldEquals "c" "3",
      .fieldEquals "d" "4"])) := by cbv
  have hiff := (accepted_iff_balanced hquery).1
  refine ⟨hquery, (hiff "c:3" (by decide)).2 (by decide), fun hn => ?_, ?_⟩
  · exact absurd ((hiff "a:1) OR (b:2" (by decide)).1 hn) (by decide)
  · obtain ⟨n, ns, hns, _⟩ := (accepted_iff_balanced hbalanced).2 (by decide) (by decide)
    exact ⟨n, ns, hns⟩

end

end SearchFilter
