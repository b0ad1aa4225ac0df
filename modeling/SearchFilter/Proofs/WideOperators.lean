import SearchFilter.Proofs.Grammar.Extension
import SearchFilter.Proofs.Parser.Nesting

/-!
# Operators of two characters

Behind a field name `>=` and `<=` are tried before `>` and `<`, each with the value behind it. They are read as what
they are wherever a value follows. Where none does, the shorter operator is tried, and the `=` left over is a text
(`anyComparison_wide`); a statement that starts so can only be followed by spaces.

* `Filter.firstComparison` — the leftmost comparison of a filter.
* `parse_wide` — a text that starts with a field name and `>=` or `<=`.
-/

namespace SearchFilter

/-- The operator and the field of the leftmost comparison. -/
def Filter.firstComparison : Filter → Option (Operator × String)
  | join _ left _ => left.firstComparison
  | not operand => operand.firstComparison
  | compare op field _ => some (op, field)
  | literal _ => none

namespace Grammar

variable {c d p : Cursor} {w sp : List Char} {op : Operator} {s : Statement}

/-- Where no value follows no bare character does. -/
theorem stops_of_value (h : (value p.pastSpaces).result = none) : Stops isBareChar p.rest := by
  rw [result_value, Option.map_eq_none_iff] at h
  exact stops_of_pastSpaces (Token.stops_of_literal h)

theorem value_of_rest (h : p.rest = []) : (value p).result = none := by
  rw [result_value, h]
  rfl

/-- **An operator of two characters**, with the value behind it or, where there is none, its first character with the
second one for a value. -/
theorem anyComparison_wide (hop : op.IsStrict) (hw : IsField w) (hsp : ∀ x ∈ sp, x = ' ')
    (hs : c.Spans (w ++ (sp ++ op.wide.symbol.toList)) p) :
    (anyComparison c).result = match (value p.pastSpaces).result with
      | some (v, d) => some (.comparison op.wide (String.ofList w) v, d)
      | none => some (.comparison op (String.ofList w) (.text "="), p) := by
  have hwide : op.wide ≠ .has ∧ ¬ op.wide.IsStrict := by
    rcases hop with rfl | rfl
    all_goals exact ⟨by decide, by rintro (h | h) <;> cases h⟩
  have hne : op ≠ .has := by rcases hop with rfl | rfl <;> decide
  cases hv : (value p.pastSpaces).result with
  | some q =>
    obtain ⟨v, d⟩ := q
    exact anyComparison_of_compares hw (.operator hwide.1 hsp hs hv fun h => absurd h hwide.2)
  | none =>
    rw [Operator.symbol_wide hop, ← List.append_assoc, ← List.append_assoc, List.append_assoc w] at hs
    obtain ⟨q, hq, hequals⟩ := hs.exists_between
    have hhead : q.rest.head? = some '=' := by rw [hequals.rest_eq]; rfl
    have hpast : q.pastSpaces = q := Cursor.pastSpaces_of_head (by rw [hhead]; nofun)
    have hlit : Token.IsLiteral ['='] (.text "=") := .bare (by simp) (List.forall_mem_singleton.2 rfl) rfl rfl rfl
    have hvalue := value_of_isLiteral hlit hequals (stops_of_value hv)
    refine anyComparison_of_compares hw (.operator hne hsp hq (hpast.symm ▸ hvalue) fun _ _ => ?_)
    have hone : q.advance 1 = p := hequals.eq_advance
    rw [hone, hv]

/-- Without a value behind its first operator a statement is one comparison. -/
theorem full_wide (hop : op.IsStrict) (hw : IsField w) (hsp : ∀ x ∈ sp, x = ' ')
    (hs : c.Spans (w ++ (sp ++ op.wide.symbol.toList)) p) (h : (full c).result = some (s, d)) :
    s.toFilter.firstComparison = some (op.wide, String.ofList w) ∨
      s.toFilter = .compare op (String.ofList w) (.literal (.text "=")) ∧ d = p := by
  have hcomp := anyComparison_wide hop hw hsp hs
  rcases full_eq_some_iff.1 h with ⟨left, c₁, next, hleft, hnext, rfl⟩ | ⟨hnone, _⟩
  · cases hv : (value p.pastSpaces).result with
    | some q =>
      rw [hv] at hcomp
      obtain ⟨rfl, rfl⟩ := Prod.mk.inj (Option.some.inj ((expression_eq_some_iff.2 (.inl hcomp)).symm.trans hleft))
      left
      cases next <;> rfl
    | none =>
      rw [hv] at hcomp
      obtain ⟨rfl, rfl⟩ := Prod.mk.inj (Option.some.inj ((expression_eq_some_iff.2 (.inl hcomp)).symm.trans hleft))
      rcases continuation_eq_some_iff.1 hnext with ⟨link, right, c₂, hlink, _, _⟩ | ⟨_, rfl, rfl⟩
      · -- a keyword would have been the value
        obtain ⟨_, c₃, hkeyword, _⟩ := connective_eq_some_iff.1 hlink
        exact absurd hv (value_of_keyword hkeyword)
      · exact .inr ⟨rfl, rfl⟩
  · rw [expression_eq, Trial.result_orElse, hcomp] at hnone
    split at hnone <;> cases hnone

end Grammar

/-- **A text that starts with a field name and `>=` or `<=`**. If only spaces follow it is read all the same, as a
comparison by `>` or `<` with the text `=`. Otherwise, if it is read, its leftmost comparison is the one it starts with.
-/
theorem parse_wide {w sp t : String} {op : Operator} (hop : op.IsStrict) (hw : w ≠ "")
    (hfield : ∀ x ∈ w.toList, isFieldChar x = true) (hsp : ∀ x ∈ sp.toList, x = ' ') :
    ((∀ x ∈ t.toList, x = ' ') →
      Filter.parse (w ++ sp ++ op.wide.symbol ++ t) = .ok (.compare op w (.literal (.text "=")))) ∧
    ((∃ x ∈ t.toList, x ≠ ' ') → ∀ f, Filter.parse (w ++ sp ++ op.wide.symbol ++ t) = .ok f →
      f.firstComparison = some (op.wide, w)) := by
  have hword : Grammar.IsField w.toList := ⟨fun h => hw (String.toList_eq_nil_iff.1 h), hfield⟩
  let c : Cursor := ⟨0, (w ++ sp ++ op.wide.symbol ++ t).toList⟩
  obtain ⟨p, hs, hp⟩ : ∃ p, c.Spans (w.toList ++ (sp.toList ++ op.wide.symbol.toList)) p ∧ p.rest = t.toList :=
    ⟨⟨_, t.toList⟩, ⟨by simp [c], rfl⟩, rfl⟩
  have hstart : c.pastSpaces = c := by
    refine Cursor.pastSpaces_of_head ?_
    rw [hs.rest_eq, List.append_assoc]
    exact hword.head_ne_space _
  constructor
  · intro ht
    have hend : p.pastSpaces.rest = [] := by
      rw [Cursor.rest_pastSpaces, hp, List.dropWhile_eq_nil_iff]
      exact fun x hx => beq_iff_eq.2 (ht x hx)
    have hcomp := Grammar.anyComparison_wide hop hword hsp hs
    rw [Grammar.value_of_rest hend, String.ofList_toList] at hcomp
    have hfull := Grammar.full_of_closed (Grammar.expression_eq_some_iff.2 (.inl hcomp)) (.inl hend)
    refine parse_eq_ok_iff.2 ⟨_, Grammar.derivation_eq_some_iff.2 ⟨p, hstart.symm ▸ hfull, hend⟩, fun l hl => ?_, rfl⟩
    obtain rfl := List.mem_singleton.1 hl
    exact Nat.le_add_left 1 511
  · rintro ⟨x, hx, hxs⟩ f hf
    obtain ⟨s, hs', _, rfl⟩ := parse_eq_ok_iff.1 hf
    obtain ⟨d, hfull, hend⟩ := Grammar.derivation_eq_some_iff.1 hs'
    rcases Grammar.full_wide hop hword hsp hs (hstart ▸ hfull) with hfirst | ⟨_, rfl⟩
    · rwa [String.ofList_toList] at hfirst
    · exact absurd (Grammar.eq_space_of_rest hend x (hp ▸ hx)) hxs

/-- One text whose value is missing and one in whose value there is a keyword. -/
theorem parse_wide_missing_value :
    Filter.parse "a >=  " = .ok (.compare .greater "a" (.literal (.text "="))) ∧
    ∃ f, Filter.parse "NOT<= ANDes OR b>1" = .ok f ∧ f.firstComparison = some (.lessEq, "NOT") := by
  constructor
  · have hfield : ∀ x ∈ "a".toList, isFieldChar x = true := List.all_eq_true.1 (by decide)
    exact (@parse_wide "a" " " "  " .greater (.inl rfl) (by decide) hfield (by simp)).1 (by simp)
  · have hparse : Filter.parse "NOT<= ANDes OR b>1" = .ok (.join .or
        (.compare .lessEq "NOT" (.literal (.text "ANDes"))) (.compare .greater "b" (.literal (.number 1)))) := by cbv
    have hfield : ∀ x ∈ "NOT".toList, isFieldChar x = true := List.all_eq_true.1 (by decide)
    have hfirst := (@parse_wide "NOT" "" " ANDes OR b>1" .less (.inr rfl) (by decide) hfield (by simp)).2
      ⟨'A', by simp, by decide⟩ _ hparse
    exact ⟨_, hparse, hfirst⟩

/-- `>=` without a value is read as `>` with one, where `>` without a value is not read. -/
theorem parse_greaterEq_alone :
    (∃ f, Filter.parse "a>=" = .ok f ∧ f.firstComparison ≠ some (.greaterEq, "a")) ∧
    ∀ f, Filter.parse "a>" ≠ .ok f := by
  constructor
  · have hparse : Filter.parse "a>=" = .ok (.compare .greater "a" (.literal (.text "="))) := by cbv
    exact ⟨_, hparse, by decide⟩
  · intro f hf
    have hok : (Filter.parse "a>").isOk = false := by cbv
    rw [hf] at hok
    cases hok

end SearchFilter
