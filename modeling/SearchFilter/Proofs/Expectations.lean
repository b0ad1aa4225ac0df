import SearchFilter.Proofs.Grammar.Completion
import SearchFilter.Proofs.Parser.Nesting
import SearchFilter.Proofs.Parser.Openings

/-!
# What errors promise

An error says what could have stood at its place. It is true: what stands before the place can be followed by any of it
and by some more text, such that the whole is a filter, and the end of the input is said to be missing exactly where
what stands before is a filter (`parse_error_completable`). The text that is added may open one group more, so the text
must not nest as deep as the limit already; it cannot with fewer openings.

* `derivation_of_miss` — what a derivation misses at the furthest place can be put there.
* `derivation_iff_miss_end` — the end of the input is missing where a derivation ends.
-/

namespace SearchFilter

open Grammar (Miss Trial Statement spaced derivation full)
open Text (openings)

variable {text u v : List Char} {s : Statement} {m : Miss}

/-! ## Derivations -/

namespace Grammar

/-- What a text is derived as, and what that misses. -/
theorem derivation_eq_some_iff_spaced :
    (derivation text).result = some s ↔ ∃ d, (spaced ⟨0, text⟩).result = some (s, d) ∧ d.rest = [] := by
  rw [derivation_eq, Trial.bind_eq_some_iff]
  constructor
  · rintro ⟨⟨s', d⟩, hd, h⟩
    split at h
    · next he =>
      cases h
      exact ⟨d, hd, List.isEmpty_iff.1 he⟩
    · cases h
  · rintro ⟨d, hd, he⟩
    exact ⟨(s, d), hd, by simp [he]⟩

theorem mem_misses_derivation : m ∈ (derivation text).misses ↔ m ∈ (spaced ⟨0, text⟩).misses ∨
    ∃ s d, (spaced ⟨0, text⟩).result = some (s, d) ∧ d.rest ≠ [] ∧ m = ⟨d.index, .endOfInput⟩ := by
  rw [derivation_eq]
  constructor
  · intro h
    refine (Trial.mem_misses_bind h).imp_right fun ⟨⟨s, d⟩, hd, h⟩ => ⟨s, d, hd, ?_⟩
    simp only at h
    split at h
    · cases h
    · next he => exact ⟨fun hnil => he (List.isEmpty_iff.2 hnil), List.mem_singleton.1 h⟩
  · rintro (h | ⟨s, d, hd, hne, rfl⟩)
    · exact Trial.mem_misses_bind_left h
    · refine Trial.mem_misses_bind_right hd ?_
      simp only
      rw [if_neg fun he => hne (List.isEmpty_iff.1 he)]
      exact List.mem_singleton_self _

theorem endsAt_length (u : List Char) : (Cursor.mk 0 u).EndsAt u.length := Nat.zero_add _

section

variable (hw : (derivation (u ++ v)).Within u.length)

include hw

/-- Nothing is missing behind `u`: it is read as it is by itself. -/
theorem spaced_append : (spaced ⟨0, u ++ v⟩).result = (spaced ⟨0, u⟩).result.map (extendPlace v) ∧
    (spaced ⟨0, u ++ v⟩).misses = (spaced ⟨0, u⟩).misses := by
  have hext : (Cursor.mk 0 u).extend v = ⟨0, u ++ v⟩ := rfl
  rw [← hext]
  refine spaced_extend (endsAt_length u) fun m hm => ?_
  rw [hext] at hm
  exact hw m (mem_misses_derivation.2 (.inl hm))

/-- **What is missing behind `u`** can be put there: with some more text, which opens at most one group, it is derived.
-/
theorem derivation_of_miss (hm : m ∈ (derivation (u ++ v)).misses) (hi : m.index = u.length)
    (he : m.expectation ≠ .endOfInput) : ∃ s t, m.expectation.Allows s ∧ Text.Mild (s ++ t) ∧
      ∃ r, (derivation (u ++ (s ++ t))).result = some r := by
  have hmem : m ∈ (spaced ⟨0, u⟩).misses := by
    rw [← (spaced_append hw).2]
    refine (mem_misses_derivation.1 hm).resolve_right fun ⟨_, _, _, _, h⟩ => he ?_
    rw [h]
  obtain ⟨s, t, hallows, hmild, hread⟩ := completable_spaced (endsAt_length u) hmem hi
  refine ⟨s, t, hallows, hmild, ?_⟩
  obtain ⟨r, d, hr, hd⟩ := hread [] ends_nil
  rw [List.append_nil] at hr
  obtain ⟨e, _, rfl⟩ := spaced_eq_some_iff.1 hr
  rw [Cursor.pastSpaces_pastSpaces] at hd
  exact ⟨r, derivation_eq_some_iff_spaced.2 ⟨_, hr, hd⟩⟩

/-- **The end of the input** is missing behind `u` exactly if `u` is derived and the whole text is not. -/
theorem derivation_iff_miss_end (hnone : (derivation (u ++ v)).result = none) :
    (⟨u.length, .endOfInput⟩ : Miss) ∈ (derivation (u ++ v)).misses ↔ ∃ r, (derivation u).result = some r := by
  obtain ⟨hres, hmiss⟩ := spaced_append hw
  rw [mem_misses_derivation]
  constructor
  · rintro (h | ⟨r, d, hd, _, h⟩)
    · rw [hmiss] at h
      obtain ⟨s, _, hallows, _⟩ := completable_spaced (endsAt_length u) h rfl
      exact hallows.elim
    · obtain ⟨⟨s, e⟩, he, hp⟩ := Option.map_eq_some_iff.1 (hres.symm.trans hd)
      obtain ⟨rfl, rfl⟩ : s = r ∧ e.extend v = d := Prod.mk.inj hp
      have hends := endsAt_spaced (endsAt_length u) he
      have hindex : u.length = e.index := congrArg Miss.index h
      exact ⟨s, derivation_eq_some_iff_spaced.2 ⟨e, he, rest_eq_nil hends hindex.symm⟩⟩
  · rintro ⟨r, hr⟩
    obtain ⟨d, hd, he⟩ := derivation_eq_some_iff_spaced.1 hr
    have hends := endsAt_spaced (endsAt_length u) hd
    have hext : (spaced ⟨0, u ++ v⟩).result = some (r, d.extend v) := by
      rw [hres, hd]
      rfl
    refine .inr ⟨r, _, hext, fun hnil => ?_, ?_⟩
    · rw [derivation_eq_some_iff_spaced.2 ⟨_, hext, hnil⟩] at hnone
      cases hnone
    · unfold Cursor.EndsAt at hends
      rw [he] at hends
      rw [← hends]
      rfl

end

end Grammar

/-! ## Texts -/

theorem fits_of_derivation (h : (derivation text).result = some s) (ho : openings text < nestingLimit) : s.Fits 1 := by
  obtain ⟨d, hs, _⟩ := Grammar.derivation_eq_some_iff.1 h
  intro l hl
  have hlevel := Grammar.levels_le_openings hs l hl
  have hle := Grammar.openings_pastSpaces ⟨0, text⟩
  have hopen : openings (Cursor.mk 0 text).rest = openings text := rfl
  omega

/-- With few openings what is derived is read. -/
theorem exists_parse_iff {text : String} (ho : openings text.toList < nestingLimit) :
    (∃ f, Filter.parse text = .ok f) ↔ ∃ s, (derivation text.toList).result = some s := by
  constructor
  · rintro ⟨f, hf⟩
    obtain ⟨s, hs, _⟩ := parse_eq_ok_iff.1 hf
    exact ⟨s, hs⟩
  · rintro ⟨s, hs⟩
    exact ⟨s.toFilter, parse_eq_ok_iff.2 ⟨s, hs, fits_of_derivation hs ho, rfl⟩⟩

/-- **Errors say what could have stood at their place**: whatever is expected there, some text of that kind and some
more text make a filter with what stands before, and the end of the input is expected exactly if what stands before is a
filter. -/
theorem parse_error_completable {text : String} {e : SyntaxError} (h : Filter.parse text = .error e)
    (ho : openings text.toList ≤ 510) :
    ∃ before after : String, text = before ++ after ∧ before.utf8ByteSize = e.start.offset ∧
      (∀ x ∈ e.expected, x ≠ .endOfInput →
        ∃ s t : String, x.Allows s.toList ∧ ∃ f, Filter.parse (before ++ s ++ t) = .ok f) ∧
      (.endOfInput ∈ e.expected ↔ ∃ f, Filter.parse before = .ok f) := by
  have hlimit : nestingLimit = 512 := rfl
  obtain ⟨hnone, k, hk, hstart, hw, hmem, _⟩ := exists_furthest h (problem_of_openings h (by omega))
  generalize hu : text.toList.take k = u at hstart
  generalize hv : text.toList.drop k = v
  have hlen : u.length = k := by rw [← hu, List.length_take_of_le hk]
  have htext : text.toList = u ++ v := by rw [← hu, ← hv, List.take_append_drop]
  rw [htext] at hnone hw hmem ho
  rw [← hlen] at hw hmem
  have hopen := Text.openings_le_append_left u v
  refine ⟨String.ofList u, String.ofList v, ?_, ?_, fun x hx hne => ?_, ?_⟩
  · rw [← String.ofList_append, ← htext, String.ofList_toList]
  · rw [hstart, Position.offset_after]
  · obtain ⟨s, t, hallows, hmild, hread⟩ := Grammar.derivation_of_miss hw ((hmem x).1 hx) rfl hne
    have hle := hmild u
    refine ⟨String.ofList s, String.ofList t, by rwa [String.toList_ofList], ?_⟩
    have hlist : (String.ofList u ++ String.ofList s ++ String.ofList t).toList = u ++ (s ++ t) := by simp
    rw [exists_parse_iff (by rw [hlist]; omega), hlist]
    exact hread
  · rw [hmem, exists_parse_iff (by rw [String.toList_ofList]; omega), String.toList_ofList]
    exact Grammar.derivation_iff_miss_end hw hnone

/-- Where a group is open, it can be closed, and the text cannot end. -/
theorem parse_error_completable_open_group :
    Filter.parse "NOT (a>2 b" = .error (.locate
      (.unexpected [.literal ")", .literal "AND", .literal "OR", .token .space]) "NOT (a>2 b".toList 9) ∧
    openings "NOT (a>2 b".toList ≤ 510 ∧
    ∃ before after : String, "NOT (a>2 b" = before ++ after ∧ before.utf8ByteSize = 9 ∧
      (∃ t f, Filter.parse (before ++ ")" ++ t) = .ok f) ∧ ¬ ∃ f, Filter.parse before = .ok f := by
  have hparse : Filter.parse "NOT (a>2 b" = .error (.locate
      (.unexpected [.literal ")", .literal "AND", .literal "OR", .token .space]) "NOT (a>2 b".toList 9) := by cbv
  have ho : openings "NOT (a>2 b".toList ≤ 510 := by decide
  obtain ⟨before, after, htext, hsize, hexpected, hend⟩ := parse_error_completable hparse ho
  obtain ⟨s, t, hs, f, hf⟩ := hexpected (.literal ")") (by decide) (by decide)
  obtain rfl : s = ")" := String.toList_inj.1 hs
  exact ⟨hparse, ho, before, after, htext, hsize, ⟨t, f, hf⟩, fun hbefore => absurd (hend.2 hbefore) (by decide)⟩

end SearchFilter
