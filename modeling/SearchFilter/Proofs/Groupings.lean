import SearchFilter.Proofs.Alternatives
import SearchFilter.Proofs.Flattening

/-!
# Grouping a chain

Texts joined by one connective may be put into parentheses two by two in many ways. Each way is read as the joins that
its parentheses say, and its query differs from that of another way in form only: flattened, it is the one group of the
queries of the texts.

* `Grouping` — texts grouped two by two, and `Grouping.write`, how a grouping is written.
* `Grouping.exists_gathers` — a grouping compiles to a query that is gathered from those of its texts.
* `flatten_ofFilter_write` — the flattened query of a written grouping depends on its texts only.
-/

namespace SearchFilter

/-- Texts grouped two by two. -/
inductive Grouping where
  | text (filter : String)
  | pair (left right : Grouping)
  deriving DecidableEq, Repr

namespace Grouping

/-- The texts from left to right. -/
def texts : Grouping → List String
  | text filter => [filter]
  | pair left right => left.texts ++ right.texts

/-- Every text in parentheses, and every pair, with the connective between its parts. -/
def write (link : Connective) : Grouping → String
  | text filter => "(" ++ filter ++ ")"
  | pair left right => "(" ++ left.write link ++ " " ++ link.keyword ++ " " ++ right.write link ++ ")"

/-- What is written between the outermost parentheses. -/
def body (link : Connective) : Grouping → String
  | text filter => filter
  | pair left right => left.write link ++ " " ++ link.keyword ++ " " ++ right.write link

theorem toList_write (link : Connective) (g : Grouping) : (g.write link).toList = Terms.wrapped (g.body link) [] := by
  cases g <;> simp [write, body, Terms.wrapped]

theorem toList_body_pair (link : Connective) (left right : Grouping) : ((pair left right).body link).toList =
    Terms.wrapped (left.body link) ([' '] ++ link.keyword.toList ++ [' '] ++ Terms.wrapped (right.body link) []) := by
  simp [body, toList_write, Terms.wrapped]

/-- **A grouping of texts that are read** is derived, and compiles to a query gathered from those of the texts. -/
theorem exists_gathers (link : Connective) (g : Grouping) (h : ∀ o ∈ g.texts, ∃ f, Filter.parse o = .ok f) :
    ∃ s q qs, Derives (g.body link) s ∧ List.Forall₂ (fun o q => Query.ofFilter? o = .ok q) g.texts qs ∧
      s.toFilter.compile = .ok q ∧ Query.Gathers link q qs.reduceOption := by
  induction g with
  | text filter =>
    obtain ⟨f, hf⟩ := h filter (.head _)
    obtain ⟨s, hs, _, rfl⟩ := derives_of_parse hf
    obtain ⟨q, hq⟩ := exists_compile_of_parse hf
    refine ⟨s, q, [q], hs, .cons (Query.ofFilter?_of_parse hf hq) .nil, hq, ?_⟩
    cases q <;> rfl
  | pair left right ihl ihr =>
    obtain ⟨s, p, ps, hs, hps, hp, hleft⟩ := ihl fun o ho => h o (List.mem_append_left _ ho)
    obtain ⟨t, q, qs, ht, hqs, hq, hright⟩ := ihr fun o ho => h o (List.mem_append_right _ ho)
    have hread := (readAs_wrapped ht).join hs link
    rw [← toList_body_pair] at hread
    obtain ⟨u, hu, hfilter⟩ := hread.exists_derives
    refine ⟨u, link.combine p q, ps ++ qs, hu, List.rel_append hps hqs, ?_, ?_⟩
    · rw [hfilter, Filter.compile_join, hp, hq]
      rfl
    · rw [List.reduceOption_append]
      exact Query.gathers_combine hleft hright

end Grouping

/-- **The flattened query of a grouping** that does not nest too deep is the one group of the queries of its texts,
flattened: nothing for texts that constrain nothing, and one query for one that does. -/
theorem flatten_ofFilter_write (link : Connective) (os : List String) (hos : ∀ o ∈ os, ∃ f, Filter.parse o = .ok f) :
    ∃ qs, List.Forall₂ (fun o q => Query.ofFilter? o = .ok q) os qs ∧
      ∀ g : Grouping, g.texts = os →
        (∀ e, Filter.parse (g.write link) = .error e → e.problem ≠ .nestedTooDeep) →
        (Query.ofFilter (g.write link)).map Query.flatten = .ok (match qs.reduceOption with
          | [] => .wildcard
          | [only] => only.flatten
          | members => (Query.group link members).flatten) := by
  have hread : ∀ o ∈ os, ∃ q, Query.ofFilter? o = .ok q := fun o ho => by
    obtain ⟨f, hf⟩ := hos o ho
    obtain ⟨q, hq⟩ := exists_compile_of_parse hf
    exact ⟨q, Query.ofFilter?_of_parse hf hq⟩
  -- the queries are chosen before the grouping, and a grouping has no others: each text has one
  obtain ⟨qs, hqs⟩ := exists_forall₂ hread
  refine ⟨qs, hqs, ?_⟩
  rintro g rfl hn
  obtain ⟨s, q, ps, hs, hps, hq, hgathers⟩ := g.exists_gathers link hos
  obtain rfl : ps = qs := List.right_unique_forall₂' (fun _ _ _ h h' => Except.ok.inj (h.symm.trans h')) hps hqs
  have hwhole := readAs_wrapped hs
  rw [← Grouping.toList_write] at hwhole
  obtain ⟨t, ht, hfilter⟩ := hwhole.exists_derives
  have hparse := parse_of_derives hn ht
  rw [hfilter] at hparse
  rw [Query.ofFilter, Query.ofFilter?_of_parse hparse hq]
  exact congrArg Except.ok hgathers.flatten_getD

/-- A text that constrains nothing, between a conjunction and a negation, in either grouping. -/
theorem flatten_ofFilter_write_null :
    (Query.ofFilter "((a:1 AND b:2) AND ((c > null) AND (NOT d:3)))").map Query.flatten =
      .ok (.group .and [.fieldEquals "a" "1", .fieldEquals "b" "2", .negate (.fieldEquals "d" "3")]) ∧
    (Query.ofFilter "(((a:1 AND b:2) AND (c > null)) AND (NOT d:3))").map Query.flatten =
      .ok (.group .and [.fieldEquals "a" "1", .fieldEquals "b" "2", .negate (.fieldEquals "d" "3")]) := by
  have hpair : Filter.parse "a:1 AND b:2" =
      .ok (.join .and (.compare .has "a" (.literal (.number 1))) (.compare .has "b" (.literal (.number 2)))) := by cbv
  have hnull : Filter.parse "c > null" = .ok (.compare .greater "c" (.literal .null)) := by cbv
  have hnot : Filter.parse "NOT d:3" = .ok (.not (.compare .has "d" (.literal (.number 3)))) := by cbv
  have hos : ∀ o ∈ ["a:1 AND b:2", "c > null", "NOT d:3"], ∃ f, Filter.parse o = .ok f := by
    simp only [List.forall_mem_cons]
    exact ⟨⟨_, hpair⟩, ⟨_, hnull⟩, ⟨_, hnot⟩, List.forall_mem_nil _⟩
  have hright : Filter.parse "((a:1 AND b:2) AND ((c > null) AND (NOT d:3)))" = .ok (.join .and
      (.join .and (.compare .has "a" (.literal (.number 1))) (.compare .has "b" (.literal (.number 2))))
      (.join .and (.compare .greater "c" (.literal .null)) (.not (.compare .has "d" (.literal (.number 3)))))) := by cbv
  have hleft : Filter.parse "(((a:1 AND b:2) AND (c > null)) AND (NOT d:3))" = .ok (.join .and
      (.join .and (.join .and (.compare .has "a" (.literal (.number 1))) (.compare .has "b" (.literal (.number 2))))
        (.compare .greater "c" (.literal .null))) (.not (.compare .has "d" (.literal (.number 3))))) := by cbv
  obtain ⟨qs, hqs, hgroupings⟩ := flatten_ofFilter_write .and _ hos
  have hlist : qs = [some (.group .and [.fieldEquals "a" "1", .fieldEquals "b" "2"]), none,
      some (.negate (.fieldEquals "d" "3"))] :=
    List.right_unique_forall₂' (fun _ _ _ h h' => Except.ok.inj (h.symm.trans h')) hqs
      (.cons (Query.ofFilter?_of_parse hpair (by rfl)) (.cons (Query.ofFilter?_of_parse hnull rfl)
        (.cons (Query.ofFilter?_of_parse hnot (by rfl)) .nil)))
  subst hlist
  constructor
  · refine hgroupings (.pair (.text "a:1 AND b:2") (.pair (.text "c > null") (.text "NOT d:3"))) rfl fun e he => ?_
    cases hright.symm.trans he
  · refine hgroupings (.pair (.pair (.text "a:1 AND b:2") (.text "c > null")) (.text "NOT d:3")) rfl fun e he => ?_
    cases hleft.symm.trans he

end SearchFilter
