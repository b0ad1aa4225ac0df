import SearchFilter.Proofs.Offsets.Agreement

/-!
# Where errors are

The error of a text is at a place between two of its characters, and its line and column are those of a walk up to
there. The machine of byte offsets finds the same error, though it searches for line feeds instead of walking: it comes
to its end on every text without a fault.

* `Offsets.position_bytesAt`, `Offsets.locate_bytesAt` — places and errors at a byte offset.
* `Offsets.parse_eq` — the machine reads as the rules do.
* `parse_error_located` — the error of a text, its location and the character found.
-/

namespace SearchFilter

namespace Offsets

variable {text : List Char} {n depth : Nat} {c : Cursor} {log : Log} {s : State}

/-! ## Lines -/

theorem lastLineFeed_eq_none (h : lastLineFeed text = none) : '\n' ∉ text := by
  induction text with
  | nil => exact List.not_mem_nil
  | cons c cs ih =>
    rw [lastLineFeed] at h
    split at h
    · cases h
    · next hcs =>
      split at h
      · cases h
      · next hc => exact List.not_mem_cons_of_ne_of_not_mem (Ne.symm hc) (ih hcs)

/-- The last line feed stands between the lines before and the last one. -/
theorem lastLineFeed_eq_some (h : lastLineFeed text = some n) :
    ∃ u v, text = u ++ '\n' :: v ∧ '\n' ∉ v ∧ byteLength u = n := by
  induction text generalizing n with
  | nil => cases h
  | cons c cs ih =>
    rw [lastLineFeed] at h
    split at h
    · next m hcs =>
      obtain ⟨u, v, rfl, hv, hu⟩ := ih hcs
      cases h
      exact ⟨c :: u, v, rfl, hv, by rw [byteLength, hu]⟩
    · next hcs =>
      split at h
      · next hc =>
        cases h
        exact ⟨[], cs, by rw [hc, List.nil_append], lastLineFeed_eq_none hcs, rfl⟩
      · cases h

theorem ne_lineFeed (h : '\n' ∉ text) : ∀ c ∈ text.reverse, (c != '\n') = true :=
  fun _ hc => bne_iff_ne.2 (ne_of_mem_of_not_mem (List.mem_reverse.1 hc) h)

/-- What stands behind the last line feed is what is before the first one from behind. -/
theorem behind_lastLineFeed (text : List Char) : ∃ line, behind ((lastLineFeed text).elim 0 (· + 1)) text = .ok line ∧
    line.length = (text.reverse.takeWhile (· != '\n')).length := by
  cases h : lastLineFeed text with
  | none =>
    have htake := List.takeWhile_eq_self_iff.2 (ne_lineFeed (lastLineFeed_eq_none h))
    exact ⟨text, behind_bytesAt text 0, by rw [htake, List.length_reverse]⟩
  | some n =>
    obtain ⟨u, v, rfl, hv, rfl⟩ := lastLineFeed_eq_some h
    have hcut : cut (byteLength u + 1) (u ++ '\n' :: v) = some (u ++ ['\n'], v) := by
      have hcut := cut_append (u ++ ['\n']) v
      rwa [byteLength_append, List.append_assoc] at hcut
    have hreverse : (u ++ '\n' :: v).reverse = v.reverse ++ '\n' :: u.reverse := by simp
    refine ⟨v, ?_, ?_⟩
    · rw [behind, Option.elim_some, hcut]
    · rw [hreverse, List.takeWhile_append_of_pos (ne_lineFeed hv)]
      simp

/-! ## Errors -/

/-- A place at a byte offset is the place behind the text before it. -/
theorem position_bytesAt (text : List Char) (i : Nat) :
    position text (bytesAt text i) = .ok (Position.after (text.take i)) := by
  obtain ⟨line, hline, hlength⟩ := behind_lastLineFeed (text.take i)
  simp only [position, before_bytesAt, bind, Except.bind, hline, hlength]
  rfl

theorem locate_bytesAt (problem : SyntaxProblem) (text : List Char) (i : Nat) :
    locate problem text (bytesAt text i) = .ok (SyntaxError.locate problem text i) := by
  have hnext : bytesAt text i + (text.drop i).head?.elim 0 Char.utf8Size = bytesAt text (i + 1) := by
    rw [bytesAt, bytesAt, List.take_add, byteLength_append]
    cases text.drop i <;> rfl
  simp only [locate, behind_bytesAt, position_bytesAt, hnext, bind, Except.bind]
  rfl

theorem Agrees.error_eq (h : Agrees text depth log s) : s.error text = .ok (log.error text) := by
  rw [State.error, Log.error, h.overflow_eq, h.expected_eq, h.furthest_eq]
  cases log.overflow with
  | none => exact locate_bytesAt _ text _
  | some i => exact locate_bytesAt _ text _

theorem agrees_empty (text : List Char) : Agrees text 0 {} {} where
  reach_le := Nat.zero_le _
  furthest_eq := rfl
  expected_eq := rfl
  overflow_eq := rfl
  depth_eq := rfl
  known_eq i hi := by simp
  known_in i hi f d h := by simp at h

theorem Stands.offset_eq_iff (h : Stands text depth c log s) : s.offset = byteLength text ↔ c.rest = [] := by
  have hall : byteLength text = bytesAt text text.length := by rw [bytesAt, List.take_length]
  have hends := h.place.endsAt
  unfold Cursor.EndsAt at hends
  rw [h.offset_eq, hall, bytesAt_inj h.index_le (Nat.le_refl _), ← List.length_eq_zero_iff]
  omega

/-- **The machine of byte offsets** reads every text as the rules do, and no text brings it to a fault. -/
theorem parse_eq (text : String) : parse text = .ok (Filter.parse text) := by
  have hstands : Stands text.toList 0 ⟨0, text.toList⟩ {} {} := ⟨agrees_empty _, ⟨rfl, Nat.zero_add _⟩, rfl⟩
  obtain ⟨r, hr, ho⟩ := mirrors_start ⟨0, text.toList⟩ {} {} hstands
  simp only [parse, Filter.parse, hr, bind, Except.bind]
  generalize Rule.start text.toList.length ⟨0, text.toList⟩ {} = q at ho
  cases ho with
  | @read b log s hs hle =>
    obtain ⟨f, d⟩ := b
    dsimp only [id] at hs ⊢
    have hmiss := (hs.miss .endOfInput).error_eq
    have hoverflow : s.overflow = none ↔ log.overflow = none := by rw [hs.agrees.overflow_eq, Option.map_eq_none_iff]
    have hcond : (s.offset = text.utf8ByteSize ∧ s.overflow = none) ↔
        (d.rest.isEmpty && log.overflow.isNone) = true := by
      rw [← byteLength_toList, hs.offset_eq_iff, hoverflow]
      simp
    rw [hmiss]
    by_cases hend : (d.rest.isEmpty && log.overflow.isNone) = true
    · rw [if_pos hend, if_pos (hcond.2 hend)]
      rfl
    · rw [if_neg hend, if_neg (mt hcond.1 hend)]
      rfl
  | fail h =>
    dsimp only
    rw [h.error_eq]
    rfl

end Offsets

/-! ## The error of a text -/

namespace SyntaxError

/-- Nothing is found exactly at the end of the text. -/
theorem found_locate_eq_none_iff (problem : SyntaxProblem) (input : List Char) (i : Nat) :
    (locate problem input i).found = none ↔ (locate problem input i).start.offset = byteLength input := by
  have hbytes := congrArg byteLength (List.take_append_drop i input)
  rw [byteLength_append] at hbytes
  show (input.drop i).head? = none ↔ byteLength (input.take i) = byteLength input
  cases hrest : input.drop i with
  | nil =>
    rw [hrest] at hbytes
    exact ⟨fun _ => by simpa [byteLength] using hbytes, fun _ => rfl⟩
  | cons c cs =>
    rw [hrest] at hbytes
    have hpos := byteLength_pos (List.cons_ne_nil c cs)
    refine ⟨fun h => ?_, fun heq => ?_⟩
    · cases h
    · omega

/-- An error extends over the character found. -/
theorem stop_locate (problem : SyntaxProblem) (input : List Char) (i : Nat) : (locate problem input i).stop =
    (locate problem input i).found.elim (locate problem input i).start (locate problem input i).start.next := by
  show Position.after (input.take (i + 1)) =
    (input.drop i).head?.elim (Position.after (input.take i)) (Position.after (input.take i)).next
  rw [List.head?_drop, List.take_add_one]
  cases input[i]? with
  | none => rw [Option.toList_none, List.append_nil]; rfl
  | some c => exact Position.after_concat _ c

end SyntaxError

section

variable {text : String} {e : SyntaxError}

/-- An error is in the text before one of its characters, or at its end. -/
theorem exists_locate_of_parse (h : Filter.parse text = .error e) : ∃ problem i, e = .locate problem text.toList i := by
  have hlog (log : Log) : ∃ problem i, log.error text.toList = .locate problem text.toList i := by
    unfold Log.error
    cases log.overflow with
    | none => exact ⟨_, _, rfl⟩
    | some i => exact ⟨_, i, rfl⟩
  unfold Filter.parse at h
  simp only at h
  split at h
  · split at h
    · cases h
    · obtain rfl := Except.error.inj h
      exact hlog _
  · obtain rfl := Except.error.inj h
    exact hlog _

/-- **The error of a text** starts between two characters of the text or at its end. The character found is the one that
stands there; its line and column are those of a walk over the text before, which goes on over that character to where
the error ends. Read at byte offsets, the text gives the same error, without a slice anywhere but between two
characters. -/
theorem parse_error_located (h : Filter.parse text = .error e) :
    (e.start.offset ≤ text.utf8ByteSize ∧ String.Pos.Raw.IsValid text ⟨e.start.offset⟩) ∧
    (∃ before after : String, text = before ++ after ∧ before.utf8ByteSize = e.start.offset ∧
      e.found = after.toList.head? ∧ e.start = before.toList.foldl Position.next .first) ∧
    (e.found = none ↔ e.start.offset = text.utf8ByteSize) ∧
    e.stop = e.found.elim e.start e.start.next ∧
    Offsets.parse text = .ok (.error e) := by
  have hoffsets : Offsets.parse text = .ok (.error e) := by rw [Offsets.parse_eq, h]
  obtain ⟨problem, i, rfl⟩ := exists_locate_of_parse h
  have hfound := SyntaxError.found_locate_eq_none_iff problem text.toList i
  rw [byteLength_toList] at hfound
  have hsplit := List.take_append_drop i text.toList
  have hbytes := congrArg byteLength hsplit
  rw [byteLength_append, byteLength_toList] at hbytes
  have hstart : (SyntaxError.locate problem text.toList i).start.offset = Offsets.bytesAt text.toList i := rfl
  refine ⟨⟨?_, ?_⟩, ⟨String.ofList (text.toList.take i), String.ofList (text.toList.drop i), ?_, ?_, ?_, ?_⟩, hfound,
    SyntaxError.stop_locate problem text.toList i, hoffsets⟩
  · rw [hstart, Offsets.bytesAt]
    omega
  · rw [hstart, ← Offsets.isSome_cut_iff, Offsets.cut_bytesAt]
    rfl
  · rw [← String.ofList_append, hsplit, String.ofList_toList]
  · rw [hstart, ← byteLength_toList, String.toList_ofList, Offsets.bytesAt]
  · rw [String.toList_ofList]
    rfl
  · rw [String.toList_ofList]
    exact Position.after_append [] (text.toList.take i)

/-- A line feed is found on the second line, behind characters of two bytes. -/
theorem parse_error_located_line_feed :
    let text := "a:ü\né \n"
    let e : SyntaxError :=
      ⟨.unexpected [.literal "AND", .literal "OR", .endOfInput, .token .space], some '\n', ⟨8, 2, 3⟩, ⟨9, 3, 1⟩⟩
    Filter.parse text = .error e ∧ String.Pos.Raw.IsValid text ⟨8⟩ ∧
      (∃ before after : String, text = before ++ after ∧ before.utf8ByteSize = 8 ∧ after.toList.head? = some '\n') ∧
      Offsets.parse text = .ok (.error e) := by
  intro text e
  have hparse : Filter.parse text = .error e := by cbv
  obtain ⟨⟨_, hvalid⟩, ⟨before, after, htext, hbefore, hfound, _⟩, _, _, hoffsets⟩ := parse_error_located hparse
  exact ⟨hparse, hvalid, ⟨before, after, htext, hbefore, hfound.symm⟩, hoffsets⟩

end

end SearchFilter
