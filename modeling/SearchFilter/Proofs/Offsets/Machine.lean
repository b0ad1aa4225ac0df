import SearchFilter.Filter.Offsets
import SearchFilter.Proofs.Parser.Agreement

/-!
# Byte offsets and places

The machine of byte offsets stands at the offset of a place and remembers what a log remembers, every place by its
offset (`Stands`). A step of the machine beside an attempt to read gives the same value and stands at the same place
behind it, or misses the same and fails (`Mirrors`).

* `bytesAt`, `bytesAt_lt_iff` — offsets of places, in the order of the places.
* `Agrees`, `Stands` — what the machine and a log have in common.
* `Reader.Rewinds` — steps that go back if they fail.
* `Mirrors.bind`, `Mirrors.orElse` — one step behind another, and one in the place of another.
-/

namespace SearchFilter

/-- A place of `text`, at its end or before. -/
structure Cursor.In (text : List Char) (c : Cursor) : Prop where
  of : c.Of text
  endsAt : c.EndsAt text.length

theorem Cursor.In.spans {text u : List Char} {c d : Cursor} (h : c.In text) (hs : c.Spans u d) : d.In text :=
  ⟨h.of.spans hs, hs.endsAt h.endsAt⟩

theorem Cursor.In.index_le {text : List Char} {c : Cursor} (h : c.In text) : c.index ≤ text.length := by
  have hends := h.endsAt
  unfold Cursor.EndsAt at hends
  omega

theorem byteLength_pos {u : List Char} (h : u ≠ []) : 0 < byteLength u := by
  cases u with
  | nil => exact absurd rfl h
  | cons c u => exact Nat.add_pos_left c.utf8Size_pos _

namespace Offsets

variable {text u v : List Char} {i j n depth k l : Nat} {c d : Cursor} {log log' : Log} {s t : State}

/-! ## Offsets of places -/

/-- The byte offset of place number `i`. -/
def bytesAt (text : List Char) (i : Nat) : Nat := byteLength (text.take i)

theorem cut_bytesAt (text : List Char) (i : Nat) : cut (bytesAt text i) text = some (text.take i, text.drop i) := by
  have h := cut_append (text.take i) (text.drop i)
  rwa [List.take_append_drop] at h

theorem before_bytesAt (text : List Char) (i : Nat) : before (bytesAt text i) text = .ok (text.take i) := by
  rw [before, cut_bytesAt]

theorem behind_bytesAt (text : List Char) (i : Nat) : behind (bytesAt text i) text = .ok (text.drop i) := by
  rw [behind, cut_bytesAt]

theorem bytesAt_lt (h : i < j) (hj : j ≤ text.length) : bytesAt text i < bytesAt text j := by
  obtain ⟨k, rfl⟩ := Nat.exists_eq_add_of_le (Nat.le_of_lt h)
  have hpos : 0 < byteLength ((text.drop i).take k) := by
    refine byteLength_pos (List.ne_nil_of_length_pos ?_)
    rw [List.length_take, List.length_drop]
    omega
  rw [bytesAt, bytesAt, List.take_add, byteLength_append]
  omega

/-- Offsets are in the order of their places. -/
theorem bytesAt_lt_iff (hi : i ≤ text.length) (hj : j ≤ text.length) : bytesAt text i < bytesAt text j ↔ i < j := by
  refine ⟨fun h => ?_, fun h => bytesAt_lt h hj⟩
  rcases Nat.lt_trichotomy i j with hlt | rfl | hgt
  · exact hlt
  · omega
  · have := bytesAt_lt hgt hi
    omega

theorem bytesAt_inj (hi : i ≤ text.length) (hj : j ≤ text.length) : bytesAt text i = bytesAt text j ↔ i = j := by
  have h := bytesAt_lt_iff hi hj
  have h' := bytesAt_lt_iff hj hi
  omega

theorem bytesAt_of_spans (h : c.In text) (hs : c.Spans u d) :
    bytesAt text d.index = bytesAt text c.index + byteLength u := by
  have hr : text.drop c.index = u ++ d.rest := h.of.symm.trans hs.rest_eq
  rw [bytesAt, hs.index_eq, List.take_add, byteLength_append, hr, List.take_left]
  rfl

/-- The offset of a place, from the text behind it. -/
theorem bytesAt_of_rest (h : c.In text) : byteLength text - byteLength c.rest = bytesAt text c.index := by
  have hall := congrArg byteLength (List.take_append_drop c.index text)
  rw [byteLength_append, ← h.of] at hall
  rw [bytesAt]
  omega

/-! ## The machine and the log -/

/-- The machine remembers what the log does, every place by its offset. -/
structure Agrees (text : List Char) (depth : Nat) (log : Log) (s : State) : Prop where
  reach_le : log.reach ≤ text.length
  furthest_eq : s.furthest = bytesAt text log.reach
  expected_eq : s.expected = log.missing
  overflow_eq : s.overflow = log.overflow.map (bytesAt text)
  depth_eq : s.depth = depth
  known_eq : ∀ i ≤ text.length, s.known[bytesAt text i]? =
    log.known[i]?.map fun result => result.map fun p => (p.1, bytesAt text p.2.index)
  known_in : ∀ i ≤ text.length, ∀ f d, log.known[i]? = some (some (f, d)) → d.In text ∧ i < d.index

/-- The machine stands at `c`. -/
structure Stands (text : List Char) (depth : Nat) (c : Cursor) (log : Log) (s : State) : Prop where
  agrees : Agrees text depth log s
  place : c.In text
  offset_eq : s.offset = bytesAt text c.index

theorem Agrees.seek (h : Agrees text depth log s) (n : Nat) : Agrees text depth log { s with offset := n } := { h with }

theorem Agrees.atDepth (h : Agrees text depth log s) (n : Nat) : Agrees text n log { s with depth := n } :=
  { h with depth_eq := rfl }

theorem Stands.index_le (h : Stands text depth c log s) : c.index ≤ text.length := h.place.index_le

theorem Stands.behind_eq (h : Stands text depth c log s) : behind s.offset text = .ok c.rest := by
  rw [h.offset_eq, behind_bytesAt, ← h.place.of]

theorem Stands.overflow_isSome (h : Stands text depth c log s) : s.overflow.isSome = log.overflow.isSome := by
  rw [h.agrees.overflow_eq, Option.isSome_map]

theorem Stands.lt_furthest_iff (h : Stands text depth c log s) : s.offset < s.furthest ↔ c.index < log.reach := by
  rw [h.offset_eq, h.agrees.furthest_eq, bytesAt_lt_iff h.index_le h.agrees.reach_le]

theorem Stands.furthest_lt_iff (h : Stands text depth c log s) : s.furthest < s.offset ↔ log.reach < c.index := by
  rw [h.offset_eq, h.agrees.furthest_eq, bytesAt_lt_iff h.agrees.reach_le h.index_le]

theorem Stands.miss (h : Stands text depth c log s) (e : Expectation) :
    Agrees text depth (log.miss c.index e) (s.miss e) := by
  unfold Log.miss State.miss
  by_cases hlt : c.index < log.reach
  · rw [if_pos hlt, if_pos (h.lt_furthest_iff.2 hlt)]
    exact h.agrees
  · rw [if_neg hlt, if_neg (mt h.lt_furthest_iff.1 hlt)]
    by_cases hgt : log.reach < c.index
    · rw [if_pos hgt, if_pos (h.furthest_lt_iff.2 hgt)]
      exact { h.agrees with reach_le := h.index_le, furthest_eq := h.offset_eq, expected_eq := rfl }
    · rw [if_neg hgt, if_neg (mt h.furthest_lt_iff.1 hgt)]
      exact { h.agrees with expected_eq := congrArg _ h.agrees.expected_eq }

theorem Agrees.learn {r : Option (Filter × Cursor)} (h : Agrees text depth log s) (hc : c.In text)
    (hr : ∀ f d, r = some (f, d) → d.In text ∧ c.index < d.index) :
    Agrees text depth (log.learn c.index r)
      { s with known := s.known.insert (bytesAt text c.index) (r.map fun p => (p.1, bytesAt text p.2.index)) } where
  reach_le := h.reach_le
  furthest_eq := h.furthest_eq
  expected_eq := h.expected_eq
  overflow_eq := h.overflow_eq
  depth_eq := h.depth_eq
  known_eq i hi := by
    rw [Log.learn, Std.HashMap.getElem?_insert, Std.HashMap.getElem?_insert, h.known_eq i hi]
    simp only [beq_iff_eq, bytesAt_inj hc.index_le hi]
    split <;> rfl
  known_in i hi f d hk := by
    rw [Log.learn, Std.HashMap.getElem?_insert] at hk
    split at hk
    · next heq =>
      obtain rfl : c.index = i := by simpa using heq
      exact hr f d (Option.some.inj hk)
    · exact h.known_in i hi f d hk

/-! ## Steps that go back -/

namespace Reader

variable {α β : Type} {x y : Reader α} {a : α}

/-- A step that fails stands where it started. -/
def Rewinds (x : Reader α) : Prop := ∀ s t, x s = .ok (none, t) → t.offset = s.offset

theorem rewinds_attempt (x : Reader α) : x.attempt.Rewinds := by
  intro s t h
  rcases hx : x s with e | ⟨_ | a, t'⟩
  · rw [attempt_of_error hx] at h
    cases h
  · rw [attempt_of_none hx] at h
    cases h
    rfl
  · rw [attempt_of_some hx] at h
    cases h

theorem Rewinds.orElse (hx : x.Rewinds) (hy : y.Rewinds) : (x <|> y).Rewinds := by
  intro s t h
  rcases hs : x s with e | ⟨_ | a, t'⟩
  · rw [orElse_of_error hs] at h
    cases h
  · rw [orElse_of_none hs] at h
    rw [hy t' t h, hx s t' hs]
  · rw [orElse_of_some hs] at h
    cases h

/-- A step that goes back if it fails, and then one that does not fail. -/
theorem Rewinds.bind {f : α → Reader β} (hx : x.Rewinds) (hf : ∀ a s t, f a s ≠ .ok (none, t)) : (x >>= f).Rewinds := by
  intro s t h
  rcases hs : x s with e | ⟨_ | a, t'⟩
  · rw [bind_of_error hs] at h
    cases h
  · rw [bind_of_none hs] at h
    cases h
    exact hx s t hs
  · rw [bind_of_some hs] at h
    exact absurd h (hf a t' t)

end Reader

theorem miss_offset (s : State) (e : Expectation) : (s.miss e).offset = s.offset := by
  unfold State.miss
  split
  · rfl
  · split <;> rfl

/-! ## Steps beside attempts -/

section

variable {α β γ δ : Type} {f : β → α × Cursor} {g : δ → γ × Cursor} {x y : Attempt β} {m m' : Reader α}

/-- An attempt and a step have given the same value and stand at the same place, number `n` or behind, or both have
failed. -/
inductive Outcome (text : List Char) (depth n : Nat) (f : β → α × Cursor) :
    Option β × Log → Option α × State → Prop
  | read {b : β} {log : Log} {s : State} : Stands text depth (f b).2 log s → n ≤ (f b).2.index →
    Outcome text depth n f (some b, log) (some (f b).1, s)
  | fail {log : Log} {s : State} : Agrees text depth log s → Outcome text depth n f (none, log) (none, s)

theorem Outcome.mono {r : Option β × Log} {r' : Option α × State} (h : Outcome text depth n f r r') (hle : i ≤ n) :
    Outcome text depth i f r r' := by
  cases h with
  | read hs hn => exact .read hs (Nat.le_trans hle hn)
  | fail h => exact .fail h

/-- Started at `c`, the step does what the attempt does, and reads at least `k` characters unless it fails. -/
def Mirrors (text : List Char) (depth : Nat) (c : Cursor) (k : Nat) (f : β → α × Cursor) (x : Attempt β)
    (m : Reader α) : Prop :=
  ∀ log s, Stands text depth c log s → ∃ r, m s = .ok r ∧ Outcome text depth (c.index + k) f (x log) r

theorem mirrors_pure (f : β → α × Cursor) (b : β) : Mirrors text depth (f b).2 0 f (pure b) (pure (f b).1) :=
  fun _ s hs => ⟨(some (f b).1, s), rfl, .read hs (Nat.le_refl _)⟩

theorem Mirrors.bind_of_le {z : β → Attempt δ} {p : α → Reader γ} (hx : Mirrors text depth c k f x m)
    (hz : ∀ b, c.index + k ≤ (f b).2.index → Mirrors text depth (f b).2 l g (z b) (p (f b).1)) :
    Mirrors text depth c k g (x >>= z) (m >>= p) := by
  intro log s hs
  obtain ⟨r, hr, ho⟩ := hx log s hs
  rw [Attempt.bind_apply]
  generalize x log = q at ho
  cases ho with
  | @read b log' s' hs' hle =>
    obtain ⟨r', hr', ho'⟩ := hz b hle log' s' hs'
    exact ⟨r', (Reader.bind_of_some hr).trans hr', ho'.mono (by omega)⟩
  | fail h => exact ⟨_, Reader.bind_of_none hr, .fail h⟩

theorem Mirrors.bind {z : β → Attempt δ} {p : α → Reader γ} (hx : Mirrors text depth c k f x m)
    (hz : ∀ b, Mirrors text depth (f b).2 l g (z b) (p (f b).1)) :
    Mirrors text depth c k g (x >>= z) (m >>= p) :=
  hx.bind_of_le fun b _ => hz b

/-- Another step is tried where the first one started, if that one went back. -/
theorem Mirrors.orElse (hx : Mirrors text depth c k f x m) (hm : m.Rewinds) (hy : Mirrors text depth c k f y m') :
    Mirrors text depth c k f (x <|> y) (m <|> m') := by
  intro log s hs
  obtain ⟨r, hr, ho⟩ := hx log s hs
  rw [Attempt.orElse_apply]
  generalize x log = q at ho
  cases ho with
  | read hs' hle => exact ⟨_, Reader.orElse_of_some hr, .read hs' hle⟩
  | @fail log' s' h =>
    obtain ⟨r', hr', ho'⟩ := hy log' s' ⟨h, hs.place, (hm s s' hr).trans hs.offset_eq⟩
    exact ⟨r', (Reader.orElse_of_none hr).trans hr', ho'⟩

theorem Mirrors.attempt (hx : Mirrors text depth c k f x m) : Mirrors text depth c k f x m.attempt := by
  intro log s hs
  obtain ⟨r, hr, ho⟩ := hx log s hs
  generalize x log = q at ho
  cases ho with
  | read hs' hle => exact ⟨_, Reader.attempt_of_some hr, .read hs' hle⟩
  | fail h => exact ⟨_, Reader.attempt_of_none hr, .fail (h.seek _)⟩

end

end Offsets

end SearchFilter
