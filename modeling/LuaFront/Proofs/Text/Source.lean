import LuaFront.Proofs.Text.Cursor
import LuaFront.Text.Source

/-!
# LuaFront.Proofs.Text.Source

The characters of a text in segments, and its slices.

* `Source.stands_cursor`: the cursor at the start of a text has all characters left.
* `Source.chars_ofSegments`: the characters of a text are those of its segments, in order.
* `Source.slice_eq`: a slice is what a walk over all segments gathers, so that neither the search
  for the first segment nor the way out for a stretch inside of it makes a difference.
* `Source.slice_between`: the slice between the ends of two stretches of a text is what lies between.
-/

namespace LuaFront
namespace Text

/-! ## The characters of a text -/

namespace Source

theorem steady_cursor (s : Source) : s.cursor.Steady := by
  obtain ⟨segments, hne⟩ := s
  cases segments with
  | nil => exact ⟨by simp [cursor], fun _ => rfl⟩
  | cons first later =>
    rw [List.forall_mem_cons] at hne
    exact ⟨hne.2, fun hnil => absurd hnil hne.1⟩

theorem stands_cursor_flatten (s : Source) : s.cursor.Stands 0 s.segments.flatten := by
  refine ⟨s.steady_cursor, ?_, ?_⟩
  · unfold cursor
    split <;> rfl
  · obtain ⟨segments, hne⟩ := s
    cases segments <;> simp [cursor, Cursor.rest]

theorem length_eq (s : Source) : s.length = size s.segments.flatten := by
  obtain ⟨segments, hne⟩ := s
  simp only [length]
  clear hne
  induction segments with
  | nil => rfl
  | cons first later ih => simp [ih]

theorem chars_eq (s : Source) : s.chars = s.segments.flatten := by
  rw [chars, s.stands_cursor_flatten.take, length_eq]
  exact List.take_of_length_le (length_le_size _)

theorem stands_cursor (s : Source) : s.cursor.Stands 0 s.chars := by
  rw [chars_eq]
  exact s.stands_cursor_flatten

theorem length_eq_size_chars (s : Source) : s.length = size s.chars := by
  rw [length_eq, chars_eq]

/-- Empty segments leave no trace. -/
theorem chars_ofSegments (segments : List (List Char)) :
    (ofSegments segments).chars = segments.flatten := by
  rw [chars_eq]
  induction segments with
  | nil => rfl
  | cons first later ih =>
    by_cases h : first = []
    · simpa [ofSegments, h] using ih
    · simpa [ofSegments, h] using ih

theorem chars_ofChars (text : List Char) : (ofChars text).chars = text := by
  simp [ofChars, chars_ofSegments]

/-! ## Lines and columns -/

section

variable {c d : Cursor} {offset : Nat} (target line column : Nat)

theorem walk_nil (h : c.Stands offset []) : walk target line column c = (line, column) := by
  have hpeek : c.peek = none := h.peek
  rw [walk]
  split
  · split
    next x hx => cases hpeek.symm.trans hx
    next => rfl
  · rfl

theorem walk_cons {x : Char} {r : List Char} (h : c.Stands offset (x :: r)) :
    walk target line column c =
      if offset < target then
        if x = '\n' then walk target (line + 1) 0 c.eat else walk target line (column + 1) c.eat
      else (line, column) := by
  have hpeek : c.peek = some x := h.peek
  rw [walk, h.offset]
  split
  · split
    next y hy =>
      cases hpeek.symm.trans hy
      rfl
    next hnone => cases hpeek.symm.trans hnone
  · rfl

/-- Lines and columns are counted alike over the same characters, whatever segments they are in. -/
theorem walk_congr {text : List Char} (hc : c.Stands offset text) (hd : d.Stands offset text) :
    walk target line column c = walk target line column d := by
  induction text generalizing c d offset line column with
  | nil => rw [walk_nil _ _ _ hc, walk_nil _ _ _ hd]
  | cons x r ih =>
    rw [walk_cons _ _ _ hc, walk_cons _ _ _ hd, ih (line + 1) 0 hc.eat hd.eat,
      ih line (column + 1) hc.eat hd.eat]

end

/-! ## Slices -/

/-- The first character of some takes its part of their bytes. -/
theorem exists_size_cons (c : Char) (r : List Char) :
    ∃ k, size (c :: r) = k + 1 ∧ c.utf8Size ≤ k + 1 ∧ k + 1 - c.utf8Size = size r := by
  have hpos := c.utf8Size_pos
  refine ⟨c.utf8Size + size r - 1, ?_⟩
  rw [size_cons]
  omega

theorem dropBytes_size (a b : List Char) : dropBytes (size a) (a ++ b) = some b := by
  induction a with
  | nil => simp [dropBytes]
  | cons c r ih =>
    obtain ⟨k, hk, hle, hrest⟩ := exists_size_cons c r
    rw [hk, List.cons_append, dropBytes, if_pos hle, hrest, ih]

theorem takeBytes_size (a b : List Char) : takeBytes (size a) (a ++ b) = some a := by
  induction a with
  | nil => simp [takeBytes]
  | cons c r ih =>
    obtain ⟨k, hk, hle, hrest⟩ := exists_size_cons c r
    rw [hk, List.cons_append, takeBytes, if_pos hle, hrest, ih]
    rfl

theorem cut_between (a b c : List Char) :
    cut (a ++ (b ++ c)) (size a) (size a + size b) = some b := by
  rw [cut, dropBytes_size, Option.bind_some, Nat.add_sub_cancel_left, takeBytes_size]

/-- Of two ways to split a text, the one whose first part takes fewer bytes splits first. -/
theorem exists_append_of_size_le {a b c d : List Char} (h : a ++ b = c ++ d)
    (hle : size a ≤ size c) : ∃ m, c = a ++ m ∧ b = m ++ d := by
  rcases List.append_eq_append_iff.1 h with ⟨m, rfl, rfl⟩ | ⟨m, rfl, rfl⟩
  · exact ⟨m, rfl, rfl⟩
  · have hm : m = [] := by
      have := length_le_size m
      rw [size_append] at hle
      exact List.length_eq_zero_iff.1 (by omega)
    exact ⟨[], by simp [hm], by simp [hm]⟩

/-- The characters between two byte offsets, gathered from segments of which the first starts at
offset `base`. -/
def gather (start stop : Nat) : Nat → List (List Char) → Option (List Char)
  | _, [] => some []
  | base, segment :: later =>
    if base + size segment ≤ start then gather start stop (base + size segment) later
    else if stop ≤ base then some []
    else do
      let here ← cut segment (start - base) (min (stop - base) (size segment))
      let rest ← gather start stop (base + size segment) later
      return here ++ rest

/-- Segments behind the end of a stretch add nothing to it. -/
theorem gather_of_le {start stop base : Nat} (segments : List (List Char))
    (hne : ∀ s ∈ segments, s ≠ []) (hstart : start ≤ base) (hstop : stop ≤ base) :
    gather start stop base segments = some [] := by
  cases segments with
  | nil => rfl
  | cons segment later =>
    have hlen := length_le_size segment
    have hpos := List.length_pos_iff.2 (hne segment (by simp))
    rw [gather, if_neg (by omega), if_pos hstop]

/-- Segments that lie behind the start of a stretch are put together as they are gathered. -/
theorem stitch_eq_of_le {start stop base : Nat} (segments : List (List Char))
    (hne : ∀ s ∈ segments, s ≠ []) (hstart : start ≤ base) :
    stitch start stop (segments.zip (startsFrom base segments)) =
      gather start stop base segments := by
  induction segments generalizing base with
  | nil => rfl
  | cons segment later ih =>
    rw [List.forall_mem_cons] at hne
    have hlen := length_le_size segment
    have hpos := List.length_pos_iff.2 hne.1
    rw [startsFrom, List.zip_cons_cons, stitch, gather, ih hne.2 (by omega),
      if_neg (show ¬ base + size segment ≤ start by omega)]
    by_cases hstop : base < stop
    · rw [if_pos hstop, if_neg (by omega)]
    · rw [if_neg hstop, if_pos (by omega)]

/-- A segment in which a stretch starts, and all behind it, are put together as they are
gathered. -/
theorem stitch_eq {start stop base : Nat} {segment : List Char} {later : List (List Char)}
    (hne : ∀ s ∈ later, s ≠ []) (hstart : start < base + size segment) (hstop : base < stop) :
    stitch start stop ((segment, base) :: later.zip (startsFrom (base + size segment) later)) =
      gather start stop base (segment :: later) := by
  rw [stitch, gather, if_pos hstop, if_neg (by omega), if_neg (by omega),
    stitch_eq_of_le later hne (Nat.le_of_lt hstart)]

/-- A stretch that ends in the segment it starts in is cut out of that one. -/
theorem gather_eq_cut {start stop base : Nat} {segment : List Char} {later : List (List Char)}
    (hne : ∀ s ∈ later, s ≠ []) (hstart : start < base + size segment) (hstop : base < stop)
    (hend : stop - base ≤ size segment) :
    gather start stop base (segment :: later) = cut segment (start - base) (stop - base) := by
  rw [gather, if_neg (by omega), if_neg (by omega), Nat.min_eq_left hend,
    gather_of_le later hne (by omega) (by omega)]
  cases cut segment (start - base) (stop - base) <;> simp

/-- The search finds the segment that an offset lies in. What is left out before it would not have
been gathered. -/
theorem drop_segmentOf {start base : Nat} (stop : Nat) {segments : List (List Char)}
    (hbase : base ≤ start) (hstart : start < base + size segments.flatten) :
    ∃ place segment later,
      (segments.zip (startsFrom base segments)).drop
          (((startsFrom base segments).takeWhile (· ≤ start)).length - 1) =
        (segment, place) :: later.zip (startsFrom (place + size segment) later) ∧
      place ≤ start ∧ start < place + size segment ∧ later ⊆ segments ∧
      gather start stop base segments = gather start stop place (segment :: later) := by
  induction segments generalizing base with
  | nil =>
    simp only [List.flatten_nil, size_nil] at hstart
    omega
  | cons segment later ih =>
    rw [List.flatten_cons, size_append] at hstart
    rw [startsFrom, List.takeWhile_cons_of_pos (by simpa using hbase), List.length_cons,
      Nat.add_sub_cancel]
    by_cases hhere : start < base + size segment
    · refine ⟨base, segment, later, ?_, hbase, hhere, List.subset_cons_self .., rfl⟩
      have hnone : (startsFrom (base + size segment) later).takeWhile (· ≤ start) = [] := by
        cases later with
        | nil => rfl
        | cons next later => exact List.takeWhile_cons_of_neg (by simpa using hhere)
      rw [hnone, List.length_nil, List.drop_zero, List.zip_cons_cons]
    · have hbehind : base + size segment ≤ start := Nat.not_lt.1 hhere
      obtain ⟨place, found, behind, hdrop, hplace, hfound, hsub, hgather⟩ :=
        ih hbehind (by omega)
      refine ⟨place, found, behind, ?_, hplace, hfound, List.subset_cons_of_subset _ hsub, ?_⟩
      · cases later with
        | nil => simp at hstart; omega
        | cons next later =>
          rw [startsFrom, List.takeWhile_cons_of_pos (by simp; omega), List.length_cons,
            Nat.add_sub_cancel] at hdrop
          rw [startsFrom, List.takeWhile_cons_of_pos (by simp; omega), List.length_cons,
            List.zip_cons_cons, List.drop_succ_cons]
          exact hdrop
      · rw [gather, if_pos (by omega)]
        exact hgather

/-- A slice is gathered from all segments. -/
theorem slice_eq (s : Source) (span : Span) :
    s.slice span =
      if min span.stop s.length ≤ min span.start s.length then some []
      else gather (min span.start s.length) (min span.stop s.length) 0 s.segments := by
  rw [slice]
  split
  next => rfl
  next hlt =>
    have hlen : min span.stop s.length ≤ size s.segments.flatten := by
      rw [← length_eq]
      exact Nat.min_le_right ..
    obtain ⟨place, segment, later, hdrop, hplace, hsegment, hsub, hgather⟩ :=
      drop_segmentOf (min span.stop s.length) (Nat.zero_le _)
        (show min span.start s.length < 0 + size s.segments.flatten by omega)
    have hne : ∀ t ∈ later, t ≠ [] := fun t ht => s.segments_ne_nil t (hsub ht)
    rw [segmentOf, starts, hdrop, hgather]
    split
    next h => cases h
    next hcons =>
      cases hcons
      split
      next hend => exact (gather_eq_cut hne hsegment (by omega) hend).symm
      next => exact stitch_eq hne hsegment (by omega)

/-- From segments behind the start of a stretch comes what is left of it. -/
theorem gather_from {start base : Nat} (segments : List (List Char)) {b c : List Char}
    (hne : ∀ s ∈ segments, s ≠ []) (hstart : start ≤ base) (h : segments.flatten = b ++ c) :
    gather start (base + size b) base segments = some b := by
  induction segments generalizing base b with
  | nil =>
    obtain ⟨rfl, -⟩ := List.append_eq_nil_iff.1 h.symm
    rfl
  | cons segment later ih =>
    rw [List.forall_mem_cons] at hne
    have hlen := length_le_size segment
    have hpos := List.length_pos_iff.2 hne.1
    rw [List.flatten_cons] at h
    rw [gather, if_neg (by omega)]
    split
    next hstop =>
      have hb := length_le_size b
      rw [List.length_eq_zero_iff.1 (show b.length = 0 by omega)]
    have hzero : start - base = 0 := by omega
    rw [Nat.add_sub_cancel_left, hzero]
    by_cases hle : size b ≤ size segment
    · obtain ⟨m, rfl, -⟩ := exists_append_of_size_le h.symm hle
      have hcut := cut_between [] b m
      simp only [List.nil_append, size_nil, Nat.zero_add] at hcut
      rw [Nat.min_eq_left hle, hcut, gather_of_le later hne.2 (by omega) (by rw [size_append]; omega)]
      simp
    · obtain ⟨m, rfl, hm⟩ := exists_append_of_size_le h (by omega)
      have hcut := cut_between [] segment []
      simp only [List.nil_append, List.append_nil, size_nil, Nat.zero_add] at hcut
      rw [Nat.min_eq_right (by omega), hcut, size_append, ← Nat.add_assoc,
        ih hne.2 (by omega) hm]
      rfl

/-- A stretch that starts in some segments is gathered from them. -/
theorem gather_between {base : Nat} (segments : List (List Char)) {a b c : List Char}
    (hne : ∀ s ∈ segments, s ≠ []) (h : segments.flatten = a ++ (b ++ c)) (hb : b ≠ []) :
    gather (base + size a) (base + size a + size b) base segments = some b := by
  induction segments generalizing base a with
  | nil => simp [hb] at h
  | cons segment later ih =>
    rw [List.forall_mem_cons] at hne
    rw [List.flatten_cons] at h
    by_cases hle : size segment ≤ size a
    · obtain ⟨m, rfl, hm⟩ := exists_append_of_size_le h hle
      rw [gather, if_pos (by simp), size_append, ← Nat.add_assoc]
      exact ih hne.2 hm
    · obtain ⟨m, rfl, hm⟩ := exists_append_of_size_le h.symm (by omega)
      have hpos := List.length_pos_iff.2 hb
      have hlen := length_le_size b
      rw [gather, if_neg (by omega), if_neg (by omega)]
      have hstart : base + size a - base = size a := by omega
      have hstop : base + size a + size b - base = size a + size b := by omega
      rw [hstart, hstop]
      by_cases hin : size b ≤ size m
      · obtain ⟨k, rfl, -⟩ := exists_append_of_size_le hm hin
        rw [Nat.min_eq_left (by rw [size_append]; omega), cut_between,
          gather_of_le later hne.2 (by rw [size_append]; omega) (by rw [size_append]; omega)]
        simp
      · obtain ⟨k, rfl, hk⟩ := exists_append_of_size_le hm.symm (by omega)
        have hcut := cut_between a m []
        rw [List.append_nil] at hcut
        rw [Nat.min_eq_right (by rw [size_append]; omega), size_append, hcut]
        have hgather : gather (base + size a) (base + (size a + size m) + size k)
            (base + (size a + size m)) later = some k :=
          gather_from later hne.2 (by omega) hk
        rw [size_append, show base + size a + (size m + size k) =
          base + (size a + size m) + size k by omega, hgather]
        rfl

/-- The slice from the end of `a` to the end of `b` behind it is `b`. -/
theorem slice_between {s : Source} {a b c : List Char} (h : s.chars = a ++ (b ++ c)) :
    s.slice ⟨size a, size a + size b⟩ = some b := by
  have hlength : s.length = size a + (size b + size c) := by
    rw [length_eq_size_chars, h, size_append, size_append]
  rw [slice_eq, Nat.min_eq_left (show size a ≤ s.length by omega),
    Nat.min_eq_left (show size a + size b ≤ s.length by omega)]
  split
  next hle =>
    have hlen := length_le_size b
    rw [List.length_eq_zero_iff.1 (show b.length = 0 by omega)]
  next hlt =>
    have hb : b ≠ [] := fun hnil => hlt (by simp [hnil])
    have hgather : gather (0 + size a) (0 + size a + size b) 0 s.segments = some b :=
      gather_between s.segments s.segments_ne_nil (s.chars_eq.symm.trans h) hb
    simpa using hgather

end Source
end Text
end LuaFront
