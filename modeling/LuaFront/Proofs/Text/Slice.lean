import LuaFront.Proofs.Text.Source

/-!
# LuaFront.Proofs.Text.Slice

Slices of a text in segments, for any two offsets.

* `Boundary cs n`: the offset `n` lies between two characters of `cs`, or at one of its ends.
* `Source.gather_eq_some`: what is gathered from segments lies between two boundaries of the text
  they join to. `Source.gather_between` is the other direction.
* `Source.slice_ofSegments`: a slice has the bytes of the joined text between its offsets, and there
  is none just if an offset of a stretch that is not empty lies inside a character.
-/

namespace LuaFront
namespace Text

/-- Some of the characters end at an offset. -/
def Boundary (cs : List Char) (n : Nat) : Prop := ∃ a, a <+: cs ∧ size a = n

namespace Boundary

variable {cs : List Char} {n m : Nat}

theorem zero (cs : List Char) : Boundary cs 0 := ⟨[], List.nil_prefix, rfl⟩

theorem le (h : Boundary cs n) : n ≤ Text.size cs := by
  obtain ⟨a, ⟨b, rfl⟩, rfl⟩ := h
  simp

/-- A boundary behind the first character is one of what follows it. -/
theorem of_cons {c : Char} {r : List Char} (h : Boundary (c :: r) n) (hn : n ≠ 0) :
    ∃ m, Boundary r m ∧ n = c.utf8Size + m := by
  obtain ⟨a, ha, rfl⟩ := h
  cases a with
  | nil => exact absurd rfl hn
  | cons x a =>
    obtain ⟨rfl, hprefix⟩ := List.cons_prefix_cons.1 ha
    exact ⟨Text.size a, ⟨a, hprefix, rfl⟩, size_cons x a⟩

/-- Two boundaries cut a text in three. -/
theorem exists_between (hn : Boundary cs n) (hm : Boundary cs m) (hle : n ≤ m) :
    ∃ a b c, cs = a ++ (b ++ c) ∧ Text.size a = n ∧ Text.size a + Text.size b = m := by
  obtain ⟨a, ⟨r, hr⟩, rfl⟩ := hn
  obtain ⟨d, ⟨c, hc⟩, rfl⟩ := hm
  obtain ⟨b, rfl, rfl⟩ := Source.exists_append_of_size_le (hr.trans hc.symm) hle
  exact ⟨a, b, c, hr.symm, rfl, (size_append a b).symm⟩

end Boundary

/-! ## Bytes -/

namespace Utf8

theorem encode_append (a b : List Char) : encode (a ++ b) = encode a ++ encode b :=
  List.flatMap_append

theorem length_encode (cs : List Char) : (encode cs).length = size cs := by
  induction cs with
  | nil => rfl
  | cons c r ih =>
    rw [encode, List.flatMap_cons, List.length_append, String.length_utf8EncodeChar, size_cons,
      ← ih]
    rfl

/-- The bytes between two stretches of a text. -/
theorem encode_between (a b c : List Char) :
    ((encode (a ++ (b ++ c))).drop (size a)).take (size b) = encode b := by
  rw [encode_append, encode_append, List.drop_left' (length_encode a),
    List.take_left' (length_encode b)]

end Utf8

namespace Source

/-! ## What is cut lies between characters -/

theorem dropBytes_eq_some {n : Nat} {cs r : List Char} (h : dropBytes n cs = some r) :
    ∃ a, cs = a ++ r ∧ size a = n := by
  induction cs generalizing n with
  | nil =>
    cases n with
    | zero =>
      cases h
      exact ⟨[], rfl, rfl⟩
    | succ n => cases h
  | cons c cs ih =>
    cases n with
    | zero =>
      cases h
      exact ⟨[], rfl, rfl⟩
    | succ n =>
      rw [dropBytes] at h
      split at h
      next hle =>
        obtain ⟨a, rfl, ha⟩ := ih h
        exact ⟨c :: a, rfl, by rw [size_cons, ha]; omega⟩
      next => cases h

theorem isSome_dropBytes_iff {n : Nat} {cs : List Char} :
    (dropBytes n cs).isSome ↔ Boundary cs n := by
  constructor
  · intro h
    obtain ⟨r, hr⟩ := Option.isSome_iff_exists.1 h
    obtain ⟨a, rfl, ha⟩ := dropBytes_eq_some hr
    exact ⟨a, List.prefix_append .., ha⟩
  · rintro ⟨a, ⟨r, rfl⟩, rfl⟩
    rw [dropBytes_size]
    rfl

instance (cs : List Char) (n : Nat) : Decidable (Boundary cs n) :=
  decidable_of_iff _ isSome_dropBytes_iff

theorem takeBytes_eq_some {n : Nat} {cs a : List Char} (h : takeBytes n cs = some a) :
    ∃ r, cs = a ++ r ∧ size a = n := by
  induction cs generalizing n a with
  | nil =>
    cases n with
    | zero =>
      cases h
      exact ⟨[], rfl, rfl⟩
    | succ n => cases h
  | cons c cs ih =>
    cases n with
    | zero =>
      cases h
      exact ⟨c :: cs, rfl, rfl⟩
    | succ n =>
      rw [takeBytes] at h
      split at h
      next hle =>
        obtain ⟨a, ha, rfl⟩ := Option.map_eq_some_iff.1 h
        obtain ⟨r, rfl, hsize⟩ := ih ha
        exact ⟨r, rfl, by rw [size_cons, hsize]; omega⟩
      next => cases h

theorem cut_eq_some {segment b : List Char} {start stop : Nat}
    (h : cut segment start stop = some b) :
    ∃ a c, segment = a ++ (b ++ c) ∧ size a = start ∧ size b = stop - start := by
  obtain ⟨r, hr, hb⟩ := Option.bind_eq_some_iff.1 h
  obtain ⟨a, rfl, ha⟩ := dropBytes_eq_some hr
  obtain ⟨c, rfl, hsize⟩ := takeBytes_eq_some hb
  exact ⟨a, c, rfl, ha, hsize⟩

theorem eq_nil_of_size {cs : List Char} (h : size cs = 0) : cs = [] := by
  have hlen := length_le_size cs
  exact List.length_eq_zero_iff.1 (by omega)

/-- What is gathered from segments starts where the stretch does, or with the first segment if that
comes later, and ends where the stretch ends. -/
theorem gather_eq_some {start stop base : Nat} {segments : List (List Char)} {b : List Char}
    (h : gather start stop base segments = some b) (hle : start ≤ stop)
    (hstop : stop ≤ base + size segments.flatten) :
    ∃ a c, segments.flatten = a ++ (b ++ c) ∧ size a = start - base ∧
      size a + size b = stop - base := by
  induction segments generalizing base b with
  | nil =>
    cases h
    simp only [List.flatten_nil, size_nil] at hstop
    exact ⟨[], [], rfl, by simp only [size_nil]; omega, by simp only [size_nil]; omega⟩
  | cons segment later ih =>
    rw [List.flatten_cons, size_append] at hstop
    rw [gather] at h
    split at h
    next hskip =>
      obtain ⟨a, c, hflatten, ha, hb⟩ := ih h (by omega)
      refine ⟨segment ++ a, c, ?_, ?_, ?_⟩
      · rw [List.flatten_cons, hflatten, List.append_assoc]
      · rw [size_append]
        omega
      · rw [size_append]
        omega
    next hhere =>
      split at h
      next hend =>
        cases h
        exact ⟨[], _, rfl, by simp only [size_nil]; omega, by simp only [size_nil]; omega⟩
      next hend =>
        obtain ⟨here, hcut, h⟩ := Option.bind_eq_some_iff.1 h
        obtain ⟨rest, hrest, h⟩ := Option.bind_eq_some_iff.1 h
        cases h
        obtain ⟨a, c, hsegment, ha, hsize⟩ := cut_eq_some hcut
        obtain ⟨a', d, hlater, ha', hsize'⟩ := ih hrest (by omega)
        obtain rfl : a' = [] := eq_nil_of_size (by omega)
        have hsum : size segment = size a + (size here + size c) := by
          rw [hsegment, size_append, size_append]
        rw [size_nil] at hsize'
        -- Either the stretch ends in this segment, or it has all that is left of it.
        have hjoin : c = [] ∨ rest = [] := by
          by_cases hin : stop - base ≤ size segment
          · exact .inr (eq_nil_of_size (by omega))
          · exact .inl (eq_nil_of_size (by omega))
        refine ⟨a, c ++ d, ?_, ha, by rw [size_append]; omega⟩
        rw [List.flatten_cons, hsegment, hlater]
        rcases hjoin with rfl | rfl <;> simp

/-! ## Slices -/

/-- A slice that is there and not empty lies between two boundaries. -/
theorem boundary_of_slice {s : Source} {start stop : Nat} {b : List Char}
    (h : s.slice ⟨start, stop⟩ = some b) (hlt : start < stop) (hstop : stop ≤ s.length) :
    Boundary s.chars start ∧ Boundary s.chars stop := by
  rw [slice_eq, Nat.min_eq_left hstop, Nat.min_eq_left (by omega : start ≤ s.length),
    if_neg (Nat.not_le.2 hlt)] at h
  obtain ⟨a, c, hflatten, ha, hb⟩ := gather_eq_some h (Nat.le_of_lt hlt) (by
    rw [Nat.zero_add, ← length_eq]
    exact hstop)
  rw [chars_eq, hflatten]
  refine ⟨⟨a, List.prefix_append .., ha⟩, a ++ b, ⟨c, List.append_assoc ..⟩, ?_⟩
  rw [size_append, hb]
  rfl

/-- Between two boundaries there is a slice. -/
theorem slice_of_boundary {s : Source} {start stop : Nat} (hstart : Boundary s.chars start)
    (hstop : Boundary s.chars stop) (hle : start ≤ stop) :
    ∃ a b c, s.chars = a ++ (b ++ c) ∧ size a = start ∧ size a + size b = stop ∧
      s.slice ⟨start, stop⟩ = some b := by
  obtain ⟨a, b, c, hchars, rfl, rfl⟩ := hstart.exists_between hstop hle
  exact ⟨a, b, c, hchars, rfl, rfl, slice_between hchars⟩

theorem slice_clamped (s : Source) (span : Span) :
    s.slice ⟨min span.start s.length, min span.stop s.length⟩ = s.slice span := by
  simp only [slice, Nat.min_assoc, Nat.min_self]

/-- A slice has the bytes of the text between its offsets, where offsets past the end count as the
end. There is none just if something lies between them and one of them is inside a character. -/
theorem encode_slice (s : Source) (span : Span) :
    (s.slice span).map Utf8.encode =
      let start := min span.start s.length
      let stop := min span.stop s.length
      if stop ≤ start then some []
      else if Boundary s.chars start ∧ Boundary s.chars stop then
        some (((Utf8.encode s.chars).drop start).take (stop - start))
      else none := by
  rw [← slice_clamped]
  have hstop : min span.stop s.length ≤ s.length := Nat.min_le_right ..
  generalize min span.start s.length = start, min span.stop s.length = stop at hstop ⊢
  simp only
  split
  next hle =>
    rw [slice, if_pos (show min stop s.length ≤ min start s.length by omega)]
    rfl
  next hlt =>
    rw [Nat.not_le] at hlt
    split
    next hboundary =>
      obtain ⟨a, b, c, hchars, rfl, rfl, hslice⟩ :=
        slice_of_boundary hboundary.1 hboundary.2 (Nat.le_of_lt hlt)
      rw [hslice, hchars, Nat.add_sub_cancel_left, Utf8.encode_between]
      rfl
    next hinside =>
      rw [Option.map_eq_none_iff, Option.eq_none_iff_forall_ne_some]
      intro b hb
      exact hinside (boundary_of_slice hb hlt hstop)

/-- Two slices that meet make one. -/
theorem slice_append {s : Source} {a b c : Nat} (ha : Boundary s.chars a) (hb : Boundary s.chars b)
    (hc : Boundary s.chars c) (hab : a ≤ b) (hbc : b ≤ c) :
    ∃ x y, s.slice ⟨a, b⟩ = some x ∧ s.slice ⟨b, c⟩ = some y ∧ s.slice ⟨a, c⟩ = some (x ++ y) := by
  obtain ⟨p, x, q, hchars, rfl, rfl, hx⟩ := slice_of_boundary ha hb hab
  obtain ⟨p', y, q', hchars', hp', rfl, hy⟩ := slice_of_boundary hb hc hbc
  have hsplit : p ++ x ++ q = p' ++ (y ++ q') := by
    rw [List.append_assoc, ← hchars, hchars']
  obtain ⟨m, rfl, rfl⟩ := exists_append_of_size_le hsplit (by rw [size_append]; omega)
  obtain rfl : m = [] := eq_nil_of_size (by simp only [size_append] at hp'; omega)
  have hxy : s.slice ⟨size p, size p + size (x ++ y)⟩ = some (x ++ y) :=
    slice_between (by simpa using hchars)
  refine ⟨x, y, hx, hy, ?_⟩
  simpa [Nat.add_assoc] using hxy

/-- Slicing a text in segments is slicing the text they join to. Offsets past the end count as the
end; between two boundaries a slice has the bytes of the text between them, and slices that meet
there make one; if an offset lies inside a character there is no slice, unless nothing lies between
the two. -/
theorem slice_ofSegments (segments : List (List Char)) :
    (∀ span : Span, ((ofSegments segments).slice span).map Utf8.encode =
      let bytes := Utf8.encode segments.flatten
      let start := min span.start bytes.length
      let stop := min span.stop bytes.length
      if stop ≤ start then some []
      else if Boundary segments.flatten start ∧ Boundary segments.flatten stop then
        some ((bytes.drop start).take (stop - start))
      else none) ∧
    ∀ a b c : Nat, Boundary segments.flatten a → Boundary segments.flatten b →
      Boundary segments.flatten c → a ≤ b → b ≤ c →
        ∃ x y, (ofSegments segments).slice ⟨a, b⟩ = some x ∧
          (ofSegments segments).slice ⟨b, c⟩ = some y ∧
          (ofSegments segments).slice ⟨a, c⟩ = some (x ++ y) := by
  have hchars := chars_ofSegments segments
  refine ⟨fun span => ?_, fun a b c ha hb hc hab hbc => ?_⟩
  · have hslice := encode_slice (ofSegments segments) span
    rw [length_eq_size_chars, hchars, ← Utf8.length_encode] at hslice
    exact hslice
  · rw [← hchars] at ha hb hc
    exact slice_append ha hb hc hab hbc

/-- Three segments of which the middle one is empty, cut at their border, across it, and inside a
character. -/
theorem slice_ofSegments_border :
    let segments := [['a', 'é'], [], ['€', 'b']]
    (Boundary segments.flatten 1 ∧ Boundary segments.flatten 3 ∧ Boundary segments.flatten 7) ∧
      (∃ x y, (ofSegments segments).slice ⟨1, 3⟩ = some x ∧
        (ofSegments segments).slice ⟨3, 7⟩ = some y ∧
        (ofSegments segments).slice ⟨1, 7⟩ = some (x ++ y)) ∧
      ((ofSegments segments).slice ⟨2, 9⟩).map Utf8.encode = none := by
  intro segments
  have hone : Boundary segments.flatten 1 := by decide
  have hthree : Boundary segments.flatten 3 := by decide
  have hseven : Boundary segments.flatten 7 := by decide
  refine ⟨⟨hone, hthree, hseven⟩, ?_, ?_⟩
  · exact (slice_ofSegments segments).2 1 3 7 hone hthree hseven (by decide) (by decide)
  · rw [(slice_ofSegments segments).1]
    decide

end Source
end Text
end LuaFront
