import LuaFront.Proofs.Token.Order

/-!
# LuaFront.Proofs.Token.LongBracket

What reading between long brackets consumes.

* `LongBracket.level?_eq_some`: a bracket of a level is there just if it is written there.
* `LongBracket.First`: a body in which its closing bracket does not occur before its end.
* `LongBracket.read_closing` and `LongBracket.read_open`: a body is read up to the first closing
  bracket of its level, and to the end of the text if there is none.
-/

namespace LuaFront
namespace LongBracket

/-! ## Brackets -/

/-- The opening long bracket of a level. -/
def opening (level : Nat) : List Char := '[' :: (List.replicate level '=' ++ ['['])

theorem size_replicate (n : Nat) : Text.size (List.replicate n '=') = n := by
  induction n with
  | zero => rfl
  | succ n ih =>
    rw [List.replicate_succ, Text.size_cons, ih, show '='.utf8Size = 1 from rfl, Nat.add_comm]

theorem size_opening (level : Nat) : Text.size (opening level) = level + 2 := by
  simp only [opening, Text.size_cons, Text.size_append, Text.size_nil, size_replicate,
    show '['.utf8Size = 1 from rfl]
  omega

theorem size_closing (level : Nat) : Text.size (closing level) = level + 2 := by
  simp only [closing, Text.size_cons, Text.size_append, Text.size_nil, size_replicate,
    show ']'.utf8Size = 1 from rfl]
  omega

theorem length_opening (level : Nat) : (opening level).length = level + 2 := by
  simp [opening]

theorem length_closing (level : Nat) : (closing level).length = level + 2 := by
  simp [closing]

theorem level?_opening (level : Nat) (r : List Char) : level? (opening level ++ r) = some level := by
  have hall : ∀ c ∈ List.replicate level '=', (c == '=') = true := by simp
  rw [opening, List.cons_append, List.append_assoc]
  simp only [level?]
  rw [List.dropWhile_append_of_pos hall, List.takeWhile_append_of_pos hall]
  simp

theorem level?_eq_some {cs : List Char} {level : Nat} :
    level? cs = some level ↔ ∃ r, cs = opening level ++ r := by
  constructor
  · intro h
    unfold level? at h
    split at h
    next r =>
      split at h
      next r' hdrop =>
        cases h
        have htake : r.takeWhile (· == '=') =
            List.replicate (r.takeWhile (· == '=')).length '=' := by
          refine List.eq_replicate_iff.2 ⟨rfl, fun c hc => ?_⟩
          simpa using List.all_eq_true.1 List.all_takeWhile c hc
        refine ⟨r', ?_⟩
        rw [opening, List.cons_append, ← htake, List.append_assoc]
        simpa [hdrop] using (List.takeWhile_append_dropWhile (p := (· == '=')) (l := r)).symm
      next => cases h
    next => cases h
  · rintro ⟨r, rfl⟩
    exact level?_opening level r

theorem closes_iff {level : Nat} {cs : List Char} :
    closes level cs = true ↔ ∃ r, cs = closing level ++ r := by
  rw [closes, List.isPrefixOf_iff_prefix]
  exact exists_congr fun r => eq_comm

/-! ## Bodies -/

/-- Behind a body, its closing bracket is the first one of its level. -/
def First (level : Nat) (body : List Char) : Prop :=
  ∀ a b, body ++ closing level = a ++ (closing level ++ b) → b = []

theorem first_nil (level : Nat) : First level [] := by
  intro a b h
  have hlen := congrArg List.length h
  simp only [List.length_append, List.nil_append] at hlen
  exact List.length_eq_zero_iff.1 (by omega)

/-- Whether a bracket closes here is decided by as many characters as it has. -/
theorem closes_append {level : Nat} {cs : List Char} (h : level + 2 ≤ cs.length) (rest : List Char) :
    closes level (cs ++ rest) = closes level cs := by
  rw [Bool.eq_iff_iff, closes, closes, List.isPrefixOf_iff_prefix, List.isPrefixOf_iff_prefix]
  constructor
  · intro hstarts
    exact List.prefix_of_prefix_length_le hstarts (List.prefix_append cs rest)
      (by rw [length_closing]; exact h)
  · intro hstarts
    exact hstarts.trans (List.prefix_append cs rest)

theorem first_cons {level : Nat} {c : Char} {body : List Char} :
    First level (c :: body) ↔
      closes level (c :: body ++ closing level) = false ∧ First level body := by
  constructor
  · intro h
    constructor
    · rw [← Bool.not_eq_true, closes_iff]
      rintro ⟨b, hb⟩
      have hnil := h [] b hb
      have hlen := congrArg List.length hb
      simp only [hnil, List.length_append, List.length_cons, List.length_nil] at hlen
      omega
    · intro a b hb
      exact h (c :: a) b (by rw [List.cons_append, hb]; rfl)
  · rintro ⟨hc, hbody⟩ a b hb
    cases a with
    | nil =>
      rw [← Bool.not_eq_true, closes_iff] at hc
      exact absurd ⟨b, hb⟩ hc
    | cons x a => exact hbody a b (List.cons.inj hb).2

/-- Two bodies in front of their first closing bracket are one. -/
theorem First.unique {level : Nat} {a b r r' : List Char} (ha : First level a) (hb : First level b)
    (h : a ++ (closing level ++ r) = b ++ (closing level ++ r')) : a = b ∧ r = r' := by
  -- A longer body would have the bracket of the shorter one in it.
  have hlonger (a m r r' : List Char) (ham : First level (a ++ m))
      (h : closing level ++ r = m ++ (closing level ++ r')) : m = [] := by
    have hcloses : closes level (m ++ closing level) = true := by
      rw [← closes_append (by simp [length_closing]) r', List.append_assoc, ← h, closes_iff]
      exact ⟨r, rfl⟩
    obtain ⟨k, hk⟩ := closes_iff.1 hcloses
    have hnil := ham a k (by rw [List.append_assoc, hk])
    rw [hnil, List.append_nil] at hk
    exact List.append_left_eq_self.1 hk
  rcases List.append_eq_append_iff.1 h with ⟨m, rfl, hm⟩ | ⟨m, rfl, hm⟩
  · have hnil := hlonger a m r r' hb hm
    subst hnil
    exact ⟨by simp, List.append_cancel_left hm⟩
  · have hnil := hlonger b m r' r ha hm
    subst hnil
    exact ⟨by simp, (List.append_cancel_left hm).symm⟩

/-! ## Reading -/

/-- What was read of `cs` ends behind the first closing bracket, or there is none and nothing is
left. -/
def Ends (level : Nat) (cs : List Char) (b : Body) : Prop :=
  (b.closed = true ∧ ∃ body, cs = body ++ (closing level ++ b.after.rest) ∧ First level body) ∨
    b.closed = false ∧ b.after.rest = [] ∧ ∀ a r, cs ≠ a ++ (closing level ++ r)

/-- A character at which no bracket closes belongs to the body. -/
theorem Ends.cons {level : Nat} {c : Char} {r : List Char} {b : Body} (h : Ends level r b)
    (hc : closes level (c :: r) = false) : Ends level (c :: r) b := by
  rcases h with ⟨hclosed, body, rfl, hfirst⟩ | ⟨hclosed, hrest, hnone⟩
  · refine .inl ⟨hclosed, c :: body, rfl, first_cons.2 ⟨?_, hfirst⟩⟩
    rw [← closes_append (by simp [length_closing]; omega) b.after.rest]
    simpa using hc
  · refine .inr ⟨hclosed, hrest, fun a r' h => ?_⟩
    cases a with
    | nil =>
      rw [← Bool.not_eq_true, closes_iff] at hc
      exact hc ⟨r', h⟩
    | cons x a => exact hnone a r' (List.cons.inj h).2

theorem closes_cons_of_ne {level : Nat} {c : Char} (hc : c ≠ ']') (r : List Char) :
    closes level (c :: r) = false := by
  rw [← Bool.not_eq_true, closes_iff]
  rintro ⟨b, hb⟩
  exact hc (List.cons.inj hb).1

theorem readFrom_ends (level offset : Nat) (cs : List Char) :
    Ends level cs (readFrom level offset cs) := by
  fun_induction readFrom level offset cs with
  | case1 offset => exact .inr ⟨rfl, rfl, fun a r h => by simp [closing] at h⟩
  | case2 offset c r h =>
    obtain ⟨rest, hrest⟩ := closes_iff.1 h
    refine .inl ⟨rfl, [], ?_, first_nil level⟩
    rw [hrest, Scanner.rest_skip, ← length_closing level, List.drop_left]
    rfl
  | case3 offset r h ih =>
    have hsecond : Ends level ('\n' :: r) (readFrom level (offset + 2) r) :=
      ih.cons (closes_cons_of_ne (by decide) r)
    exact hsecond.cons (by simpa using h)
  | case4 offset r h ih =>
    have hsecond : Ends level ('\r' :: r) (readFrom level (offset + 2) r) :=
      ih.cons (closes_cons_of_ne (by decide) r)
    exact hsecond.cons (by simpa using h)
  | case5 offset r _ h ih => exact Ends.cons ih (by simpa using h)
  | case6 offset r _ h ih => exact Ends.cons ih (by simpa using h)
  | case7 offset c r _ _ _ _ h ih => exact Ends.cons ih (by simpa using h)

/-- A body is read whole, and the line ending in front of it with it. -/
theorem read_ends (level : Nat) (s : Scanner) : Ends level s.rest (read level s) := by
  have h := readFrom_ends level (s.skip (Scanner.lineEnding s.rest)).offset
    (s.skip (Scanner.lineEnding s.rest)).rest
  unfold read
  generalize readFrom level (s.skip (Scanner.lineEnding s.rest)).offset
    (s.skip (Scanner.lineEnding s.rest)).rest = b at h ⊢
  have hcons {c : Char} {r : List Char} (hc : c ≠ ']') (h : Ends level r b) :
      Ends level (c :: r) b :=
    h.cons (closes_cons_of_ne hc r)
  rw [Scanner.rest_skip] at h
  generalize s.rest = cs at h ⊢
  unfold Scanner.lineEnding at h
  split at h
  · exact hcons (by decide) (hcons (by decide) h)
  · exact hcons (by decide) (hcons (by decide) h)
  · exact hcons (by decide) h
  · exact hcons (by decide) h
  · exact h

/-- A body is read to its closing bracket, and what follows is left. -/
theorem read_closing {level : Nat} {body : List Char} (h : First level body) (offset : Nat)
    (rest : List Char) :
    (read level ⟨offset, body ++ (closing level ++ rest)⟩).closed = true ∧
      (read level ⟨offset, body ++ (closing level ++ rest)⟩).after =
        ⟨offset + Text.size body + (level + 2), rest⟩ := by
  have hends := read_ends level ⟨offset, body ++ (closing level ++ rest)⟩
  have hreaches := reaches_read level ⟨offset, body ++ (closing level ++ rest)⟩
  generalize read level ⟨offset, body ++ (closing level ++ rest)⟩ = b at hends hreaches
  rcases hends with ⟨hclosed, body', heq, hfirst⟩ | ⟨-, -, hnone⟩
  · obtain ⟨rfl, hrest⟩ := h.unique hfirst heq
    obtain ⟨cs, hcs, hoffset⟩ := hreaches
    simp only [← hrest, ← List.append_assoc] at hcs
    have hsize := congrArg Text.size (List.append_cancel_right hcs)
    rw [Text.size_append, size_closing] at hsize
    refine ⟨hclosed, ?_⟩
    cases hb : b.after with
    | mk offset' rest' =>
      rw [hb] at hoffset hrest
      simp only at hoffset hrest
      rw [hrest, hoffset, ← hsize, Nat.add_assoc]
  · exact absurd rfl (hnone body rest)

/-- A body without its closing bracket is read to the end of the text. -/
theorem read_open {level : Nat} {body : List Char} (h : ∀ a r, body ≠ a ++ (closing level ++ r))
    (offset : Nat) :
    (read level ⟨offset, body⟩).closed = false ∧
      (read level ⟨offset, body⟩).after = ⟨offset + Text.size body, []⟩ := by
  obtain ⟨cs, hcs, hoffset⟩ := reaches_read level ⟨offset, body⟩
  rcases read_ends level ⟨offset, body⟩ with ⟨-, inner, hinner, -⟩ | ⟨hopen, hrest, -⟩
  · exact absurd hinner (h inner _)
  · rw [hrest, List.append_nil] at hcs
    obtain rfl : body = cs := hcs
    refine ⟨hopen, ?_⟩
    generalize (read level ⟨offset, body⟩).after = after at hrest hoffset
    cases after
    simp_all

end LongBracket
end LuaFront
