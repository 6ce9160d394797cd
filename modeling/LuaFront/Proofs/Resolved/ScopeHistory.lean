import LuaFront.Resolved.Scope
import Mathlib.Data.List.Infix
import Mathlib.Order.Bounds.Basic

/-!
# LuaFront.Proofs.Resolved.ScopeHistory

What is found in the scopes, said on the history of what was done to them and not on the frames.

* `History.Opened h i`: the scope that was opened at the place `i` of the history is open still.
* `History.DoneIn h i j a`: `a` was done at the place `j`, directly in the scope opened at `i`.
* `Lookups.Follow`: what the four lookups have to answer after a history.
* `frames_of_opened`, `opened_of_frames`: the frame that has `k` others inside it describes the
  scope that has `k` others opened and not closed since.
* `after_follow`: so the lookups answer what the history says.
-/

namespace LuaFront
namespace Resolved
namespace Scopes

/-- What can be done to scopes. -/
inductive Act where
  | push (boundary : Bool)
  | pop
  | declare (symbol : Local)
  | mark (label : Label) (start : Nat)
deriving DecidableEq, Repr

def act (s : Scopes) : Act → Scopes
  | .push boundary => s.push boundary
  | .pop => s.pop
  | .declare symbol => s.declareVariable symbol
  | .mark label start => s.declareLabel label start

/-- What was done, the earliest first. -/
abbrev History := List Act

/-- The scopes after a history that began with none. -/
def after (h : History) : Scopes := h.foldl act empty

theorem after_append (h w : History) : after (h ++ w) = w.foldl act (after h) := by
  rw [after, List.foldl_append, after]

theorem after_snoc (h : History) (a : Act) : after (h ++ [a]) = (after h).act a := by
  rw [after_append]; rfl

/-- How many more scopes are open after an act than before it. -/
def Act.rise : Act → Int
  | .push _ => 1
  | .pop => -1
  | .declare _ => 0
  | .mark _ _ => 0

def Act.declares : Act → Bool
  | .push _ => false
  | .pop => false
  | .declare _ => true
  | .mark _ _ => true

namespace History

variable {h w : History} {a : Act} {i j : Nat}

/-! ## Scopes as places of a history -/

def rise : History → Int
  | [] => 0
  | a :: h => a.rise + rise h

@[simp] theorem rise_nil : rise [] = 0 := rfl

@[simp] theorem rise_cons (a : Act) (h : History) : rise (a :: h) = a.rise + rise h := rfl

@[simp] theorem rise_append (h w : History) : rise (h ++ w) = rise h + rise w := by
  induction h with
  | nil => rw [List.nil_append, rise_nil, Int.zero_add]
  | cons a h ih => rw [List.cons_append, rise_cons, rise_cons, ih, Int.add_assoc]

/-- Nothing that was open before is closed. -/
def Inward (h : History) : Prop := ∀ v, v <+: h → 0 ≤ rise v

instance (h : History) : Decidable (Inward h) :=
  decidable_of_iff (∀ v ∈ h.inits, 0 ≤ rise v) (by simp [Inward])

/-- What is opened is closed, and nothing else is. -/
def Level (h : History) : Prop := Inward h ∧ rise h = 0

instance (h : History) : Decidable (Level h) := inferInstanceAs (Decidable (_ ∧ _))

theorem level_nil : Level [] := by
  refine ⟨fun v hv => ?_, rfl⟩
  rw [List.prefix_nil.1 hv, rise_nil]

theorem Inward.append_left (hw : Inward (h ++ w)) : Inward h :=
  fun v hv => hw v (hv.trans (List.prefix_append h w))

theorem Inward.rise_nonneg (hw : Inward h) : 0 ≤ rise h := hw h (List.prefix_refl h)

theorem inward_snoc : Inward (h ++ [a]) ↔ Inward h ∧ 0 ≤ rise h + a.rise := by
  constructor
  · intro hw
    have hall := hw.rise_nonneg
    simp only [rise_append, rise_cons, rise_nil] at hall
    exact ⟨hw.append_left, by omega⟩
  · intro ⟨hw, hall⟩ v hv
    rcases List.prefix_concat_iff.1 hv with rfl | hv
    · simp only [rise_append, rise_cons, rise_nil]
      omega
    · exact hw v hv

/-- How many of the scopes that were opened after the place `i` are open, if the scope opened there
is open itself. -/
def inside (h : History) (i : Nat) : Int := rise (h.drop (i + 1))

/-- A scope was opened at the place `i` and is open still. -/
def Opened (h : History) (i : Nat) : Prop :=
  (∃ boundary, h[i]? = some (.push boundary)) ∧ Inward (h.drop (i + 1))

/-- The scope opened at `i` is open, and a label is searched there: no function body lies between. -/
def Searched (h : History) (i : Nat) : Prop :=
  h.Opened i ∧ ∀ i', i < i' → h.Opened i' → h[i']? ≠ some (.push true)

/-- `a` was done at the place `j`, directly in the scope opened at `i`: what was opened between the
two was closed between the two. -/
def DoneIn (h : History) (i j : Nat) (a : Act) : Prop :=
  i < j ∧ h[j]? = some a ∧ Level ((h.take j).drop (i + 1))

theorem Opened.lt_length (ho : h.Opened i) : i < h.length := by
  obtain ⟨⟨boundary, hi⟩, -⟩ := ho
  exact (List.getElem?_eq_some_iff.1 hi).1

theorem DoneIn.lt_length (hd : h.DoneIn i j a) : j < h.length :=
  (List.getElem?_eq_some_iff.1 hd.2.1).1

theorem DoneIn.act_eq {b : Act} (ha : h.DoneIn i j a) (hb : h.DoneIn i j b) : a = b :=
  Option.some.inj (ha.2.1.symm.trans hb.2.1)

theorem drop_snoc (hi : i < h.length) : (h ++ [a]).drop (i + 1) = h.drop (i + 1) ++ [a] :=
  List.drop_append_of_le_length hi

theorem inside_snoc (hi : i < h.length) : inside (h ++ [a]) i = h.inside i + a.rise := by
  rw [inside, drop_snoc hi, rise_append, rise_cons, rise_nil, inside]
  omega

/-- The scope just opened has none inside it. -/
theorem inside_length : inside (h ++ [a]) h.length = 0 := by
  rw [inside, List.drop_of_length_le (by simp)]
  rfl

theorem Opened.inside_nonneg (ho : h.Opened i) : 0 ≤ h.inside i := ho.2.rise_nonneg

theorem opened_snoc_of_lt (hi : i < h.length) :
    Opened (h ++ [a]) i ↔ h.Opened i ∧ 0 ≤ h.inside i + a.rise := by
  rw [Opened, drop_snoc hi, inward_snoc, List.getElem?_append_left hi, ← and_assoc]
  rfl

theorem opened_snoc : Opened (h ++ [a]) i ↔
    (h.Opened i ∧ 0 ≤ h.inside i + a.rise) ∨ i = h.length ∧ ∃ boundary, a = .push boundary := by
  constructor
  · intro ho
    have hlt := ho.lt_length
    rw [List.length_append, List.length_singleton] at hlt
    rcases Nat.lt_succ_iff_lt_or_eq.1 hlt with hi | rfl
    · exact .inl ((opened_snoc_of_lt hi).1 ho)
    · obtain ⟨⟨boundary, hi⟩, -⟩ := ho
      rw [List.getElem?_concat_length] at hi
      exact .inr ⟨rfl, boundary, Option.some.inj hi⟩
  · rintro (⟨ho, hrise⟩ | ⟨rfl, boundary, rfl⟩)
    · exact (opened_snoc_of_lt ho.lt_length).2 ⟨ho, hrise⟩
    · refine ⟨⟨boundary, List.getElem?_concat_length⟩, ?_⟩
      rw [List.drop_of_length_le (by simp)]
      exact level_nil.1

theorem doneIn_snoc {b : Act} : DoneIn (h ++ [a]) i j b ↔
    h.DoneIn i j b ∨ j = h.length ∧ i < h.length ∧ b = a ∧ Level (h.drop (i + 1)) := by
  constructor
  · intro hd
    have hlt := hd.lt_length
    rw [List.length_append, List.length_singleton] at hlt
    obtain ⟨hij, hj, hlevel⟩ := hd
    rcases Nat.lt_succ_iff_lt_or_eq.1 hlt with hjl | rfl
    · rw [List.getElem?_append_left hjl] at hj
      rw [List.take_append_of_le_length hjl.le] at hlevel
      exact .inl ⟨hij, hj, hlevel⟩
    · rw [List.getElem?_concat_length] at hj
      rw [List.take_left] at hlevel
      exact .inr ⟨rfl, hij, (Option.some.inj hj).symm, hlevel⟩
  · rintro (hd | ⟨rfl, hi, rfl, hlevel⟩)
    · have hjl := hd.lt_length
      obtain ⟨hij, hj, hlevel⟩ := hd
      refine ⟨hij, by rwa [List.getElem?_append_left hjl], ?_⟩
      rwa [List.take_append_of_le_length hjl.le]
    · exact ⟨hi, List.getElem?_concat_length, by rwa [List.take_left]⟩

/-- Of two open scopes the one opened later is inside the other. -/
theorem Opened.inside_lt {i' : Nat} (ho : h.Opened i) (ho' : h.Opened i') (hlt : i < i') :
    h.inside i' < h.inside i := by
  obtain ⟨boundary, hi'⟩ := ho'.1
  obtain ⟨hl, hget⟩ := List.getElem?_eq_some_iff.1 hi'
  have hsplit : h.drop (i + 1) =
      (h.take i').drop (i + 1) ++ .push boundary :: h.drop (i' + 1) := by
    rw [← hget, ← List.drop_eq_getElem_cons hl, ← List.drop_append_of_le_length (by simp; omega),
      List.take_append_drop]
  have hbefore := (hsplit ▸ ho.2).append_left.rise_nonneg
  rw [inside, inside, hsplit, rise_append, rise_cons, Act.rise]
  omega

theorem Opened.eq_of_inside {i' : Nat} (ho : h.Opened i) (ho' : h.Opened i')
    (heq : h.inside i = h.inside i') : i = i' := by
  rcases Nat.lt_trichotomy i i' with hlt | rfl | hlt
  · have := ho.inside_lt ho' hlt
    omega
  · rfl
  · have := ho'.inside_lt ho hlt
    omega

theorem Opened.lt_iff {i' : Nat} (ho : h.Opened i) (ho' : h.Opened i') :
    i < i' ↔ h.inside i' < h.inside i := by
  constructor
  · exact ho.inside_lt ho'
  · intro hlt
    by_contra hge
    rcases Nat.eq_or_lt_of_le (Nat.le_of_not_lt hge) with rfl | hback
    · omega
    · have := ho'.inside_lt ho hback
      omega

/-! ## Items in the order of their places -/

section Listed

variable {α : Type} {R : Nat → Nat → Prop} {P Q : Nat → α → Prop} {xs : List α}

/-- `xs` are the items for which `P` holds at some place, with their places ordered by `R`. -/
def Listed (R : Nat → Nat → Prop) (P : Nat → α → Prop) (xs : List α) : Prop :=
  ∃ ps : List (Nat × α), ps.map Prod.snd = xs ∧ ps.Pairwise (fun a b => R a.1 b.1) ∧
    ∀ j x, (j, x) ∈ ps ↔ P j x

theorem Listed.nil (hP : ∀ j x, ¬ P j x) : Listed R P [] :=
  ⟨[], rfl, .nil, fun j x => by simp [hP]⟩

theorem Listed.congr (hl : Listed R P xs) (hPQ : ∀ j x, Q j x ↔ P j x) : Listed R Q xs := by
  obtain ⟨ps, hxs, hsorted, hps⟩ := hl
  exact ⟨ps, hxs, hsorted, fun j x => (hps j x).trans (hPQ j x).symm⟩

theorem Listed.mem (hl : Listed R P xs) (x : α) : x ∈ xs ↔ ∃ j, P j x := by
  obtain ⟨ps, rfl, -, hps⟩ := hl
  simp [← hps]

/-- One more item, behind all the others. -/
theorem Listed.snoc {n : Nat} {y : α} (hl : Listed R P xs) (hn : ∀ j x, P j x → R j n)
    (hQ : ∀ j x, Q j x ↔ P j x ∨ j = n ∧ x = y) : Listed R Q (xs ++ [y]) := by
  obtain ⟨ps, rfl, hsorted, hps⟩ := hl
  refine ⟨ps ++ [(n, y)], by simp, ?_, fun j x => by simp [hQ, hps]⟩
  rw [List.pairwise_append]
  refine ⟨hsorted, List.pairwise_singleton _ _, ?_⟩
  rintro ⟨j, x⟩ hmem b hb
  rw [List.mem_singleton.1 hb]
  exact hn j x ((hps j x).1 hmem)

/-- One more item, in front of all the others. -/
theorem Listed.cons {n : Nat} {y : α} (hl : Listed R P xs) (hn : ∀ j x, P j x → R n j)
    (hQ : ∀ j x, Q j x ↔ P j x ∨ j = n ∧ x = y) : Listed R Q (y :: xs) := by
  obtain ⟨ps, rfl, hsorted, hps⟩ := hl
  refine ⟨(n, y) :: ps, rfl, ?_, fun j x => by simp [hQ, hps, or_comm]⟩
  rw [List.pairwise_cons]
  refine ⟨?_, hsorted⟩
  rintro ⟨j, x⟩ hmem
  exact hn j x ((hps j x).1 hmem)

theorem Listed.find?_eq_none (hl : Listed R P xs) (p : α → Bool) :
    xs.find? p = none ↔ ∀ j x, P j x → p x = false := by
  rw [List.find?_eq_none]
  constructor
  · intro hnone j x hP
    exact Bool.eq_false_iff.2 (hnone x ((hl.mem x).2 ⟨j, hP⟩))
  · intro hnone x hmem
    obtain ⟨j, hP⟩ := (hl.mem x).1 hmem
    exact Bool.eq_false_iff.1 (hnone j x hP)

/-- What is found first has its place before all others that could have been found. -/
theorem Listed.place_of_find? (hl : Listed R P xs) {p : α → Bool} {x : α}
    (hfind : xs.find? p = some x) :
    p x ∧ ∃ j, P j x ∧ ∀ j' y, P j' y → p y → j' = j ∨ R j j' := by
  obtain ⟨ps, rfl, hsorted, hps⟩ := hl
  rw [List.find?_map, Option.map_eq_some_iff] at hfind
  obtain ⟨⟨j, x'⟩, hfind, rfl⟩ := hfind
  obtain ⟨hp, before, behind, rfl, hbefore⟩ := List.find?_eq_some_iff_append.1 hfind
  refine ⟨hp, j, (hps j x').1 (by simp), fun j' y hP hy => ?_⟩
  have hmem := (hps j' y).2 hP
  rw [List.mem_append, List.mem_cons] at hmem
  rcases hmem with hmem | heq | hmem
  · simpa [hy] using hbefore _ hmem
  · exact .inl (Prod.mk.inj heq).1
  · have hlater := (List.pairwise_append.1 hsorted).2.1
    exact .inr ((List.pairwise_cons.1 hlater).1 _ hmem)

theorem Listed.find?_eq_some [Std.Asymm R] (hl : Listed R P xs)
    (hP : ∀ j x y, P j x → P j y → x = y) {p : α → Bool} {x : α} :
    xs.find? p = some x ↔ p x ∧ ∃ j, P j x ∧ ∀ j' y, P j' y → p y → j' = j ∨ R j j' := by
  refine ⟨hl.place_of_find?, fun ⟨hx, j, hj, hfirst⟩ => ?_⟩
  cases hfind : xs.find? p with
  | none => simp [(hl.find?_eq_none p).1 hfind j x hj] at hx
  | some y =>
    obtain ⟨hy, j', hj', hfirst'⟩ := hl.place_of_find? hfind
    have heq : j' = j := by
      rcases hfirst j' y hj' hy with heq | hlt
      · exact heq
      · rcases hfirst' j x hj hx with heq | hgt
        · exact heq.symm
        · exact absurd hgt (Std.Asymm.asymm _ _ hlt)
    rw [hP j x y hj (heq ▸ hj')]

end Listed

/-! ## Frames -/

/-- The frame holds what was declared directly in the scope opened at `i`. -/
structure Describes (h : History) (i : Nat) (f : Frame) : Prop where
  boundary : h[i]? = some (.push f.boundary)
  symbols : Listed (· > ·) (fun j x => h.DoneIn i j (.declare x)) f.symbols
  labels : Listed (· < ·) (fun j l => h.DoneIn i j (.mark l.label l.start)) f.labels

namespace Describes

variable {f : Frame}

theorem lt_length (hf : h.Describes i f) : i < h.length :=
  (List.getElem?_eq_some_iff.1 hf.boundary).1

theorem boundary_snoc (hf : h.Describes i f) : (h ++ [a])[i]? = some (.push f.boundary) := by
  rw [List.getElem?_append_left hf.lt_length, hf.boundary]

/-- The frame of a scope just opened is empty. -/
theorem opened (h : History) (boundary : Bool) :
    Describes (h ++ [.push boundary]) h.length ⟨[], [], boundary⟩ := by
  have hnothing : ∀ j a, ¬ DoneIn (h ++ [.push boundary]) h.length j a := by
    intro j a hd
    have hlt := hd.lt_length
    rw [List.length_append, List.length_singleton] at hlt
    have := hd.1
    omega
  exact ⟨List.getElem?_concat_length, .nil fun j x => hnothing j _, .nil fun j l => hnothing j _⟩

/-- What is done inside another scope, or is no declaration, leaves the frame as it is. -/
theorem snoc (hf : h.Describes i f) (ha : a.declares = true → ¬ Level (h.drop (i + 1))) :
    Describes (h ++ [a]) i f := by
  refine ⟨hf.boundary_snoc, hf.symbols.congr fun j x => ?_, hf.labels.congr fun j l => ?_⟩
  · rw [doneIn_snoc, or_iff_left]
    rintro ⟨-, -, rfl, hlevel⟩
    exact ha rfl hlevel
  · rw [doneIn_snoc, or_iff_left]
    rintro ⟨-, -, rfl, hlevel⟩
    exact ha rfl hlevel

theorem declare (hf : h.Describes i f) (hlevel : Level (h.drop (i + 1))) (x : Local) :
    Describes (h ++ [.declare x]) i { f with symbols := x :: f.symbols } := by
  refine ⟨hf.boundary_snoc, hf.symbols.cons (fun j y => DoneIn.lt_length) fun j y => ?_,
    hf.labels.congr fun j l => ?_⟩
  · simp [doneIn_snoc, hlevel, hf.lt_length]
  · simp [doneIn_snoc]

theorem mark (hf : h.Describes i f) (hlevel : Level (h.drop (i + 1))) (l : Label) (start : Nat) :
    Describes (h ++ [.mark l start]) i { f with labels := f.labels ++ [⟨l, start⟩] } := by
  refine ⟨hf.boundary_snoc, hf.symbols.congr fun j y => ?_,
    hf.labels.snoc (fun j y => DoneIn.lt_length) fun j y => ?_⟩
  · simp [doneIn_snoc]
  · obtain ⟨label, n⟩ := y
    simp [doneIn_snoc, hlevel, hf.lt_length]

end Describes

/-- `f` is the frame of the open scope opened at `i`, which has `k` others inside it. -/
structure Shows (h : History) (i : Nat) (k : Int) (f : Frame) : Prop where
  opened : h.Opened i
  inside : h.inside i = k
  describes : h.Describes i f

theorem Shows.level {f : Frame} (hs : h.Shows i 0 f) : Level (h.drop (i + 1)) :=
  ⟨hs.opened.2, hs.inside⟩

/-- The frames of the scopes further out stay as they are. -/
theorem Shows.snoc {k : Int} {f : Frame} (hs : h.Shows i k f) (hk : 0 ≤ k + a.rise)
    (ha : a.declares = true → k ≠ 0) : Shows (h ++ [a]) i (k + a.rise) f := by
  have hi := hs.opened.lt_length
  refine ⟨(opened_snoc_of_lt hi).2 ⟨hs.opened, hs.inside ▸ hk⟩, ?_, ?_⟩
  · rw [inside_snoc hi, hs.inside]
  · exact hs.describes.snoc fun hdecl hlevel => ha hdecl (hs.inside ▸ hlevel.2)

end History

theorem frames_modifyInnermost (s : Scopes) (change : Frame → Frame) (k : Nat) :
    (s.modifyInnermost change).frames[k]? =
      if k = 0 then s.frames[0]?.map change else s.frames[k]? := by
  obtain ⟨frames⟩ := s
  cases frames with
  | nil => cases k <;> rfl
  | cons f outer => cases k <;> rfl

theorem length_act (s : Scopes) (a : Act) :
    (s.frames.length : Int) + a.rise ≤ (s.act a).frames.length := by
  obtain ⟨frames⟩ := s
  cases a <;> cases frames <;>
    (simp [act, push, pop, declareVariable, declareLabel, modifyInnermost, Act.rise]; try omega)

open History

variable {h : History} {a : Act} {f : Frame} {k : Nat}

/-- A declaration changes the innermost frame alone. -/
theorem opened_of_modifyInnermost {s : Scopes} {change : Frame → Frame} (hrise : a.rise = 0)
    (hs : ∀ {k : Nat} {f}, s.frames[k]? = some f → ∃ i, h.Shows i k f)
    (hchange : ∀ i f, h.Shows i 0 f → Describes (h ++ [a]) i (change f))
    (hf : (s.modifyInnermost change).frames[k]? = some f) : ∃ i, Shows (h ++ [a]) i k f := by
  rw [frames_modifyInnermost] at hf
  by_cases hk : k = 0
  · rw [if_pos hk, Option.map_eq_some_iff] at hf
    obtain ⟨f, hf, rfl⟩ := hf
    obtain ⟨i, hshows⟩ := hs hf
    have hi := hshows.opened.lt_length
    have hinside : inside (h ++ [a]) i = 0 := by
      rw [inside_snoc hi, hshows.inside, hrise]
      rfl
    refine ⟨i, (opened_snoc_of_lt hi).2 ⟨hshows.opened, ?_⟩, ?_, hchange i f hshows⟩
    · rw [← inside_snoc hi, hinside]
    · rw [hinside, hk]
      rfl
  · rw [if_neg hk] at hf
    obtain ⟨i, hshows⟩ := hs hf
    have hsnoc := hshows.snoc (a := a) (by omega) (fun _ => by omega)
    exact ⟨i, by simpa [hrise] using hsnoc⟩

/-- By induction on the history: a declaration changes the innermost frame, and each frame moves one
place when a scope is opened or closed. -/
theorem opened_of_frames (h : History) :
    ∀ {k : Nat} {f}, (after h).frames[k]? = some f → ∃ i, h.Shows i k f := by
  induction h using List.reverseRecOn with
  | nil => intro k f hf; cases hf
  | append_singleton h a ih =>
    intro k f hf
    rw [after_snoc] at hf
    cases a with
    | push boundary =>
      cases k with
      | zero =>
        cases hf
        exact ⟨h.length, opened_snoc.2 (.inr ⟨rfl, boundary, rfl⟩), inside_length,
          .opened h boundary⟩
      | succ k =>
        obtain ⟨i, hs⟩ := ih hf
        have hrise : 0 ≤ (k : Int) + (Act.push boundary).rise := by
          rw [Act.rise]
          omega
        exact ⟨i, hs.snoc (a := .push boundary) hrise nofun⟩
    | pop =>
      rw [act, pop, List.getElem?_tail] at hf
      obtain ⟨i, hs⟩ := ih hf
      have hone : ((k + 1 : Nat) : Int) + Act.pop.rise = k := by
        rw [Act.rise]
        omega
      exact ⟨i, hone ▸ hs.snoc (a := .pop) (by omega) nofun⟩
    | declare x =>
      exact opened_of_modifyInnermost rfl ih (fun i f hs => hs.describes.declare hs.level x) hf
    | mark l start =>
      exact opened_of_modifyInnermost rfl ih (fun i f hs => hs.describes.mark hs.level l start) hf

theorem inside_lt_length (h : History) :
    ∀ {i}, h.Opened i → h.inside i < (after h).frames.length := by
  induction h using List.reverseRecOn with
  | nil =>
    intro i ho
    exact absurd ho.lt_length (Nat.not_lt_zero i)
  | append_singleton h a ih =>
    intro i ho
    have hlength := length_act (after h) a
    rw [after_snoc]
    rcases opened_snoc.1 ho with ⟨hold, hrise⟩ | ⟨rfl, boundary, rfl⟩
    · have := ih hold
      rw [inside_snoc hold.lt_length]
      omega
    · rw [inside_length, act, push]
      exact Int.natCast_pos.2 (Nat.succ_pos _)

theorem frames_of_opened {i : Nat} (ho : h.Opened i) :
    ∃ (k : Nat) (f : Frame), (after h).frames[k]? = some f ∧ h.Shows i k f := by
  obtain ⟨k, hk⟩ := Int.eq_ofNat_of_zero_le ho.inside_nonneg
  have hlt : k < (after h).frames.length := by
    have := inside_lt_length h ho
    omega
  obtain ⟨i', hs⟩ := opened_of_frames h (List.getElem?_eq_getElem hlt)
  have heq : i' = i := hs.opened.eq_of_inside ho (hs.inside.trans hk.symm)
  exact ⟨k, _, List.getElem?_eq_getElem hlt, heq ▸ hs⟩

/-! ## Frames found in order -/

/-- The frames are those of the open scopes for which `O` holds, each at the place that says how
many are inside it. -/
structure Cover (h : History) (O : Nat → Prop) (frames : List Frame) : Prop where
  place : ∀ {k : Nat} {f}, frames[k]? = some f → ∃ i, O i ∧ h.Shows i k f
  frame : ∀ {i}, O i → ∃ (k : Nat) (f : Frame), frames[k]? = some f ∧ h.Shows i k f

theorem History.Shows.lt_iff {i i' k' : Nat} {f' : Frame} (hs : h.Shows i k f)
    (hs' : h.Shows i' k' f') : i < i' ↔ k' < k := by
  rw [hs.opened.lt_iff hs'.opened, hs.inside, hs'.inside]
  omega

theorem cover_frames (h : History) : Cover h h.Opened (after h).frames where
  place hf := by
    obtain ⟨i, hs⟩ := opened_of_frames h hf
    exact ⟨i, hs.opened, hs⟩
  frame := frames_of_opened

theorem getElem?_upToBoundary (frames : List Frame) (k : Nat) (f : Frame) :
    (upToBoundary frames)[k]? = some f ↔ frames[k]? = some f ∧
      ∀ (k' : Nat) (f' : Frame), k' < k → frames[k']? = some f' → f'.boundary = false := by
  induction frames generalizing k with
  | nil => simp [upToBoundary]
  | cons g outer ih =>
    rw [upToBoundary]
    cases k with
    | zero => split <;> simp
    | succ k =>
      rw [List.getElem?_cons_succ]
      split
      next hb =>
        refine ⟨nofun, fun ⟨_, hnone⟩ => ?_⟩
        have := hnone 0 g (Nat.succ_pos k) rfl
        rw [hb] at this
        cases this
      next hb =>
        rw [List.getElem?_cons_succ, ih]
        refine and_congr_right fun _ => ⟨fun hnone k' f' hlt hf' => ?_, fun hnone k' f' hlt => ?_⟩
        · cases k' with
          | zero => cases hf'; simpa using hb
          | succ k' => exact hnone k' f' (Nat.lt_of_succ_lt_succ hlt) hf'
        · exact hnone (k' + 1) f' (Nat.succ_lt_succ hlt)

theorem cover_labelFrames (h : History) : Cover h h.Searched (after h).labelFrames where
  place := by
    intro k f hf
    obtain ⟨hf, hnone⟩ := (getElem?_upToBoundary _ _ _).1 hf
    obtain ⟨i, hs⟩ := opened_of_frames h hf
    refine ⟨i, ⟨hs.opened, fun i' hlt ho' hboundary => ?_⟩, hs⟩
    obtain ⟨k', f', hf', hs'⟩ := frames_of_opened ho'
    have hfalse := hnone k' f' ((hs.lt_iff hs').1 hlt) hf'
    rw [hs'.describes.boundary, hfalse] at hboundary
    cases hboundary
  frame := by
    intro i ⟨ho, hnone⟩
    obtain ⟨k, f, hf, hs⟩ := frames_of_opened ho
    refine ⟨k, f, (getElem?_upToBoundary _ _ _).2 ⟨hf, fun k' f' hlt hf' => ?_⟩, hs⟩
    obtain ⟨i', hs'⟩ := opened_of_frames h hf'
    have hnot := hnone i' ((hs.lt_iff hs').2 hlt) hs'.opened
    rw [hs'.describes.boundary] at hnot
    simpa using hnot

namespace Cover

variable {β : Type} {O N : Nat → Prop} {G : Nat → β → Prop} {g : Frame → Option β}
  {frames : List Frame}

theorem findSome?_eq_none (hc : Cover h O frames)
    (hnone : ∀ i f, h.Describes i f → (g f = none ↔ ¬ N i)) :
    frames.findSome? g = none ↔ ∀ i, O i → ¬ N i := by
  rw [List.findSome?_eq_none_iff]
  constructor
  · intro hall i hO
    obtain ⟨k, f, hf, hs⟩ := hc.frame hO
    exact (hnone i f hs.describes).1 (hall f (List.mem_of_getElem? hf))
  · intro hall f hmem
    obtain ⟨k, hf⟩ := List.mem_iff_getElem?.1 hmem
    obtain ⟨i, hO, hs⟩ := hc.place hf
    exact (hnone i f hs.describes).2 (hall i hO)

/-- What is found first is found in the innermost scope that has something to find. -/
theorem place_of_findSome? (hc : Cover h O frames)
    (hnone : ∀ i f, h.Describes i f → (g f = none ↔ ¬ N i))
    (hsome : ∀ i f, h.Describes i f → ∀ y, g f = some y ↔ G i y) (y : β)
    (hfind : frames.findSome? g = some y) : ∃ i, IsGreatest {i | O i ∧ N i} i ∧ G i y := by
  obtain ⟨within, f, outer, rfl, hg, hwithin⟩ := List.findSome?_eq_some_iff.1 hfind
  have hf : (within ++ f :: outer)[within.length]? = some f := by simp
  obtain ⟨i, hO, hs⟩ := hc.place hf
  have hN : N i := by
    by_contra hN
    rw [(hnone i f hs.describes).2 hN] at hg
    cases hg
  refine ⟨i, ⟨⟨hO, hN⟩, fun i' ⟨hO', hN'⟩ => ?_⟩, (hsome i f hs.describes y).1 hg⟩
  by_contra hlt
  obtain ⟨k', f', hf', hs'⟩ := hc.frame hO'
  have hk : k' < within.length := (hs.lt_iff hs').1 (Nat.lt_of_not_le hlt)
  rw [List.getElem?_append_left hk] at hf'
  exact (hnone i' f' hs'.describes).1 (hwithin f' (List.mem_of_getElem? hf')) hN'

theorem findSome?_eq_some (hc : Cover h O frames)
    (hnone : ∀ i f, h.Describes i f → (g f = none ↔ ¬ N i))
    (hsome : ∀ i f, h.Describes i f → ∀ y, g f = some y ↔ G i y) (y : β) :
    frames.findSome? g = some y ↔ ∃ i, IsGreatest {i | O i ∧ N i} i ∧ G i y := by
  refine ⟨hc.place_of_findSome? hnone hsome y, fun ⟨i, hi, hG⟩ => ?_⟩
  cases hfind : frames.findSome? g with
  | none => exact absurd hi.1.2 ((hc.findSome?_eq_none hnone).1 hfind i hi.1.1)
  | some y' =>
    obtain ⟨i', hi', hG'⟩ := hc.place_of_findSome? hnone hsome y' hfind
    obtain ⟨k, f, -, hs⟩ := hc.frame hi.1.1
    rw [← hi.unique hi'] at hG'
    exact ((hsome i f hs.describes y').2 hG').symm.trans ((hsome i f hs.describes y).2 hG)

theorem any_iff (hc : Cover h O frames) {p : Frame → Bool}
    (hp : ∀ i f, h.Describes i f → (p f = true ↔ N i)) :
    frames.any p = true ↔ ∃ i, O i ∧ N i := by
  rw [List.any_eq_true]
  constructor
  · intro ⟨f, hmem, hpf⟩
    obtain ⟨k, hf⟩ := List.mem_iff_getElem?.1 hmem
    obtain ⟨i, hO, hs⟩ := hc.place hf
    exact ⟨i, hO, (hp i f hs.describes).1 hpf⟩
  · intro ⟨i, hO, hN⟩
    obtain ⟨k, f, hf, hs⟩ := hc.frame hO
    exact ⟨f, List.mem_of_getElem? hf, (hp i f hs.describes).2 hN⟩

end Cover

/-! ## Looking up -/

/-- What can be asked of scopes. -/
structure Lookups where
  symbol? : String → Option Local
  label? : String → Option Label
  clashes : String → Nat → Bool
  localLabel? : Nat → Option Label

def lookups (s : Scopes) : Lookups where
  symbol? := s.lookupVariable?
  label? := s.lookupLabel?
  clashes := s.labelClashes
  localLabel? := s.localLabel?

namespace History

/-- A variable of the name is declared at `j`, directly in the scope opened at `i`. -/
def VariableAt (h : History) (i j : Nat) (name : String) : Prop :=
  ∃ x, h.DoneIn i j (.declare x) ∧ x.name = name

/-- A label of the name is declared at `j`, directly in the scope opened at `i`. -/
def LabelAt (h : History) (i j : Nat) (name : String) : Prop :=
  ∃ l start, h.DoneIn i j (.mark l start) ∧ l.name = name

end History

/-- The answers are those that the history asks for. -/
structure Lookups.Follow (q : Lookups) (h : History) : Prop where
  /-- The latest variable of the name, in the innermost open scope that has one. -/
  symbol_some : ∀ name x, q.symbol? name = some x ↔
    ∃ i, IsGreatest {i | h.Opened i ∧ ∃ j, h.VariableAt i j name} i ∧
      ∃ j, IsGreatest {j | h.VariableAt i j name} j ∧ h[j]? = some (.declare x)
  symbol_none : ∀ name, q.symbol? name = none ↔
    ∀ i, h.Opened i → ¬ ∃ j, h.VariableAt i j name
  /-- The first label of the name, in the innermost scope that has one of those searched. -/
  label_some : ∀ name l, q.label? name = some l ↔
    ∃ i, IsGreatest {i | h.Searched i ∧ ∃ j, h.LabelAt i j name} i ∧
      ∃ j, IsLeast {j | h.LabelAt i j name} j ∧ ∃ start, h[j]? = some (.mark l start)
  label_none : ∀ name, q.label? name = none ↔ ∀ i, h.Searched i → ¬ ∃ j, h.LabelAt i j name
  /-- A label of the name that starts before, in one of the scopes searched. -/
  clashes : ∀ name start, q.clashes name start = true ↔
    ∃ i, h.Searched i ∧ ∃ j l n, h.DoneIn i j (.mark l n) ∧ n < start ∧ l.name = name
  /-- The first label at the offset in the innermost open scope, and in no other. -/
  local_some : ∀ start l, q.localLabel? start = some l ↔
    ∃ i, IsGreatest {i | h.Opened i} i ∧
      ∃ j, IsLeast {j | ∃ l, h.DoneIn i j (.mark l start)} j ∧ h[j]? = some (.mark l start)
  local_none : ∀ start, q.localLabel? start = none ↔
    ∀ i, IsGreatest {i | h.Opened i} i → ¬ ∃ j l, h.DoneIn i j (.mark l start)

namespace History

theorem Describes.symbol?_eq_some {i : Nat} (hf : h.Describes i f) (name : String) (x : Local) :
    f.symbol? name = some x ↔
      ∃ j, IsGreatest {j | h.VariableAt i j name} j ∧ h[j]? = some (.declare x) := by
  rw [Frame.symbol?, hf.symbols.find?_eq_some fun j x y hx hy => by cases hx.act_eq hy; rfl]
  constructor
  · intro ⟨hname, j, hd, hfirst⟩
    refine ⟨j, ⟨⟨x, hd, by simpa using hname⟩, fun j' ⟨y, hd', hy⟩ => ?_⟩, hd.2.1⟩
    rcases hfirst j' y hd' (by simpa using hy) with rfl | hlt
    · exact Nat.le_refl j'
    · exact Nat.le_of_lt hlt
  · intro ⟨j, ⟨⟨y, hd, hname⟩, hlast⟩, hj⟩
    obtain rfl : y = x := by
      have := hd.2.1.symm.trans hj
      cases this
      rfl
    refine ⟨by simpa using hname, j, hd, fun j' z hd' hz => ?_⟩
    exact (Nat.eq_or_lt_of_le (hlast ⟨z, hd', by simpa using hz⟩)).imp id id

theorem Describes.symbol?_eq_none {i : Nat} (hf : h.Describes i f) (name : String) :
    f.symbol? name = none ↔ ¬ ∃ j, h.VariableAt i j name := by
  rw [Frame.symbol?, hf.symbols.find?_eq_none]
  simp only [VariableAt, decide_eq_false_iff_not, not_exists, not_and]

/-- The first label for which `p` holds. -/
theorem Describes.find?_labels {i : Nat} (hf : h.Describes i f) (p : PlacedLabel → Bool)
    (l : Label) (start : Nat) :
    f.labels.find? p = some ⟨l, start⟩ ↔
      ∃ j, IsLeast {j | ∃ l n, h.DoneIn i j (.mark l n) ∧ p ⟨l, n⟩ = true} j ∧
        h[j]? = some (.mark l start) := by
  rw [hf.labels.find?_eq_some fun j x y hx hy => by
    obtain ⟨l, n⟩ := x
    obtain ⟨l', n'⟩ := y
    cases hx.act_eq hy
    rfl]
  constructor
  · intro ⟨hp, j, hd, hfirst⟩
    refine ⟨j, ⟨⟨l, start, hd, hp⟩, fun j' ⟨l', n', hd', hp'⟩ => ?_⟩, hd.2.1⟩
    rcases hfirst j' ⟨l', n'⟩ hd' hp' with rfl | hlt
    · exact Nat.le_refl j'
    · exact Nat.le_of_lt hlt
  · intro ⟨j, ⟨⟨l', n', hd, hp⟩, hleast⟩, hj⟩
    have hsame := hd.2.1.symm.trans hj
    cases hsame
    refine ⟨hp, j, hd, fun j' x hd' hx => ?_⟩
    exact (Nat.eq_or_lt_of_le (hleast ⟨x.label, x.start, hd', hx⟩)).imp Eq.symm id

theorem Describes.find?_labels_eq_none {i : Nat} (hf : h.Describes i f) (p : PlacedLabel → Bool) :
    f.labels.find? p = none ↔ ∀ j l n, h.DoneIn i j (.mark l n) → p ⟨l, n⟩ = false := by
  rw [hf.labels.find?_eq_none]
  exact ⟨fun hnone j l n => hnone j ⟨l, n⟩, fun hnone j x => hnone j x.label x.start⟩

theorem Describes.label?_eq_some {i : Nat} (hf : h.Describes i f) (name : String) (l : Label) :
    f.label? name = some l ↔
      ∃ j, IsLeast {j | h.LabelAt i j name} j ∧ ∃ start, h[j]? = some (.mark l start) := by
  have hfind := hf.find?_labels (fun x => decide (x.label.name = name)) l
  simp only [decide_eq_true_eq] at hfind
  rw [Frame.label?, Option.map_eq_some_iff]
  constructor
  · rintro ⟨⟨l, start⟩, hx, rfl⟩
    obtain ⟨j, hj, hget⟩ := (hfind start).1 hx
    exact ⟨j, hj, start, hget⟩
  · rintro ⟨j, hj, start, hget⟩
    exact ⟨⟨l, start⟩, (hfind start).2 ⟨j, hj, hget⟩, rfl⟩

theorem Describes.label?_eq_none {i : Nat} (hf : h.Describes i f) (name : String) :
    f.label? name = none ↔ ¬ ∃ j, h.LabelAt i j name := by
  rw [Frame.label?, Option.map_eq_none_iff, hf.find?_labels_eq_none]
  simp only [LabelAt, decide_eq_false_iff_not, not_exists, not_and]

theorem Describes.any_labels {i : Nat} (hf : h.Describes i f) (name : String) (start : Nat) :
    (f.labels.any fun l => l.start < start && l.label.name == name) = true ↔
      ∃ j l n, h.DoneIn i j (.mark l n) ∧ n < start ∧ l.name = name := by
  rw [List.any_eq_true]
  constructor
  · rintro ⟨⟨l, n⟩, hmem, hp⟩
    obtain ⟨j, hd⟩ := (hf.labels.mem _).1 hmem
    exact ⟨j, l, n, hd, by simpa using hp⟩
  · rintro ⟨j, l, n, hd, hp⟩
    exact ⟨⟨l, n⟩, (hf.labels.mem _).2 ⟨j, hd⟩, by simpa using hp⟩

/-- The innermost scope is the one with no other inside it. -/
theorem isGreatest_opened {i : Nat} :
    IsGreatest {i | h.Opened i} i ↔ ∃ f, (after h).frames.head? = some f ∧ h.Shows i 0 f := by
  rw [List.head?_eq_getElem?]
  constructor
  · intro ⟨ho, hmax⟩
    obtain ⟨k, f, hf, hs⟩ := frames_of_opened ho
    cases k with
    | zero => exact ⟨f, hf, hs⟩
    | succ k =>
      have hlt := (List.getElem?_eq_some_iff.1 hf).1
      obtain ⟨i', hs'⟩ := opened_of_frames h (List.getElem?_eq_getElem (Nat.lt_of_succ_lt hlt))
      have := hmax hs'.opened
      have := (hs.lt_iff hs').2 (Nat.lt_succ_self k)
      omega
  · intro ⟨f, hf, hs⟩
    refine ⟨hs.opened, fun i' ho' => ?_⟩
    have hnonneg := ho'.inside_nonneg
    by_contra hlt
    have := hs.opened.inside_lt ho' (Nat.lt_of_not_le hlt)
    rw [hs.inside] at this
    omega

end History

theorem localLabel?_eq_map (s : Scopes) (start : Nat) : s.localLabel? start =
    s.frames.head?.bind fun f => (f.labels.find? (·.start = start)).map PlacedLabel.label := by
  obtain ⟨frames⟩ := s
  cases frames with
  | nil => rfl
  | cons f outer =>
    simp only [localLabel?, List.head?_cons, Option.bind_eq_bind, Option.bind_some]
    cases f.labels.find? (·.start = start) <;> rfl

theorem localLabel?_after_eq_some (h : History) (start : Nat) (l : Label) :
    (after h).localLabel? start = some l ↔ ∃ i, IsGreatest {i | h.Opened i} i ∧
      ∃ j, IsLeast {j | ∃ l, h.DoneIn i j (.mark l start)} j ∧ h[j]? = some (.mark l start) := by
  have hplaces : ∀ i, {j | ∃ l n, h.DoneIn i j (.mark l n) ∧ decide (n = start) = true} =
      {j | ∃ l, h.DoneIn i j (.mark l start)} := by
    intro i
    ext j
    simp
  rw [localLabel?_eq_map, Option.bind_eq_some_iff]
  constructor
  · rintro ⟨f, hf, hmap⟩
    obtain ⟨⟨l, n⟩, hfind, rfl⟩ := Option.map_eq_some_iff.1 hmap
    obtain rfl : n = start := by simpa using List.find?_some hfind
    rw [List.head?_eq_getElem?] at hf
    obtain ⟨i, hs⟩ := opened_of_frames h hf
    refine ⟨i, isGreatest_opened.2 ⟨f, by rwa [List.head?_eq_getElem?], hs⟩, ?_⟩
    rw [hs.describes.find?_labels, hplaces] at hfind
    exact hfind
  · rintro ⟨i, hi, hj⟩
    obtain ⟨f, hf, hs⟩ := isGreatest_opened.1 hi
    refine ⟨f, hf, Option.map_eq_some_iff.2 ⟨⟨l, start⟩, ?_, rfl⟩⟩
    rw [hs.describes.find?_labels, hplaces]
    exact hj

theorem localLabel?_after_eq_none (h : History) (start : Nat) :
    (after h).localLabel? start = none ↔
      ∀ i, IsGreatest {i | h.Opened i} i → ¬ ∃ j l, h.DoneIn i j (.mark l start) := by
  rw [localLabel?_eq_map, Option.bind_eq_none_iff]
  constructor
  · rintro hnone i hi ⟨j, l, hd⟩
    obtain ⟨f, hf, hs⟩ := isGreatest_opened.1 hi
    have hfind := Option.map_eq_none_iff.1 (hnone f hf)
    simpa using hs.describes.find?_labels_eq_none _ |>.1 hfind j l start hd
  · intro hnone f hf
    rw [List.head?_eq_getElem?] at hf
    obtain ⟨i, hs⟩ := opened_of_frames h hf
    have hi := isGreatest_opened.2 ⟨f, by rwa [List.head?_eq_getElem?], hs⟩
    rw [Option.map_eq_none_iff, hs.describes.find?_labels_eq_none]
    intro j l n hd
    rw [decide_eq_false_iff_not]
    rintro rfl
    exact hnone i hi ⟨j, l, hd⟩

/-- The lookups answer what the history asks for. -/
theorem after_follow (h : History) : (after h).lookups.Follow h where
  symbol_some name :=
    (cover_frames h).findSome?_eq_some (fun _ _ hf => hf.symbol?_eq_none name)
      fun _ _ hf => hf.symbol?_eq_some name
  symbol_none name :=
    (cover_frames h).findSome?_eq_none fun _ _ hf => hf.symbol?_eq_none name
  label_some name :=
    (cover_labelFrames h).findSome?_eq_some (fun _ _ hf => hf.label?_eq_none name)
      fun _ _ hf => hf.label?_eq_some name
  label_none name :=
    (cover_labelFrames h).findSome?_eq_none fun _ _ hf => hf.label?_eq_none name
  clashes name start :=
    (cover_labelFrames h).any_iff fun _ _ hf => hf.any_labels name start
  local_some := localLabel?_after_eq_some h
  local_none := localLabel?_after_eq_none h

/-! ## Closing a scope again -/

theorem exists_frames_modifyInnermost {inner : List Frame} (hne : inner ≠ []) (outer : List Frame)
    (change : Frame → Frame) : ∃ inner', inner'.length = inner.length ∧
      (modifyInnermost ⟨inner ++ outer⟩ change).frames = inner' ++ outer := by
  obtain ⟨f, later, rfl⟩ := List.exists_cons_of_ne_nil hne
  exact ⟨change f :: later, rfl, rfl⟩

/-- What closes nothing that was open before leaves the frames further out alone. -/
theorem exists_frames_foldl {w : History} (hw : Inward w) (f : Frame) (outer : List Frame) :
    ∃ inner : List Frame, (inner.length : Int) = rise w + 1 ∧
      (w.foldl act ⟨f :: outer⟩).frames = inner ++ outer := by
  induction w using List.reverseRecOn with
  | nil => exact ⟨[f], rfl, rfl⟩
  | append_singleton w a ih =>
    obtain ⟨hbefore, hrise⟩ := inward_snoc.1 hw
    obtain ⟨inner, hlength, hframes⟩ := ih hbefore
    have hnonneg := hbefore.rise_nonneg
    have hne : inner ≠ [] := by
      rintro rfl
      simp only [List.length_nil] at hlength
      omega
    rw [List.foldl_append, List.foldl_cons, List.foldl_nil]
    generalize hs : w.foldl act ⟨f :: outer⟩ = s at hframes ⊢
    obtain ⟨frames⟩ := s
    obtain rfl : frames = inner ++ outer := hframes
    simp only [rise_append, rise_cons, rise_nil]
    cases a with
    | push boundary =>
      refine ⟨⟨[], [], boundary⟩ :: inner, ?_, rfl⟩
      simp only [List.length_cons, Act.rise]
      omega
    | pop =>
      refine ⟨inner.tail, ?_, List.tail_append_of_ne_nil hne⟩
      have := List.length_pos_iff.2 hne
      simp only [List.length_tail, Act.rise]
      omega
    | declare x =>
      obtain ⟨inner', hsame, hact⟩ := exists_frames_modifyInnermost hne outer _
      exact ⟨inner', by simp only [hsame, hlength, Act.rise]; omega, hact⟩
    | mark l start =>
      obtain ⟨inner', hsame, hact⟩ := exists_frames_modifyInnermost hne outer _
      exact ⟨inner', by simp only [hsame, hlength, Act.rise]; omega, hact⟩

/-- Closing a scope brings back what was there before it was opened. -/
theorem after_closed (h : History) {w : History} (hw : Level w) (boundary : Bool) :
    after (h ++ .push boundary :: w ++ [.pop]) = after h := by
  obtain ⟨inner, hlength, hframes⟩ :=
    exists_frames_foldl hw.1 ⟨[], [], boundary⟩ (after h).frames
  rw [hw.2] at hlength
  obtain ⟨f, rfl⟩ := List.length_eq_one_iff.1 (show inner.length = 1 by omega)
  rw [after_snoc, after_append, List.foldl_cons]
  exact congrArg (fun frames => Scopes.mk frames.tail) hframes

end Scopes
end Resolved
end LuaFront
