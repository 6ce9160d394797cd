import LuaFront.Proofs.Resolved.Jumps
import LuaFront.Proofs.Resolved.Run

/-!
# LuaFront.Proofs.Resolved.Splice

What flattening gives, piece by piece, and where a jump in a flat list leads.

* `Flatten.out`, `Flatten.count`: the result, and how many symbols there are then.
* `Privates`: the variables that flattening makes up for loops.
* `Block.after_eq`: behind a label is what was put behind it, if no label is there twice.
-/

namespace LuaFront
namespace Resolved

/-! ## Flat forms -/

def Local.made (name : String) (k : Nat) : Local := Local.plain (.generated k) s!"{name}#{k}"

namespace Flatten

variable {α β : Type}

def out (m : Flatten α) (n : Nat) : α := (m.run n).1

def count (m : Flatten α) (n : Nat) : Nat := (m.run n).2

@[simp]
theorem out_pure (a : α) (n : Nat) : out (pure a) n = a := rfl

@[simp]
theorem count_pure (a : α) (n : Nat) : count (pure a) n = n := rfl

@[simp]
theorem out_bind (m : Flatten α) (k : α → Flatten β) (n : Nat) :
    out (m >>= k) n = out (k (out m n)) (count m n) := rfl

@[simp]
theorem count_bind (m : Flatten α) (k : α → Flatten β) (n : Nat) :
    count (m >>= k) n = count (k (out m n)) (count m n) := rfl

@[simp]
theorem out_map (f : α → β) (m : Flatten α) (n : Nat) : out (f <$> m) n = f (out m n) := rfl

@[simp]
theorem count_map (f : α → β) (m : Flatten α) (n : Nat) : count (f <$> m) n = count m n := rfl

@[simp]
theorem out_freshLabel (n : Nat) : out freshLabel n = .made (n + 1) := rfl

@[simp]
theorem count_freshLabel (n : Nat) : count freshLabel n = n + 1 := rfl

@[simp]
theorem out_freshLocal (name : String) (n : Nat) :
    out (freshLocal name) n = .made name (n + 1) := rfl

@[simp]
theorem count_freshLocal (name : String) (n : Nat) : count (freshLocal name) n = n + 1 := rfl

theorem out_block_cons (x : Statement) (later : List Statement) (n : Nat) :
    out (block (x :: later)) n =
      out (statement x) n ++ out (block later) (count (statement x) n) := by
  rw [block]
  rfl

theorem count_block_cons (x : Statement) (later : List Statement) (n : Nat) :
    count (block (x :: later)) n = count (block later) (count (statement x) n) := by
  rw [block]
  rfl

theorem out_block_append (a b : List Statement) (n : Nat) :
    out (block (a ++ b)) n = out (block a) n ++ out (block b) (count (block a) n) := by
  induction a generalizing n with
  | nil => simp [block]
  | cons x later ih =>
    rw [List.cons_append, out_block_cons, out_block_cons, count_block_cons, ih, List.append_assoc]

theorem count_block_snoc (a : List Statement) (x : Statement) (n : Nat) :
    count (block (a ++ [x])) n = count (statement x) (count (block a) n) := by
  induction a generalizing n with
  | nil => simp [block]
  | cons y later ih => rw [List.cons_append, count_block_cons, count_block_cons, ih]

/-- The last block of a conditional. -/
def otherwise : Option (List Statement) → Flatten (List Statement)
  | none => return []
  | some b => block b

/-- A conditional is its branches, the last block, and the place where all of them meet. -/
theorem out_ifThen (c : Expression) (b : List Statement) (es : List Branch)
    (o : Option (List Statement)) (n : Nat) :
    out (statement (.ifThen c b es o)) n =
      out (branches (.made (n + 1)) (⟨c, b⟩ :: es)) (n + 1) ++
        (out (otherwise o) (count (branches (.made (n + 1)) (⟨c, b⟩ :: es)) (n + 1)) ++
          [.label (.made (n + 1))]) := by
  rw [statement, branches]
  cases o <;> simp [otherwise]

theorem count_ifThen (c : Expression) (b : List Statement) (es : List Branch)
    (o : Option (List Statement)) (n : Nat) :
    count (statement (.ifThen c b es o)) n =
      count (otherwise o) (count (branches (.made (n + 1)) (⟨c, b⟩ :: es)) (n + 1)) := by
  rw [statement, branches]
  cases o <;> simp [otherwise]

end Flatten

/-! ## Variables of loops -/

namespace Privates

open Flatten (count)

mutual

def statement (n : Nat) : Statement → List (Label × Role × Local)
  | .ifThen c b es o =>
      block (count (Flatten.expression c) (n + 2)) b ++
      branches (.made (n + 1)) (count (Flatten.block b) (count (Flatten.expression c) (n + 2))) es ++
      otherwise (count (Flatten.branches (.made (n + 1)) (⟨c, b⟩ :: es)) (n + 1)) o
  | .whileDo c b _ => block (count (Flatten.expression c) (n + 1)) b
  | .repeatUntil b _ _ => block (n + 1) b
  | .numericFor _ initial limit step b exit =>
    (exit, .limit, .made "limit" (n + 2)) :: (exit, .step, .made "step" (n + 3)) ::
      block (count (Flatten.expressions [initial, limit, step]) (n + 3)) b
  | .genericFor _ values b exit =>
    (exit, .iterator, .made "iterator" (n + 2)) :: (exit, .state, .made "state" (n + 3)) ::
      (exit, .control, .made "control" (n + 4)) ::
      block (count (Flatten.expressions values) (n + 4)) b
  | .doBlock b => block n b
  | _ => []

def branches (stop : Label) (n : Nat) : List Branch → List (Label × Role × Local)
  | [] => []
  | ⟨c, b⟩ :: later =>
    block (count (Flatten.expression c) (n + 1)) b ++
      branches stop (count (Flatten.block b) (count (Flatten.expression c) (n + 1))) later

def otherwise (n : Nat) : Option (List Statement) → List (Label × Role × Local)
  | none => []
  | some b => block n b

def block (n : Nat) : List Statement → List (Label × Role × Local)
  | [] => []
  | x :: later => statement n x ++ block (count (Flatten.statement x) n) later

end

theorem block_append (n : Nat) (a b : List Statement) :
    block n (a ++ b) = block n a ++ block (count (Flatten.block a) n) b := by
  induction a generalizing n with
  | nil => simp [block, Flatten.block]
  | cons x later ih => rw [List.cons_append, block, block, ih, Flatten.count_block_cons,
      List.append_assoc]

end Privates

/-- Loops have the variables that flattening makes up for them. -/
def Fits (hidden : Hidden) (names : List (Label × Role × Local)) : Prop :=
  ∀ p ∈ names, hidden p.1 p.2.1 = p.2.2

theorem fits_append {hidden : Hidden} {a b : List (Label × Role × Local)} :
    Fits hidden (a ++ b) ↔ Fits hidden a ∧ Fits hidden b :=
  List.forall_mem_append

/-! ## Behind a label -/

namespace Block

theorem after_append {l : Label} {a : List Statement} (rest : List Statement) (h : l ∉ heads a) :
    after l (a ++ .label l :: rest) = rest := by
  induction a with
  | nil => simp [after]
  | cons x later ih =>
    rw [heads_cons, List.mem_append, not_or] at h
    cases x with
    | label l' =>
      have hne : l' ≠ l := fun heq => h.1 (by simp [Statement.labels, heq])
      simpa [after, hne] using ih h.2
    | _ => simpa [after] using ih h.2

/-- The end of a list that begins with a label. -/
theorem after_eq {l : Label} {rest b : List Statement} (hsuffix : .label l :: rest <:+ b)
    (hnodup : (heads b).Nodup) : l ∈ heads b ∧ after l b = rest := by
  obtain ⟨a, rfl⟩ := hsuffix
  rw [heads_append, heads_cons] at hnodup ⊢
  refine ⟨by simp [Statement.labels], after_append rest fun hl => ?_⟩
  exact (List.nodup_append.1 hnodup).2.2 l hl l (by simp [Statement.labels]) rfl

theorem exists_eq_append_after {l : Label} {b : List Statement} (h : l ∈ heads b) :
    ∃ a, b = a ++ .label l :: after l b := by
  induction b with
  | nil => simp at h
  | cons x later ih =>
    have hlater (hne : x ≠ .label l) (hx : after l (x :: later) = after l later) :
        ∃ a, x :: later = a ++ .label l :: after l (x :: later) := by
      have hmem : l ∈ heads later := by
        rw [heads_cons, List.mem_append] at h
        refine h.resolve_left fun hl => hne ?_
        cases x <;> simp_all [Statement.labels]
      obtain ⟨a, ha⟩ := ih hmem
      exact ⟨x :: a, by rw [hx, List.cons_append, ← ha]⟩
    cases x with
    | label l' =>
      by_cases heq : l' = l
      · exact ⟨[], by simp [after, heq]⟩
      · exact hlater (by simpa using heq) (by simp [after, heq])
    | _ => exact hlater (by simp) (by simp [after])

end Block
end Resolved
end LuaFront
