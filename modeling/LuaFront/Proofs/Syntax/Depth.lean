import LuaFront.Proofs.Syntax.InStep

/-!
# LuaFront.Proofs.Syntax.Depth

More depth changes nothing of what is read with less.

* `Read.Below m m'`: what `m` gives, `m'` gives too. It is a class, so that it is found for readers
  that are put together from others; every reader of the grammar has it for two nested readers of
  which one is below the other.
* `Nested.below_of_le`: readers that may nest deeper give what the others give.
-/

namespace LuaFront
namespace Syntax

open Text (Span)

namespace Read

variable {α β σ : Type}

class Below (m m' : Read α) : Prop where
  run : ∀ {r : Reading} {a : α} {r' : Reading}, m.run r = some (a, r') → m'.run r = some (a, r')

instance (priority := low) Below.refl (m : Read α) : Below m m := ⟨id⟩

theorem Below.trans {m₁ m₂ m₃ : Read α} (h₁ : Below m₁ m₂) (h₂ : Below m₂ m₃) : Below m₁ m₃ :=
  ⟨fun hrun => h₂.run (h₁.run hrun)⟩

instance (m : Read α) : Below failure m := ⟨fun hrun => by cases hrun⟩

instance Below.bind (m m' : Read α) (k k' : α → Read β) [Below m m'] [∀ a, Below (k a) (k' a)] :
    Below (m >>= k) (m' >>= k') where
  run hrun := by
    obtain ⟨a, r₁, hm, hk⟩ := run_bind_eq_some.1 hrun
    exact run_bind_eq_some.2 ⟨a, r₁, Below.run hm, Below.run hk⟩

instance (f : α → β) (m m' : Read α) [Below m m'] : Below (f <$> m) (f <$> m') := by
  rw [map_eq_pure_bind, map_eq_pure_bind]
  infer_instance

instance (c : Prop) [Decidable c] (m m' n n' : Read α) [Below m m'] [Below n n'] :
    Below (if c then m else n) (if c then m' else n') := by
  split <;> infer_instance

instance (step step' : σ → Read (σ ⊕ α)) [∀ a, Below (step a) (step' a)] (turns : Nat) (a : σ) :
    Below (loopWith step turns a) (loopWith step' turns a) := by
  induction turns generalizing a with
  | zero => unfold loopWith; infer_instance
  | succ turns ih =>
    rw [loopWith, loopWith]
    refine @Below.bind _ _ _ _ _ _ _ fun x => ?_
    cases x <;> infer_instance

instance (step step' : σ → Read (σ ⊕ α)) [∀ a, Below (step a) (step' a)] (a : σ) :
    Below (loop step a) (loop step' a) := by
  unfold loop; infer_instance

instance (separator : Kind) (item item' : Read α) [Below item item'] :
    Below (following separator item) (following separator item') := by
  unfold following; infer_instance

instance (separator : Kind) (item item' : Read α) [Below item item'] :
    Below (separated separator item) (separated separator item') := by
  unfold separated; infer_instance

end Read

/-! ## Readers of the grammar -/

class Nested.Below (inner inner' : Nested) : Prop where
  operand : ∀ parent, Read.Below (inner.operand parent) (inner'.operand parent)
  block : Read.Below inner.block inner'.block

-- A reader in sequence has one instance for each of its steps.
set_option synthInstance.maxSize 1024

namespace Read

variable (i i' : Nested) [i.Below i']

instance (parent : Nat) : Below (i.operand parent) (i'.operand parent) :=
  Nested.Below.operand parent
instance : Below i.block i'.block := Nested.Below.block
instance : Below i.expression i'.expression := Nested.Below.operand 0
instance : Below i.expressions i'.expressions := by unfold Nested.expressions; infer_instance

instance : Below (functionBody i) (functionBody i') := by unfold functionBody; infer_instance

instance (st : Nat) (named : Bool) : Below (fieldRest i st named) (fieldRest i' st named) := by
  unfold fieldRest; infer_instance

instance : Below (field i) (field i') := by rw [field_eq, field_eq]; infer_instance

instance (fields : List Field) : Below (fieldStep i fields) (fieldStep i' fields) := by
  unfold fieldStep; infer_instance

instance : Below (table i) (table i') := by rw [table_eq, table_eq]; infer_instance

instance : Below (arguments i) (arguments i') := by
  unfold arguments
  refine @Below.bind _ _ _ _ _ _ _ fun k => ?_
  split <;> infer_instance

instance : Below (prefixHead i) (prefixHead i') := by
  unfold prefixHead
  refine @Below.bind _ _ _ _ _ _ _ fun st => @Below.bind _ _ _ _ _ _ _ fun k => ?_
  split <;> infer_instance

instance (st : Nat) (e : Expression × Shape) : Below (suffix i st e) (suffix i' st e) := by
  unfold suffix
  refine @Below.bind _ _ _ _ _ _ _ fun k => ?_
  split <;> infer_instance

instance : Below (prefixExpression i) (prefixExpression i') := by
  unfold prefixExpression; infer_instance

instance : Below (primary i) (primary i') := by
  unfold primary
  refine @Below.bind _ _ _ _ _ _ _ fun st => @Below.bind _ _ _ _ _ _ _ fun k => ?_
  split <;> infer_instance

instance : Below (unary i) (unary i') := by
  unfold unary
  refine @Below.bind _ _ _ _ _ _ _ fun st => @Below.bind _ _ _ _ _ _ _ fun k => ?_
  split <;> infer_instance

instance (parent st : Nat) (left : Expression) :
    Below (infixed i parent st left) (infixed i' parent st left) := by
  unfold infixed
  refine @Below.bind _ _ _ _ _ _ _ fun k => ?_
  split <;> infer_instance

instance (parent : Nat) : Below (Read.operand i parent) (Read.operand i' parent) := by
  unfold Read.operand; infer_instance

instance : Below (blockToEnd i) (blockToEnd i') := by unfold blockToEnd; infer_instance
instance : Below (results i) (results i') := by unfold results; infer_instance
instance : Below (result i) (result i') := by unfold result; infer_instance
instance : Below (elseIf i) (elseIf i') := by unfold elseIf; infer_instance
instance : Below (elseIfs i) (elseIfs i') := by unfold elseIfs; infer_instance
instance : Below (otherwise i) (otherwise i') := by unfold otherwise; infer_instance
instance : Below (ifThen i) (ifThen i') := by unfold ifThen; infer_instance
instance : Below (step i) (step i') := by unfold step; infer_instance
instance : Below (forLoop i) (forLoop i') := by unfold forLoop; infer_instance
instance : Below (function i) (function i') := by unfold function; infer_instance
instance : Below (initializer i) (initializer i') := by unfold initializer; infer_instance
instance : Below (localStatement i) (localStatement i') := by
  unfold localStatement; infer_instance
instance : Below (callOrAssign i) (callOrAssign i') := by unfold callOrAssign; infer_instance

instance : Below (statement i) (statement i') := by
  unfold statement
  refine @Below.bind _ _ _ _ _ _ _ fun st => @Below.bind _ _ _ _ _ _ _ fun k => ?_
  split <;> infer_instance

instance : Below (statementOrSkip i) (statementOrSkip i') := by
  unfold statementOrSkip; infer_instance

instance : Below (Read.block i) (Read.block i') := by unfold Read.block; infer_instance
instance : Below (chunk i) (chunk i') := by unfold chunk; infer_instance

end Read

/-- Readers that may nest one level deeper. -/
instance Nested.below_succ (depth : Nat) : (Nested.upTo depth).Below (.upTo (depth + 1)) := by
  induction depth with
  | zero =>
    exact ⟨fun _ => inferInstanceAs (Read.Below failure _),
      inferInstanceAs (Read.Below failure _)⟩
  | succ depth ih =>
    exact ⟨fun parent => inferInstanceAs (Read.Below (Read.operand _ parent) (Read.operand _ parent)),
      inferInstanceAs (Read.Below (Read.block _) (Read.block _))⟩

theorem Nested.below_of_le {depth depth' : Nat} (h : depth ≤ depth') :
    (Nested.upTo depth).Below (.upTo depth') := by
  induction h with
  | refl => exact ⟨fun _ => inferInstance, inferInstance⟩
  | step _ ih =>
    have hsucc := Nested.below_succ
    exact ⟨fun parent => (ih.operand parent).trans ((hsucc _).operand parent),
      ih.block.trans (hsucc _).block⟩

end Syntax
end LuaFront
