import LuaFront.Proofs.Syntax.Relocation

/-!
# LuaFront.Proofs.Syntax.Canonical

Trees that are grouped as the precedence of operators says, and trees that differ in places only.

* `Expression.Grouped`: which operands an operator may have without parentheses around them.
* `Canonical`: a part of a tree in which every expression is grouped in this way, at any depth.
* `Agrees x a`: `x` is `a` but for its places, if `a` is canonical. There is one lemma for each way
  to put trees together.
-/

namespace LuaFront
namespace Syntax

open Text (Span)
open Placed (relocate)

/-! ## Grouping -/

namespace Expression

/-- The binary operator that an expression applies last. Parentheses hide it. -/
def operator? : Expression → Option BinaryOperator
  | .binary _ op _ _ => some op
  | _ => none

def isUnary : Expression → Bool
  | .unary .. => true
  | _ => false

/-- Whether the operands of the last operator may stand beside it without parentheses. -/
def Grouped : Expression → Prop
  | .unary _ operand _ => ∀ op ∈ operand.operator?, op = .exponent
  | .binary left op right _ =>
    (∀ op' ∈ left.operator?, op.precedence < op'.precedence ∨
      op'.precedence = op.precedence ∧ op'.isRightAssociative = false) ∧
    (∀ op' ∈ right.operator?, op.precedence < op'.precedence ∨
      op'.precedence = op.precedence ∧ op'.isRightAssociative = true) ∧
    (left.isUnary = true → op ≠ .exponent)
  | _ => True

end Expression

namespace Node

def Grouped : Node → Prop
  | .expression e => e.Grouped
  | _ => True

/-- All expressions of a node are grouped as the precedence of operators says. -/
def Canonical (n : Node) : Prop := n.Everywhere Grouped

theorem canonical_iff {n : Node} : n.Canonical ↔ n.Grouped ∧ ∀ c ∈ n.children, c.Canonical :=
  everywhere_iff

theorem canonical_iff_children {n : Node} (h : n.Grouped) :
    n.Canonical ↔ ∀ c ∈ n.children, c.Canonical :=
  canonical_iff.trans (and_iff_right h)

@[simp]
theorem canonical_name (n : Name) : (name n).Canonical :=
  canonical_iff.2 ⟨trivial, by simp [children]⟩

@[simp]
theorem canonical_functionName (n : FunctionName) : (functionName n).Canonical :=
  canonical_iff.2 ⟨trivial, by simp [children]⟩

@[simp]
theorem canonical_declaration (d : LocalDeclaration) : (declaration d).Canonical :=
  canonical_iff.2 ⟨trivial, by simp [children]⟩

end Node

/-- Parts of syntax trees that may be canonical. -/
class Groups (α : Type) where
  Canonical : α → Prop

open Groups (Canonical)

instance : Groups Name := ⟨fun _ => True⟩
instance : Groups LocalDeclaration := ⟨fun _ => True⟩
instance : Groups Expression := ⟨fun e => (Node.expression e).Canonical⟩
instance : Groups Field := ⟨fun f => (Node.field f).Canonical⟩
instance : Groups FunctionBody := ⟨fun f => (Node.functionBody f).Canonical⟩
instance : Groups Block := ⟨fun b => (Node.block b).Canonical⟩
instance : Groups Return := ⟨fun r => (Node.result r).Canonical⟩
instance : Groups ElseIf := ⟨fun e => (Node.elseIf e).Canonical⟩
instance : Groups Statement := ⟨fun s => (Node.statement s).Canonical⟩

section

variable {α : Type} [Groups α]

instance : Groups (List α) := ⟨fun as => ∀ a ∈ as, Canonical a⟩
instance : Groups (Option α) := ⟨fun x => ∀ a ∈ x, Canonical a⟩

@[simp]
theorem canonical_nil : Canonical ([] : List α) := by simp [Canonical]

@[simp]
theorem canonical_cons {a : α} {as : List α} :
    Canonical (a :: as) ↔ Canonical a ∧ Canonical as :=
  List.forall_mem_cons

@[simp]
theorem canonical_append {as bs : List α} :
    Canonical (as ++ bs) ↔ Canonical as ∧ Canonical bs :=
  List.forall_mem_append

@[simp]
theorem canonical_none : Canonical (none : Option α) := by simp [Canonical]

@[simp]
theorem canonical_some {a : α} : Canonical (some a) ↔ Canonical a := by simp [Canonical]

end

@[simp]
theorem canonical_name (n : Name) : Canonical n := trivial

@[simp]
theorem canonical_names (ns : List Name) : Canonical ns := fun _ _ => trivial

@[simp]
theorem canonical_declarations (ds : List LocalDeclaration) : Canonical ds := fun _ _ => trivial

section

variable {e e₁ e₂ : Expression} {es ts : List Expression} {x : Field} {fs : List Field} {n : Name}
  {ns : List Name} {f : FunctionBody} {b : Block} {st : Statement} {s : Span}

theorem canonical_expression : Canonical e ↔ e.Grouped ∧ ∀ c ∈ e.parts, c.Canonical :=
  Node.canonical_iff

theorem canonical_field : Canonical x ↔ ∀ c ∈ x.parts, c.Canonical :=
  Node.canonical_iff_children (n := .field x) trivial

theorem canonical_statement : Canonical st ↔ ∀ c ∈ st.parts, c.Canonical :=
  Node.canonical_iff_children (n := .statement st) trivial

theorem canonical_block : Canonical b ↔ Canonical b.statements ∧ Canonical b.result := by
  refine (Node.canonical_iff_children (n := .block b) trivial).trans ?_
  cases hr : b.result <;> simp [Node.children, Block.parts, hr, Canonical, or_imp, forall_and]

theorem canonical_functionBody : Canonical f ↔ Canonical f.block := by
  refine (Node.canonical_iff_children (n := .functionBody f) trivial).trans ?_
  simp [Node.children, or_imp, forall_and, Canonical]

theorem canonical_result {r : Return} : Canonical r ↔ Canonical r.values := by
  refine (Node.canonical_iff_children (n := .result r) trivial).trans ?_
  simp [Node.children, Canonical]

theorem canonical_elseIf {c : ElseIf} :
    Canonical c ↔ Canonical c.condition ∧ Canonical c.block := by
  refine (Node.canonical_iff_children (n := .elseIf c) trivial).trans ?_
  simp [Node.children, Canonical]

theorem canonical_otherwise : (Node.otherwise b).Canonical ↔ Canonical b :=
  (Node.canonical_iff_children (n := .otherwise b) trivial).trans
    (Node.canonical_iff_children (n := .block b) trivial).symm

@[simp]
theorem canonical_literal {v : Literal} : Canonical (Expression.literal v s) ↔ True := by
  rw [canonical_expression]
  simp [Expression.Grouped, Expression.parts]

@[simp]
theorem canonical_vararg : Canonical (Expression.vararg s) ↔ True := by
  rw [canonical_expression]
  simp [Expression.Grouped, Expression.parts]

@[simp]
theorem canonical_nameExpression : Canonical (Expression.name n) ↔ True := by
  rw [canonical_expression]
  simp [Expression.Grouped, Expression.parts]

@[simp]
theorem canonical_function : Canonical (Expression.function f s) ↔ Canonical f := by
  rw [canonical_expression]
  simp [Expression.Grouped, Expression.parts, Canonical]

@[simp]
theorem canonical_table : Canonical (Expression.table fs s) ↔ Canonical fs := by
  rw [canonical_expression]
  simp [Expression.Grouped, Expression.parts, Canonical]

@[simp]
theorem canonical_unary {op : UnaryOperator} :
    Canonical (Expression.unary op e s) ↔ (Expression.unary op e s).Grouped ∧ Canonical e := by
  rw [canonical_expression]
  simp [Expression.parts, Canonical]

@[simp]
theorem canonical_binary {op : BinaryOperator} :
    Canonical (Expression.binary e₁ op e₂ s) ↔
      (Expression.binary e₁ op e₂ s).Grouped ∧ Canonical e₁ ∧ Canonical e₂ := by
  rw [canonical_expression]
  simp [Expression.parts, Canonical]

@[simp]
theorem canonical_parenthesized : Canonical (Expression.parenthesized e s) ↔ Canonical e := by
  rw [canonical_expression]
  simp [Expression.Grouped, Expression.parts, Canonical]

@[simp]
theorem canonical_call {m : Option Name} :
    Canonical (Expression.call e m es s) ↔ Canonical e ∧ Canonical es := by
  rw [canonical_expression]
  simp [Expression.Grouped, Expression.parts, Canonical]

@[simp]
theorem canonical_index : Canonical (Expression.index e₁ e₂ s) ↔ Canonical e₁ ∧ Canonical e₂ := by
  rw [canonical_expression]
  simp [Expression.Grouped, Expression.parts, Canonical]

@[simp]
theorem canonical_dotted : Canonical (Expression.dotted e n s) ↔ Canonical e := by
  rw [canonical_expression]
  simp [Expression.Grouped, Expression.parts, Canonical]

@[simp]
theorem canonical_positional : Canonical (Field.positional e s) ↔ Canonical e := by
  rw [canonical_field]
  simp [Field.parts, Canonical]

@[simp]
theorem canonical_named : Canonical (Field.named n e s) ↔ Canonical e := by
  rw [canonical_field]
  simp [Field.parts, Canonical]

@[simp]
theorem canonical_keyed : Canonical (Field.keyed e₁ e₂ s) ↔ Canonical e₁ ∧ Canonical e₂ := by
  rw [canonical_field]
  simp [Field.parts, Canonical]

@[simp]
theorem canonical_assign : Canonical (Statement.assign ts es s) ↔ Canonical ts ∧ Canonical es := by
  rw [canonical_statement]
  simp [Statement.parts, Canonical, or_imp, forall_and]

@[simp]
theorem canonical_declare {ds : List LocalDeclaration} :
    Canonical (Statement.declare ds es s) ↔ Canonical es := by
  rw [canonical_statement]
  simp [Statement.parts, Canonical, or_imp, forall_and]

@[simp]
theorem canonical_callStatement : Canonical (Statement.call e s) ↔ Canonical e := by
  rw [canonical_statement]
  simp [Statement.parts, Canonical]

@[simp]
theorem canonical_ifThen {cs : List ElseIf} {o : Option Block} :
    Canonical (Statement.ifThen e b cs o s) ↔
      Canonical e ∧ Canonical b ∧ Canonical cs ∧ Canonical o := by
  rw [canonical_statement]
  simp [Statement.parts, canonical_otherwise, Canonical, or_imp, forall_and]

@[simp]
theorem canonical_whileDo : Canonical (Statement.whileDo e b s) ↔ Canonical e ∧ Canonical b := by
  rw [canonical_statement]
  simp [Statement.parts, Canonical]

@[simp]
theorem canonical_repeatUntil :
    Canonical (Statement.repeatUntil b e s) ↔ Canonical b ∧ Canonical e := by
  rw [canonical_statement]
  simp [Statement.parts, Canonical]

@[simp]
theorem canonical_numericFor {step : Option Expression} :
    Canonical (Statement.numericFor n e₁ e₂ step b s) ↔
      Canonical e₁ ∧ Canonical e₂ ∧ Canonical step ∧ Canonical b := by
  rw [canonical_statement]
  simp [Statement.parts, Canonical, or_imp, forall_and]

@[simp]
theorem canonical_genericFor :
    Canonical (Statement.genericFor ns es b s) ↔ Canonical es ∧ Canonical b := by
  rw [canonical_statement]
  simp [Statement.parts, Canonical, or_imp, forall_and]

@[simp]
theorem canonical_doBlock : Canonical (Statement.doBlock b s) ↔ Canonical b := by
  rw [canonical_statement]
  simp [Statement.parts, Canonical]

@[simp]
theorem canonical_breakLoop : Canonical (Statement.breakLoop s) ↔ True := by
  rw [canonical_statement]
  simp [Statement.parts]

@[simp]
theorem canonical_goto : Canonical (Statement.goto n s) ↔ True := by
  rw [canonical_statement]
  simp [Statement.parts]

@[simp]
theorem canonical_label : Canonical (Statement.label n s) ↔ True := by
  rw [canonical_statement]
  simp [Statement.parts]

@[simp]
theorem canonical_functionStatement {d : FunctionName} :
    Canonical (Statement.function d f s) ↔ Canonical f := by
  rw [canonical_statement]
  simp [Statement.parts, Canonical]

@[simp]
theorem canonical_localFunction : Canonical (Statement.localFunction n f s) ↔ Canonical f := by
  rw [canonical_statement]
  simp [Statement.parts, Canonical]

end

/-! ## How operators bind -/

/-- Operators of one precedence associate in one way. -/
theorem BinaryOperator.isRightAssociative_iff {op : BinaryOperator} :
    op.isRightAssociative = true ↔ op.precedence = 12 ∨ op.precedence = 8 := by
  cases op <;> decide

theorem BinaryOperator.eq_exponent_iff {op : BinaryOperator} :
    op = .exponent ↔ UnaryOperator.precedence < op.precedence := by
  cases op <;> decide

theorem BinaryOperator.precedence_le (op : BinaryOperator) : op.precedence ≤ 12 := by
  cases op <;> decide

theorem Read.continues_iff {parent : Nat} {op : BinaryOperator} :
    continues parent op = true ↔
      parent < op.precedence ∨ op.precedence = parent ∧ (parent = 12 ∨ parent = 8) := by
  simp only [continues, Bool.or_eq_true, decide_eq_true_eq, Bool.and_eq_true, beq_iff_eq,
    BinaryOperator.isRightAssociative_iff]
  grind

/-! ## Trees that differ in places only -/

/-- Equal but for their places. -/
def Alike {α : Type} [Placed α] (a b : α) : Prop :=
  relocate (fun _ => 0) a = relocate (fun _ => 0) b

/-- What was read is what was derived, but for its places, if the latter is canonical. -/
def Agrees {α : Type} [Placed α] [Groups α] (x a : α) : Prop := Canonical a → Alike x a

section

variable {α : Type} [Placed α] {x a : α} {xs as : List α}

@[simp]
theorem Alike.refl (a : α) : Alike a a := rfl

@[simp]
theorem alike_cons : Alike (x :: xs) (a :: as) ↔ Alike x a ∧ Alike xs as := List.cons_eq_cons

@[simp]
theorem alike_some : Alike (some x) (some a) ↔ Alike x a := Option.some_inj

variable [Groups α]

theorem Agrees.refl (a : α) : Agrees a a := fun _ => rfl

theorem Agrees.cons (h : Agrees x a) (h' : Agrees xs as) : Agrees (x :: xs) (a :: as) := by
  intro hc
  rw [canonical_cons] at hc
  exact alike_cons.2 ⟨h hc.1, h' hc.2⟩

theorem Agrees.some (h : Agrees x a) : Agrees (some x) (some a) := by
  intro hc
  exact alike_some.2 (h (canonical_some.1 hc))

end

section

variable {e e' e₁ e₁' e₂ e₂' : Expression} {es es' ts ts' : List Expression} {fs fs' : List Field}
  {n : Name} {ns : List Name} {f f' : FunctionBody} {b b' : Block} {ss ss' : List Statement}
  {s s' : Span}

@[simp]
theorem alike_function :
    Alike (Expression.function f' s') (.function f s) ↔ Alike f' f := by
  refine (Expression.function.injEq ..).to_iff.trans ?_
  simp [Alike, relocate]

@[simp]
theorem alike_table :
    Alike (Expression.table fs' s') (.table fs s) ↔ Alike fs' fs := by
  refine (Expression.table.injEq ..).to_iff.trans ?_
  rw [Relocate.fields_eq, Relocate.fields_eq]
  simp [Alike, relocate]

@[simp]
theorem alike_unary {op : UnaryOperator} :
    Alike (Expression.unary op e' s') (.unary op e s) ↔ Alike e' e := by
  refine (Expression.unary.injEq ..).to_iff.trans ?_
  simp [Alike, relocate]

@[simp]
theorem alike_binary {op : BinaryOperator} :
    Alike (Expression.binary e₁' op e₂' s') (.binary e₁ op e₂ s) ↔ Alike e₁' e₁ ∧ Alike e₂' e₂ := by
  refine (Expression.binary.injEq ..).to_iff.trans ?_
  simp [Alike, relocate]

@[simp]
theorem alike_parenthesized :
    Alike (Expression.parenthesized e' s') (.parenthesized e s) ↔ Alike e' e := by
  refine (Expression.parenthesized.injEq ..).to_iff.trans ?_
  simp [Alike, relocate]

@[simp]
theorem alike_call {m : Option Name} :
    Alike (Expression.call e' m es' s') (.call e m es s) ↔ Alike e' e ∧ Alike es' es := by
  refine (Expression.call.injEq ..).to_iff.trans ?_
  rw [Relocate.expressions_eq, Relocate.expressions_eq]
  simp [Alike, relocate]

@[simp]
theorem alike_index :
    Alike (Expression.index e₁' e₂' s') (.index e₁ e₂ s) ↔ Alike e₁' e₁ ∧ Alike e₂' e₂ := by
  refine (Expression.index.injEq ..).to_iff.trans ?_
  simp [Alike, relocate]

@[simp]
theorem alike_dotted :
    Alike (Expression.dotted e' n s') (.dotted e n s) ↔ Alike e' e := by
  refine (Expression.dotted.injEq ..).to_iff.trans ?_
  simp [Alike, relocate]

@[simp]
theorem alike_positional :
    Alike (Field.positional e' s') (.positional e s) ↔ Alike e' e := by
  refine (Field.positional.injEq ..).to_iff.trans ?_
  simp [Alike, relocate]

@[simp]
theorem alike_named :
    Alike (Field.named n e' s') (.named n e s) ↔ Alike e' e := by
  refine (Field.named.injEq ..).to_iff.trans ?_
  simp [Alike, relocate]

@[simp]
theorem alike_keyed :
    Alike (Field.keyed e₁' e₂' s') (.keyed e₁ e₂ s) ↔ Alike e₁' e₁ ∧ Alike e₂' e₂ := by
  refine (Field.keyed.injEq ..).to_iff.trans ?_
  simp [Alike, relocate]

@[simp]
theorem alike_functionBody {vararg : Bool} :
    Alike (FunctionBody.mk ns vararg b' s') ⟨ns, vararg, b, s⟩ ↔ Alike b' b := by
  refine (FunctionBody.mk.injEq ..).to_iff.trans ?_
  simp [Alike, relocate]

@[simp]
theorem alike_block {r r' : Option Return} :
    Alike (Block.mk ss' r' s') ⟨ss, r, s⟩ ↔ Alike ss' ss ∧ Alike r' r := by
  refine (Block.mk.injEq ..).to_iff.trans ?_
  rw [Relocate.statements_eq, Relocate.statements_eq]
  rw [Relocate.result_eq, Relocate.result_eq]
  simp [Alike, relocate]

@[simp]
theorem alike_result :
    Alike (Return.mk es' s') ⟨es, s⟩ ↔ Alike es' es := by
  refine (Return.mk.injEq ..).to_iff.trans ?_
  simp [Alike, relocate]

@[simp]
theorem alike_elseIf :
    Alike (ElseIf.mk e' b' s') ⟨e, b, s⟩ ↔ Alike e' e ∧ Alike b' b := by
  refine (ElseIf.mk.injEq ..).to_iff.trans ?_
  simp [Alike, relocate]

@[simp]
theorem alike_assign :
    Alike (Statement.assign ts' es' s') (.assign ts es s) ↔ Alike ts' ts ∧ Alike es' es := by
  refine (Statement.assign.injEq ..).to_iff.trans ?_
  rw [Relocate.expressions_eq, Relocate.expressions_eq]
  rw [Relocate.expressions_eq, Relocate.expressions_eq]
  simp [Alike, relocate]

@[simp]
theorem alike_declare {ds ds' : List LocalDeclaration} :
    Alike (Statement.declare ds' es' s') (.declare ds es s) ↔ Alike ds' ds ∧ Alike es' es := by
  refine (Statement.declare.injEq ..).to_iff.trans ?_
  rw [Relocate.expressions_eq, Relocate.expressions_eq]
  simp [Alike, relocate]

@[simp]
theorem alike_callStatement :
    Alike (Statement.call e' s') (.call e s) ↔ Alike e' e := by
  refine (Statement.call.injEq ..).to_iff.trans ?_
  simp [Alike, relocate]

@[simp]
theorem alike_ifThen {cs cs' : List ElseIf} {o o' : Option Block} :
    Alike (Statement.ifThen e' b' cs' o' s') (.ifThen e b cs o s) ↔
      Alike e' e ∧ Alike b' b ∧ Alike cs' cs ∧ Alike o' o := by
  refine (Statement.ifThen.injEq ..).to_iff.trans ?_
  rw [Relocate.elseIfs_eq, Relocate.elseIfs_eq]
  rw [Relocate.otherwise_eq, Relocate.otherwise_eq]
  simp [Alike, relocate]

@[simp]
theorem alike_whileDo :
    Alike (Statement.whileDo e' b' s') (.whileDo e b s) ↔ Alike e' e ∧ Alike b' b := by
  refine (Statement.whileDo.injEq ..).to_iff.trans ?_
  simp [Alike, relocate]

@[simp]
theorem alike_repeatUntil :
    Alike (Statement.repeatUntil b' e' s') (.repeatUntil b e s) ↔ Alike b' b ∧ Alike e' e := by
  refine (Statement.repeatUntil.injEq ..).to_iff.trans ?_
  simp [Alike, relocate]

@[simp]
theorem alike_numericFor {step step' : Option Expression} :
    Alike (Statement.numericFor n e₁' e₂' step' b' s') (.numericFor n e₁ e₂ step b s) ↔
      Alike e₁' e₁ ∧ Alike e₂' e₂ ∧ Alike step' step ∧ Alike b' b := by
  refine (Statement.numericFor.injEq ..).to_iff.trans ?_
  rw [Relocate.step_eq, Relocate.step_eq]
  simp [Alike, relocate]

@[simp]
theorem alike_genericFor {ns' : List Name} :
    Alike (Statement.genericFor ns' es' b' s') (.genericFor ns es b s) ↔
      Alike ns' ns ∧ Alike es' es ∧ Alike b' b := by
  refine (Statement.genericFor.injEq ..).to_iff.trans ?_
  rw [Relocate.expressions_eq, Relocate.expressions_eq]
  simp [Alike, relocate]

@[simp]
theorem alike_doBlock :
    Alike (Statement.doBlock b' s') (.doBlock b s) ↔ Alike b' b := by
  refine (Statement.doBlock.injEq ..).to_iff.trans ?_
  simp [Alike, relocate]

@[simp]
theorem alike_functionName {ns' : List Name} {m m' : Option Name} :
    Alike (FunctionName.mk ns' m' s') ⟨ns, m, s⟩ ↔ Alike ns' ns ∧ Alike m' m := by
  refine (FunctionName.mk.injEq ..).to_iff.trans ?_
  simp [Alike, relocate]

@[simp]
theorem alike_declaration {a a' : Option Name} :
    Alike (LocalDeclaration.mk n a' s') ⟨n, a, s⟩ ↔ Alike a' a := by
  refine (LocalDeclaration.mk.injEq ..).to_iff.trans ?_
  simp [Alike, relocate]

@[simp]
theorem alike_functionStatement {d d' : FunctionName} :
    Alike (Statement.function d' f' s') (.function d f s) ↔ Alike d' d ∧ Alike f' f := by
  refine (Statement.function.injEq ..).to_iff.trans ?_
  simp [Alike, relocate]

@[simp]
theorem alike_localFunction :
    Alike (Statement.localFunction n f' s') (.localFunction n f s) ↔ Alike f' f := by
  refine (Statement.localFunction.injEq ..).to_iff.trans ?_
  simp [Alike, relocate]

end

end Syntax
end LuaFront
