import LuaFront.Syntax.Node
import LuaFront.Token.Scanner

/-!
# LuaFront.Proofs.Syntax.Labels

The labels of a syntax tree. A block is `Labelled` if its labels are written one behind the other,
so that no two of them stand at the same offset, and are named by words.

`Node.Everywhere P n` says that `P` holds of a node and of all nodes below it.
-/

namespace LuaFront
namespace Syntax

/-! ## Nodes below a node -/

namespace Node

/-- The node `m` is `n` or lies somewhere below it. -/
inductive Within (m : Node) : Node → Prop where
  | refl : Within m m
  | child {c n : Node} : c ∈ n.children → Within m c → Within m n

def Everywhere (P : Node → Prop) (n : Node) : Prop := ∀ m, Within m n → P m

theorem everywhere_iff {P : Node → Prop} {n : Node} :
    n.Everywhere P ↔ P n ∧ ∀ c ∈ n.children, c.Everywhere P := by
  constructor
  · intro h
    exact ⟨h n .refl, fun c hc m hm => h m (.child hc hm)⟩
  · rintro ⟨hn, hc⟩ m hm
    cases hm with
    | refl => exact hn
    | child hmem hm => exact hc _ hmem m hm

end Node

/-! ## Labels -/

/-- The names of the labels among some statements, in order. -/
def labelNames : List Statement → List Name
  | [] => []
  | .label n _ :: later => n :: labelNames later
  | _ :: later => labelNames later

theorem labelNames_append (a b : List Statement) :
    labelNames (a ++ b) = labelNames a ++ labelNames b := by
  induction a with
  | nil => rfl
  | cons s later ih => cases s <;> simp [labelNames, ih]

/-- An identifier, or nothing. -/
def Name.IsWord (n : Name) : Prop := ∀ c ∈ n.text.toList, Scanner.isNameChar c = true

structure Block.Labelled (b : Block) : Prop where
  increasing : (labelNames b.statements).Pairwise (·.span.start < ·.span.start)
  words : ∀ n ∈ labelNames b.statements, n.IsWord

namespace Node

def Labelled : Node → Prop
  | .block b | .otherwise b => b.Labelled
  | _ => True

/-- All blocks in a node are labelled well. -/
def Tidy (n : Node) : Prop := n.Everywhere Labelled

theorem tidy_iff {n : Node} : n.Tidy ↔ n.Labelled ∧ ∀ c ∈ n.children, c.Tidy := everywhere_iff

theorem tidy_expression {e : Expression} : (expression e).Tidy ↔ ∀ c ∈ e.parts, c.Tidy :=
  tidy_iff.trans ⟨fun h => h.2, fun h => ⟨trivial, h⟩⟩

theorem tidy_field {f : Field} : (field f).Tidy ↔ ∀ c ∈ f.parts, c.Tidy :=
  tidy_iff.trans ⟨fun h => h.2, fun h => ⟨trivial, h⟩⟩

theorem tidy_statement {s : Statement} : (statement s).Tidy ↔ ∀ c ∈ s.parts, c.Tidy :=
  tidy_iff.trans ⟨fun h => h.2, fun h => ⟨trivial, h⟩⟩

theorem tidy_name (n : Name) : (name n).Tidy := tidy_iff.2 ⟨trivial, by simp [children]⟩

theorem tidy_declaration (d : LocalDeclaration) : (declaration d).Tidy :=
  tidy_iff.2 ⟨trivial, by simp [children]⟩

theorem tidy_functionName (f : FunctionName) : (functionName f).Tidy :=
  tidy_iff.2 ⟨trivial, by simp [children]⟩

theorem tidy_functionBody {f : FunctionBody} : (functionBody f).Tidy ↔ (block f.block).Tidy := by
  rw [tidy_iff]
  simp [children, Labelled, or_imp, forall_and, tidy_name]

theorem tidy_result {r : Return} :
    (result r).Tidy ↔ ∀ e ∈ r.values, (expression e).Tidy := by
  rw [tidy_iff]
  simp [children, Labelled]

theorem tidy_elseIf {e : ElseIf} :
    (elseIf e).Tidy ↔ (expression e.condition).Tidy ∧ (block e.block).Tidy := by
  rw [tidy_iff]
  simp [children, Labelled]

/-- A block in a branch that is taken otherwise is a block like any other. -/
theorem tidy_otherwise {b : Block} : (otherwise b).Tidy ↔ (block b).Tidy := by
  rw [tidy_iff, tidy_iff]
  rfl

end Node

end Syntax
end LuaFront
