import LuaFront.Syntax.Basic

/-!
# LuaFront.Syntax.Node

Any part of a syntax tree as a node with a label and children, the walk through all of them, and
the drawing of a tree with one line for each node.
-/

namespace LuaFront
namespace Syntax

open Text (Span)

inductive Node where
  | chunk (c : Chunk)
  | block (b : Block)
  | statement (s : Statement)
  | result (r : Return)
  | elseIf (e : ElseIf)
  | otherwise (b : Block)
  | expression (e : Expression)
  | field (f : Field)
  | functionName (f : FunctionName)
  | functionBody (f : FunctionBody)
  | declaration (d : LocalDeclaration)
  | name (n : Name)

/-- The parts of a block, in the order of the text. -/
def Block.parts (b : Block) : List Node :=
  b.statements.map .statement ++ (b.result.map Node.result).toList

def Statement.parts : Statement → List Node
  | .assign ts vs _ => ts.map .expression ++ vs.map .expression
  | .declare ds vs _ => ds.map .declaration ++ vs.map .expression
  | .call e _ => [.expression e]
  | .ifThen c b es o _ =>
    .expression c :: .block b :: (es.map .elseIf ++ (o.map Node.otherwise).toList)
  | .whileDo c b _ => [.expression c, .block b]
  | .repeatUntil b c _ => [.block b, .expression c]
  | .numericFor n first last step b _ =>
    .name n :: .expression first :: .expression last ::
      ((step.map Node.expression).toList ++ [.block b])
  | .genericFor ns vs b _ => ns.map .name ++ vs.map .expression ++ [.block b]
  | .doBlock b _ => [.block b]
  | .breakLoop _ => []
  | .goto n _ => [.name n]
  | .label n _ => [.name n]
  | .function n f _ => [.functionName n, .functionBody f]
  | .localFunction n f _ => [.name n, .functionBody f]

def Expression.parts : Expression → List Node
  | .literal .. | .vararg _ | .name _ => []
  | .function f _ => [.functionBody f]
  | .table fs _ => fs.map .field
  | .unary _ e _ => [.expression e]
  | .binary l _ r _ => [.expression l, .expression r]
  | .parenthesized e _ => [.expression e]
  | .call f _ es _ => .expression f :: es.map .expression
  | .index t i _ => [.expression t, .expression i]
  | .dotted t _ _ => [.expression t]

def Field.parts : Field → List Node
  | .positional v _ | .named _ v _ => [.expression v]
  | .keyed k v _ => [.expression k, .expression v]

def Statement.title : Statement → String
  | .assign .. => "AssignmentStatement"
  | .declare .. => "LocalStatement"
  | .call .. => "CallStatement"
  | .ifThen .. => "IfStatement"
  | .whileDo .. => "WhileStatement"
  | .repeatUntil .. => "RepeatStatement"
  | .numericFor .. => "NumericForStatement"
  | .genericFor .. => "GenericForStatement"
  | .doBlock .. => "DoStatement"
  | .breakLoop .. => "BreakStatement"
  | .goto .. => "GotoStatement"
  | .label .. => "LabelStatement"
  | .function .. => "FunctionStatement"
  | .localFunction .. => "LocalFunctionStatement"

def Expression.title : Expression → String
  | .literal v _ => "LiteralExpression " ++ v.render
  | .vararg _ => "VarargExpression"
  | .function .. => "FunctionExpression"
  | .table .. => "TableExpression"
  | .unary op _ _ => "UnaryExpression " ++ op.spelling
  | .binary _ op _ _ => "BinaryExpression " ++ op.spelling
  | .parenthesized .. => "ParenthesizedExpression"
  | .call _ (some m) _ _ => "CallExpression :" ++ m.text
  | .call _ none _ _ => "CallExpression"
  | .name n => "NameExpression " ++ n.text
  | .index .. => "IndexExpression"
  | .dotted _ n _ => "DottedAccessExpression ." ++ n.text

def Field.title : Field → String
  | .positional .. => "PositionalField"
  | .named n _ _ => "NamedField " ++ n.text
  | .keyed .. => "KeyedField"

def LocalDeclaration.title (d : LocalDeclaration) : String :=
  "LocalDeclaration " ++ d.name.text ++ (d.attrib.map (" <" ++ ·.text ++ ">")).getD ""

namespace Node

def span : Node → Span
  | .chunk c => c.span
  | .block b | .otherwise b => b.span
  | .statement s => s.span
  | .result r => r.span
  | .elseIf e => e.span
  | .expression e => e.span
  | .field f => f.span
  | .functionName f => f.span
  | .functionBody f => f.span
  | .declaration d => d.span
  | .name n => n.span

/-- The direct children of a node, in the order of the text. -/
def children : Node → List Node
  | .chunk c => [.block c.block]
  | .block b | .otherwise b => b.parts
  | .statement s => s.parts
  | .result r => r.values.map .expression
  | .elseIf e => [.expression e.condition, .block e.block]
  | .expression e => e.parts
  | .field f => f.parts
  | .functionBody f => f.parameters.map .name ++ [.block f.block]
  | .functionName _ | .declaration _ | .name _ => []

def title : Node → String
  | .chunk _ => "Chunk"
  | .block _ => "Block"
  | .otherwise _ => "ElseClause"
  | .result _ => "ReturnStatement"
  | .elseIf _ => "ElseIfClause"
  | .statement s => s.title
  | .expression e => e.title
  | .field f => f.title
  | .functionName f => "FunctionName " ++ f.render
  | .functionBody f => if f.vararg then "FunctionBody ..." else "FunctionBody"
  | .declaration d => d.title
  | .name n => "Name " ++ n.text

/-- What a node is, and where. -/
def label (n : Node) : String := n.title ++ " " ++ n.span.render

theorem sizeOf_lt_of_mem_children {n c : Node} (h : c ∈ n.children) : sizeOf c < sizeOf n := by
  cases n with
  | chunk k =>
    cases k
    simp only [children, List.mem_singleton] at h
    subst h
    simp only [Node.block.sizeOf_spec, Node.chunk.sizeOf_spec, Chunk.mk.sizeOf_spec]
    omega
  | block b => cases b; simp [children, Block.parts] at h; grind [→ List.sizeOf_lt_of_mem]
  | otherwise b => cases b; simp [children, Block.parts] at h; grind [→ List.sizeOf_lt_of_mem]
  | statement s =>
    cases s <;> simp [children, Statement.parts] at h <;> grind [→ List.sizeOf_lt_of_mem]
  | expression e =>
    cases e <;> simp [children, Expression.parts] at h <;> grind [→ List.sizeOf_lt_of_mem]
  | field f => cases f <;> simp [children, Field.parts] at h <;> grind
  | functionBody f => cases f; simp [children] at h; grind [→ List.sizeOf_lt_of_mem]
  | result r => cases r; simp [children] at h; grind [→ List.sizeOf_lt_of_mem]
  | elseIf e => cases e; simp [children] at h; grind
  | functionName f => simp [children] at h
  | declaration d => simp [children] at h
  | name n => simp [children] at h

end Node
end Syntax
end LuaFront
