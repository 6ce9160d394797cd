import LuaFront.Syntax.Reading

/-!
# LuaFront.Syntax.Reading.Expression

Reading expressions. Everything here is said relative to readers for what may occur inside:
expressions and blocks of less depth.
-/

namespace LuaFront
namespace Syntax

open Text (Span)

/-- Readers for nested constructs. -/
structure Nested where
  /-- An expression whose binary operators bind tighter than the given precedence, or as tightly
  if they are right associative. -/
  operand : Nat → Read Expression
  block : Read Block

namespace Nested

/-- An expression with any operators. -/
def expression (inner : Nested) : Read Expression := inner.operand 0

def expressions (inner : Nested) : Read (List Expression) :=
  Read.separated (.sign .comma) inner.expression

end Nested

namespace Read

/-- What a prefix expression turned out to be. -/
inductive Shape where
  | parenthesized
  | variable
  | call
deriving DecidableEq, Inhabited, Repr

/-- The parameters up to the closing parenthesis, and whether they end in three dots. -/
def parameters : Read (List Name × Bool) := do
  if (← kind) = .sign .closeParenthesis then return ([], false)
  loop (fun names => do
    if ← takeIf (.sign .dotDotDot) then return .inr (names, true)
    let names := names ++ [← name]
    if ← takeIf (.sign .comma) then return .inl names else return .inr (names, false)) []

/-- Parameters and body of a function, from the opening parenthesis to `end`. -/
def functionBody (inner : Nested) : Read FunctionBody := do
  let start ← start
  let _ ← expect (.sign .openParenthesis)
  let (parameters, vararg) ← parameters
  let _ ← expect (.sign .closeParenthesis)
  let block ← inner.block
  let _ ← expect (.keyword .«end»)
  return { parameters, vararg, block, span := ← spanFrom start }

/-- The literal that a token stands for. -/
def literalOf (t : Token) : Literal :=
  match t.kind, t.value with
  | .keyword .«true», _ => .«true»
  | .keyword .«false», _ => .«false»
  | _, .number n => .number n
  | _, .string bytes => .string bytes
  | _, _ => .nil

def literal : Read Expression := do
  let t ← take
  return .literal (literalOf t) t.span

def field (inner : Nested) : Read Field := do
  let start ← start
  let named ←
    if (← kind) = .name then pure (decide ((← peekKind) = .sign .equals)) else pure false
  if (← kind) = .sign .openBracket then
    let _ ← take
    let key ← inner.expression
    let _ ← expect (.sign .closeBracket)
    let _ ← expect (.sign .equals)
    let value ← inner.expression
    return .keyed key value (← spanFrom start)
  else if named then
    let name ← name
    let _ ← take
    let value ← inner.expression
    return .named name value (← spanFrom start)
  else
    let value ← inner.expression
    return .positional value (← spanFrom start)

def table (inner : Nested) : Read Expression := do
  let start ← start
  let _ ← expect (.sign .openBrace)
  let fields ← loop (fun fields => do
    if (← kind) = .sign .closeBrace ∨ (← kind) = .endOfFile then return .inr fields
    let fields := fields ++ [← field inner]
    if (← kind) = .sign .comma ∨ (← kind) = .sign .semicolon then
      let _ ← take
      return .inl fields
    else return .inr fields) []
  let _ ← expect (.sign .closeBrace)
  return .table fields (← spanFrom start)

/-- The arguments of a call: a string, a table, or a list in parentheses. -/
def arguments (inner : Nested) : Read (List Expression) := do
  match ← kind with
  | .string => return [← literal]
  | .sign .openBrace => return [← table inner]
  | _ =>
    let _ ← expect (.sign .openParenthesis)
    let arguments ←
      if (← kind) = .sign .closeParenthesis then pure [] else inner.expressions
    let _ ← expect (.sign .closeParenthesis)
    return arguments

/-- What a prefix expression starts with. -/
def prefixHead (inner : Nested) : Read (Expression × Shape) := do
  let start ← start
  match ← kind with
  | .name => return (.name (← name), .variable)
  | .sign .openParenthesis =>
    let _ ← take
    let e ← inner.expression
    let _ ← expect (.sign .closeParenthesis)
    return (.parenthesized e (← spanFrom start), .parenthesized)
  | actual =>
    report (← span) (.expectedExpression actual)
    let t ← supply .name
    return (.name ⟨"", t.span⟩, .variable)

/-- One more index or call after an expression that started at `start`, or the end of it. -/
def suffix (inner : Nested) (start : Nat) (e : Expression × Shape) :
    Read ((Expression × Shape) ⊕ (Expression × Shape)) := do
  match ← kind with
  | .sign .dot =>
    let _ ← take
    let name ← name
    return .inl (.dotted e.1 name (← spanFrom start), .variable)
  | .sign .openBracket =>
    let _ ← take
    let index ← inner.expression
    let _ ← expect (.sign .closeBracket)
    return .inl (.index e.1 index (← spanFrom start), .variable)
  | .sign .colon =>
    let _ ← take
    let method ← name
    let arguments ← arguments inner
    return .inl (.call e.1 (some method) arguments (← spanFrom start), .call)
  | .sign .openParenthesis | .string | .sign .openBrace =>
    let arguments ← arguments inner
    return .inl (.call e.1 none arguments (← spanFrom start), .call)
  | _ => return .inr e

/-- A name or an expression in parentheses, with any number of indexes and calls after it. -/
def prefixExpression (inner : Nested) : Read (Expression × Shape) := do
  let start ← start
  let head ← prefixHead inner
  loop (suffix inner start) head

def primary (inner : Nested) : Read Expression := do
  let start ← start
  match ← kind with
  | .keyword .nil | .keyword .«true» | .keyword .«false» | .integer | .float | .string => literal
  | .sign .dotDotDot =>
    let _ ← take
    return .vararg (← spanFrom start)
  | .keyword .function =>
    let _ ← take
    let body ← functionBody inner
    return .function body (← spanFrom start)
  | .sign .openBrace => table inner
  | _ => return (← prefixExpression inner).1

/-- An operand that starts with a unary operator, or a primary one. -/
def unary (inner : Nested) : Read Expression := do
  let start ← start
  match UnaryOperator.ofKind? (← kind) with
  | some op =>
    let _ ← take
    let operand ← inner.operand UnaryOperator.precedence
    return .unary op operand (← spanFrom start)
  | none => primary inner

/-- Whether an operator may continue an operand of the given precedence. -/
def continues (parent : Nat) (op : BinaryOperator) : Bool :=
  parent < op.precedence || (op.precedence == parent && op.isRightAssociative)

/-- One more binary operator after an expression that started at `start`, or the end of it. -/
def infixed (inner : Nested) (parent start : Nat) (left : Expression) :
    Read (Expression ⊕ Expression) := do
  match BinaryOperator.ofKind? (← kind) with
  | some op =>
    if continues parent op then
      let _ ← take
      let right ← inner.operand op.precedence
      return .inl (.binary left op right (← spanFrom start))
    else return .inr left
  | none => return .inr left

/-- An expression by precedence climbing. -/
def operand (inner : Nested) (parent : Nat) : Read Expression := do
  let start ← start
  let left ← unary inner
  loop (infixed inner parent start) left

end Read
end Syntax
end LuaFront
