import LuaFront.Resolved.Basic

/-!
# LuaFront.Resolved.Transform

Transforms of resolved programs. A transform says what becomes of the leaves of a program, with a
state that it may read and change, and how two kinds of expressions are put together again. Leaves
are visited once each, in the order in which they are written.
-/

namespace LuaFront
namespace Resolved

open Syntax (BinaryOperator Literal)

structure Transform (σ : Type) where
  literal : Literal → StateM σ Expression := fun value => pure (.literal value)
  name : Local → StateM σ Expression := fun symbol => pure (.name symbol)
  vararg : StateM σ Expression := pure .vararg
  error : StateM σ Expression := pure .error
  goto : Label → StateM σ Statement := fun label => pure (.goto label)
  label : Label → StateM σ Statement := fun label => pure (.label label)
  /-- Joins two operands that were transformed already. -/
  binary : Expression → BinaryOperator → Expression → Expression := .binary
  /-- Encloses an expression that was transformed already. -/
  parenthesized : Expression → Expression := .parenthesized

namespace Transform

variable {σ : Type}

mutual

def expression (t : Transform σ) : Expression → StateM σ Expression
  | .literal value => t.literal value
  | .name symbol => t.name symbol
  | .vararg => t.vararg
  | .function parameters vararg body => return .function parameters vararg (← t.block body)
  | .table fields => return .table (← t.fields fields)
  | .unary op operand => return .unary op (← t.expression operand)
  | .binary left op right => do
    let left ← t.expression left
    return t.binary left op (← t.expression right)
  | .parenthesized inner => return t.parenthesized (← t.expression inner)
  | .call receiver method arguments => do
    let receiver ← t.expression receiver
    return .call receiver method (← t.expressions arguments)
  | .index target index => do
    let target ← t.expression target
    return .index target (← t.expression index)
  | .error => t.error

def expressions (t : Transform σ) : List Expression → StateM σ (List Expression)
  | [] => return []
  | e :: later => do
    let e ← t.expression e
    return e :: (← t.expressions later)

def fields (t : Transform σ) : List Field → StateM σ (List Field)
  | [] => return []
  | .positional position value :: later => do
    let value ← t.expression value
    return .positional position value :: (← t.fields later)
  | .keyed key value :: later => do
    let key ← t.expression key
    let value ← t.expression value
    return .keyed key value :: (← t.fields later)

def branches (t : Transform σ) : List Branch → StateM σ (List Branch)
  | [] => return []
  | ⟨condition, block⟩ :: later => do
    let condition ← t.expression condition
    let block ← t.block block
    return ⟨condition, block⟩ :: (← t.branches later)

def statement (t : Transform σ) : Statement → StateM σ Statement
  | .expression e => return .expression (← t.expression e)
  | .assign targets values => do
    let targets ← t.expressions targets
    return .assign targets (← t.expressions values)
  | .declare symbols values => return .declare symbols (← t.expressions values)
  | .result values => return .result (← t.expressions values)
  | .ifThen condition block elseIfs otherwise => do
    let condition ← t.expression condition
    let block ← t.block block
    let elseIfs ← t.branches elseIfs
    match otherwise with
    | none => return .ifThen condition block elseIfs none
    | some otherwise => return .ifThen condition block elseIfs (some (← t.block otherwise))
  | .whileDo condition block exit => do
    let condition ← t.expression condition
    return .whileDo condition (← t.block block) exit
  | .repeatUntil block condition exit => do
    let block ← t.block block
    return .repeatUntil block (← t.expression condition) exit
  | .numericFor counter initial limit step block exit => do
    let initial ← t.expression initial
    let limit ← t.expression limit
    let step ← t.expression step
    return .numericFor counter initial limit step (← t.block block) exit
  | .genericFor symbols values block exit => do
    let values ← t.expressions values
    return .genericFor symbols values (← t.block block) exit
  | .doBlock block => return .doBlock (← t.block block)
  | .goto label => t.goto label
  | .gotoIf label condition wanted => return .gotoIf label (← t.expression condition) wanted
  | .label label => t.label label

def block (t : Transform σ) : List Statement → StateM σ (List Statement)
  | [] => return []
  | s :: later => do
    let s ← t.statement s
    return s :: (← t.block later)

end

/-- Changes nothing. -/
def identity : Transform Unit := {}

/-- Doubles every integer, modulo `2^64`. -/
def doubling : Transform Unit where
  literal value := match value with
    | .number (.integer n) => pure (.integer (n * 2))
    | value => pure (.literal value)

/-- Swaps the operands of every binary operator, and drops parentheses. -/
def swapping : Transform Unit where
  binary left op right := .binary right op left
  parenthesized inner := inner

/-- Changes nothing, and notes every leaf. -/
def tracing : Transform (List String) where
  literal value := do note ("literal " ++ value.render); return .literal value
  name symbol := do note ("name " ++ symbol.name); return .name symbol
  vararg := do note "vararg"; return .vararg
  error := do note "error"; return .error
  goto label := do note ("goto " ++ label.name); return .goto label
  label label := do note ("label " ++ label.name); return .label label
where
  note (line : String) : StateM (List String) Unit := modify (· ++ [line])

end Transform
end Resolved
end LuaFront
