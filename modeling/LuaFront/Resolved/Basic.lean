import LuaFront.Resolved.Symbol
import LuaFront.Syntax.Basic

/-!
# LuaFront.Resolved.Basic

Programs in which every name is resolved: a variable is a symbol, a global one is an index of the
environment, leaving a loop is a jump, and declaring a function is an assignment.
-/

namespace LuaFront
namespace Resolved

open Syntax (BinaryOperator Literal UnaryOperator)

mutual

inductive Expression where
  | literal (value : Literal)
  | name (symbol : Local)
  | vararg
  | function (parameters : List Local) (vararg : Bool) (body : List Statement)
  | table (fields : List Field)
  | unary (op : UnaryOperator) (operand : Expression)
  | binary (left : Expression) (op : BinaryOperator) (right : Expression)
  | parenthesized (inner : Expression)
  | call (receiver : Expression) (method : Option String) (arguments : List Expression)
  | index (target index : Expression)
  /-- What stands in for something that could not be resolved. -/
  | error

inductive Field where
  /-- An entry without a key, numbered among those like it from zero. -/
  | positional (position : Int) (value : Expression)
  | keyed (key value : Expression)

/-- A condition, and what is run under it. -/
structure Branch where
  condition : Expression
  block : List Statement

inductive Statement where
  | expression (e : Expression)
  | assign (targets values : List Expression)
  | declare (symbols : List Local) (values : List Expression)
  | result (values : List Expression)
  | ifThen (condition : Expression) (block : List Statement) (elseIfs : List Branch)
      (otherwise : Option (List Statement))
  | whileDo (condition : Expression) (block : List Statement) (exit : Label)
  | repeatUntil (block : List Statement) (condition : Expression) (exit : Label)
  | numericFor (counter : Local) (initial limit step : Expression) (block : List Statement)
      (exit : Label)
  | genericFor (symbols : List Local) (values : List Expression) (block : List Statement)
      (exit : Label)
  | doBlock (block : List Statement)
  | goto (label : Label)
  /-- A jump if the truth of the condition is as wanted. -/
  | gotoIf (label : Label) (condition : Expression) (wanted : Bool)
  | label (label : Label)

end

deriving instance Inhabited for Expression
deriving instance Inhabited for Field
deriving instance Inhabited for Statement

/-- The statements of a block, in order. -/
abbrev Block := List Statement

namespace Expression

def integer (n : Int64) : Expression := .literal (.number (.integer n))

/-- The string of a name's characters. -/
def string (text : String) : Expression := .literal (.string (Text.Utf8.encode text.toList))

def nil : Expression := .literal .nil

end Expression

/-- Whether a statement has control flow that flattening removes. -/
def Statement.isStructured : Statement → Bool
  | .ifThen .. | .whileDo .. | .repeatUntil .. | .numericFor .. | .genericFor .. => true
  | _ => false

/-- The expressions that a statement holds directly, apart from the targets of an assignment. -/
def Statement.expressions : Statement → List Expression
  | .expression e => [e]
  | .assign _ values | .declare _ values | .result values => values
  | .gotoIf _ condition _ => [condition]
  | _ => []

end Resolved
end LuaFront
