import LuaFront.Token.Kind

/-!
# LuaFront.Syntax.Operator

The operators of expressions, and how tightly they bind.
-/

namespace LuaFront
namespace Syntax

inductive BinaryOperator where
  | add
  | subtract
  | multiply
  | divide
  | floorDivide
  | modulo
  | exponent
  | bitwiseAnd
  | bitwiseOr
  | bitwiseXor
  | shiftLeft
  | shiftRight
  | equal
  | notEqual
  | lessThan
  | lessThanOrEqual
  | greaterThan
  | greaterThanOrEqual
  | logicalAnd
  | logicalOr
  | concat
deriving DecidableEq, Inhabited, Repr

namespace BinaryOperator

def all : List BinaryOperator :=
  [.add, .subtract, .multiply, .divide, .floorDivide, .modulo, .exponent, .bitwiseAnd, .bitwiseOr,
    .bitwiseXor, .shiftLeft, .shiftRight, .equal, .notEqual, .lessThan, .lessThanOrEqual,
    .greaterThan, .greaterThanOrEqual, .logicalAnd, .logicalOr, .concat]

/-- The token that writes an operator. -/
def kind : BinaryOperator → Kind
  | .add => .sign .plus
  | .subtract => .sign .minus
  | .multiply => .sign .asterisk
  | .divide => .sign .slash
  | .floorDivide => .sign .slashSlash
  | .modulo => .sign .percent
  | .exponent => .sign .caret
  | .bitwiseAnd => .sign .ampersand
  | .bitwiseOr => .sign .pipe
  | .bitwiseXor => .sign .tilde
  | .shiftLeft => .sign .lessLess
  | .shiftRight => .sign .greaterGreater
  | .equal => .sign .equalsEquals
  | .notEqual => .sign .tildeEquals
  | .lessThan => .sign .less
  | .lessThanOrEqual => .sign .lessEquals
  | .greaterThan => .sign .greater
  | .greaterThanOrEqual => .sign .greaterEquals
  | .logicalAnd => .keyword .and
  | .logicalOr => .keyword .or
  | .concat => .sign .dotDot

def ofKind? (k : Kind) : Option BinaryOperator := all.find? (·.kind = k)

def spelling (o : BinaryOperator) : String := o.kind.spelling

/-- How tightly an operator binds. -/
def precedence : BinaryOperator → Nat
  | .exponent => 12
  | .multiply | .divide | .floorDivide | .modulo => 10
  | .add | .subtract => 9
  | .concat => 8
  | .shiftLeft | .shiftRight => 7
  | .bitwiseAnd => 6
  | .bitwiseXor => 5
  | .bitwiseOr => 4
  | .equal | .notEqual | .lessThan | .lessThanOrEqual | .greaterThan | .greaterThanOrEqual => 3
  | .logicalAnd => 2
  | .logicalOr => 1

def isRightAssociative : BinaryOperator → Bool
  | .exponent | .concat => true
  | _ => false

end BinaryOperator

inductive UnaryOperator where
  | negate
  | bitwiseNot
  | logicalNot
  | length
deriving DecidableEq, Inhabited, Repr

namespace UnaryOperator

def all : List UnaryOperator := [.negate, .bitwiseNot, .logicalNot, .length]

/-- The token that writes an operator. -/
def kind : UnaryOperator → Kind
  | .negate => .sign .minus
  | .bitwiseNot => .sign .tilde
  | .logicalNot => .keyword .not
  | .length => .sign .hash

def ofKind? (k : Kind) : Option UnaryOperator := all.find? (·.kind = k)

def spelling (o : UnaryOperator) : String := o.kind.spelling

/-- Unary operators bind tighter than every binary one but exponentiation. -/
def precedence : Nat := 11

end UnaryOperator
end Syntax
end LuaFront
