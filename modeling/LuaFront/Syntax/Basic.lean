import LuaFront.Syntax.Operator
import LuaFront.Token.Basic

/-!
# LuaFront.Syntax.Basic

Syntax trees. Every part of a tree carries the stretch of text it was read from; what was made up
in place of something absent has width zero.
-/

namespace LuaFront
namespace Syntax

open Text (Span)

/-- An identifier and where it was written. -/
structure Name where
  text : String
  span : Span
deriving DecidableEq, Inhabited, Repr

inductive Literal where
  | nil
  | «true»
  | «false»
  | number (n : Number)
  | string (bytes : List UInt8)
deriving DecidableEq, Inhabited, Repr

namespace Literal

def render : Literal → String
  | .nil => "nil"
  | .«true» => "true"
  | .«false» => "false"
  | .number n => n.render
  | .string bytes => Text.Quoted.bytes bytes

/-- Equality that compares numbers as numbers, so that a NaN differs from itself. -/
def equal (a b : Literal) : Bool :=
  match a, b with
  | .number m, .number n => m.equal n
  | a, b => decide (a = b)

end Literal

/-- The name of a declared function, such as `a.b.c:m`. -/
structure FunctionName where
  path : List Name
  method : Option Name
  span : Span
deriving DecidableEq, Inhabited, Repr

def FunctionName.render (f : FunctionName) : String :=
  String.intercalate "." (f.path.map Name.text) ++ (f.method.map (":" ++ ·.text)).getD ""

/-- One variable of a local declaration, with its attribute. -/
structure LocalDeclaration where
  name : Name
  attrib : Option Name
  span : Span
deriving DecidableEq, Inhabited, Repr

mutual

inductive Expression where
  | literal (value : Literal) (span : Span)
  | vararg (span : Span)
  | function (body : FunctionBody) (span : Span)
  | table (fields : List Field) (span : Span)
  | unary (op : UnaryOperator) (operand : Expression) (span : Span)
  | binary (left : Expression) (op : BinaryOperator) (right : Expression) (span : Span)
  | parenthesized (inner : Expression) (span : Span)
  | call (receiver : Expression) (method : Option Name) (arguments : List Expression) (span : Span)
  | name (name : Name)
  | index (target index : Expression) (span : Span)
  | dotted (target : Expression) (name : Name) (span : Span)

/-- An entry of a table constructor. -/
inductive Field where
  | positional (value : Expression) (span : Span)
  | named (name : Name) (value : Expression) (span : Span)
  | keyed (key value : Expression) (span : Span)

/-- The parameters and the body of a function. -/
structure FunctionBody where
  parameters : List Name
  vararg : Bool
  block : Block
  span : Span

/-- Statements, which a return may end. -/
structure Block where
  statements : List Statement
  result : Option Return
  span : Span

structure Return where
  values : List Expression
  span : Span

structure ElseIf where
  condition : Expression
  block : Block
  span : Span

inductive Statement where
  | assign (targets values : List Expression) (span : Span)
  | declare (declarations : List LocalDeclaration) (values : List Expression) (span : Span)
  | call (call : Expression) (span : Span)
  | ifThen (condition : Expression) (block : Block) (elseIfs : List ElseIf)
      (otherwise : Option Block) (span : Span)
  | whileDo (condition : Expression) (block : Block) (span : Span)
  | repeatUntil (block : Block) (condition : Expression) (span : Span)
  | numericFor (counter : Name) (initial limit : Expression) (step : Option Expression)
      (block : Block) (span : Span)
  | genericFor (names : List Name) (values : List Expression) (block : Block) (span : Span)
  | doBlock (block : Block) (span : Span)
  | breakLoop (span : Span)
  | goto (label : Name) (span : Span)
  | label (name : Name) (span : Span)
  | function (name : FunctionName) (body : FunctionBody) (span : Span)
  | localFunction (name : Name) (body : FunctionBody) (span : Span)

end

deriving instance Inhabited for Expression
deriving instance Inhabited for Block

/-- A whole program. -/
structure Chunk where
  block : Block
  span : Span
deriving Inhabited

namespace Expression

def span : Expression → Span
  | .literal _ s | .vararg s | .function _ s | .table _ s | .unary _ _ s | .binary _ _ _ s
  | .parenthesized _ s | .call _ _ _ s | .index _ _ s | .dotted _ _ s => s
  | .name n => n.span

/-- Whether an expression can be assigned to. -/
def isVariable : Expression → Bool
  | .name _ | .index .. | .dotted .. => true
  | _ => false

end Expression

def Field.span : Field → Span
  | .positional _ s | .named _ _ s | .keyed _ _ s => s

def Statement.span : Statement → Span
  | .assign _ _ s | .declare _ _ s | .call _ s | .ifThen _ _ _ _ s | .whileDo _ _ s
  | .repeatUntil _ _ s | .numericFor _ _ _ _ _ s | .genericFor _ _ _ s | .doBlock _ s
  | .breakLoop s | .goto _ s | .label _ s | .function _ _ s | .localFunction _ _ s => s

end Syntax
end LuaFront
