import LuaFront.Resolved.Basic

/-!
# LuaFront.Resolved.Printer

Resolved programs as text, one statement after another and blocks indented by tabs.
-/

namespace LuaFront
namespace Resolved

open Syntax (UnaryOperator)

/-- Whether an identifier may start with a byte. -/
def isIdentifierStart (b : UInt8) : Bool :=
  ('a'.toUInt8 ≤ b && b ≤ 'z'.toUInt8) || ('A'.toUInt8 ≤ b && b ≤ 'Z'.toUInt8) || b == '_'.toUInt8

/-- Whether an identifier may hold a byte. -/
def isIdentifierByte (b : UInt8) : Bool :=
  isIdentifierStart b || ('0'.toUInt8 ≤ b && b ≤ '9'.toUInt8)

/-- Whether a byte string can follow a point: one that looks like a name, other than a keyword. -/
def isIdentifier (key : List UInt8) : Bool :=
  key.head?.any isIdentifierStart && key.all isIdentifierByte &&
    (Text.Utf8.decode? key).any fun word => (Keyword.ofWord? (String.ofList word)).isNone

def indent (depth : Nat) : String := String.ofList (List.replicate depth '\t')

def commas (items : List String) : String := String.intercalate ", " items

mutual

/-- An expression, of which the lines after the first are indented to `depth`. -/
def Expression.renderAt (depth : Nat) : Expression → String
  | .literal value => value.render
  | .name symbol => symbol.name
  | .vararg => "..."
  | .function parameters vararg body =>
    "function(" ++ commas (parameters.map Local.name ++ if vararg then ["..."] else []) ++ ")\n" ++
      renderBlock (depth + 1) body ++ indent depth ++ "end"
  | .table fields => "\x7b" ++ commas (renderFields depth fields) ++ "\x7d"
  | .unary .logicalNot operand => "not " ++ operand.renderAt depth
  | .unary op operand => op.spelling ++ operand.renderAt depth
  | .binary left op right =>
    "(" ++ left.renderAt depth ++ " " ++ op.spelling ++ " " ++ right.renderAt depth ++ ")"
  | .parenthesized inner => "(" ++ inner.renderAt depth ++ ")"
  | .call receiver method arguments =>
    receiver.renderAt depth ++ (method.map (":" ++ ·)).getD "" ++
      "(" ++ commas (renderAll depth arguments) ++ ")"
  | .index target (.literal (.string key)) =>
    target.renderAt depth ++
      (if isIdentifier key then "." ++ String.ofList (Text.Utf8.decodeLossy key)
       else "[" ++ Text.Quoted.bytes key ++ "]")
  | .index target index => target.renderAt depth ++ "[" ++ index.renderAt depth ++ "]"
  | .error => "<error>"

def renderAll (depth : Nat) : List Expression → List String
  | [] => []
  | e :: later => e.renderAt depth :: renderAll depth later

def renderFields (depth : Nat) : List Field → List String
  | [] => []
  | .positional _ value :: later => value.renderAt depth :: renderFields depth later
  | .keyed key value :: later =>
    ("[" ++ key.renderAt depth ++ "] = " ++ value.renderAt depth) :: renderFields depth later

def renderElseIfs (depth : Nat) : List Branch → String
  | [] => ""
  | ⟨condition, block⟩ :: later =>
    indent depth ++ "elseif " ++ condition.renderAt depth ++ " then\n" ++
      renderBlock (depth + 1) block ++ renderElseIfs depth later

/-- A statement without its indentation and its line ending. -/
def Statement.renderAt (depth : Nat) : Statement → String
  | .expression e => e.renderAt depth
  | .assign targets values =>
    commas (renderAll depth targets) ++ " = " ++ commas (renderAll depth values)
  | .declare symbols values =>
    "local " ++ commas (symbols.map Local.renderDeclared) ++
      (if values.isEmpty then "" else " = " ++ commas (renderAll depth values))
  | .result values =>
    "return" ++ (if values.isEmpty then "" else " " ++ commas (renderAll depth values))
  | .ifThen condition block elseIfs otherwise =>
    "if " ++ condition.renderAt depth ++ " then\n" ++ renderBlock (depth + 1) block ++
      renderElseIfs depth elseIfs ++
      (match otherwise with
        | none => ""
        | some block => indent depth ++ "else\n" ++ renderBlock (depth + 1) block) ++
      indent depth ++ "end"
  | .whileDo condition block exit =>
    "while " ++ condition.renderAt depth ++ " do -- " ++ exit.name ++ "\n" ++
      renderBlock (depth + 1) block ++ indent depth ++ "end"
  | .repeatUntil block condition exit =>
    "repeat -- " ++ exit.name ++ "\n" ++ renderBlock (depth + 1) block ++
      indent depth ++ "until " ++ condition.renderAt depth
  | .numericFor counter initial limit step block exit =>
    "for " ++ counter.name ++ " = " ++
      commas [initial.renderAt depth, limit.renderAt depth, step.renderAt depth] ++
      " do -- " ++ exit.name ++ "\n" ++ renderBlock (depth + 1) block ++ indent depth ++ "end"
  | .genericFor symbols values block exit =>
    "for " ++ commas (symbols.map Local.name) ++ " in " ++ commas (renderAll depth values) ++
      " do -- " ++ exit.name ++ "\n" ++ renderBlock (depth + 1) block ++ indent depth ++ "end"
  | .doBlock block => "do\n" ++ renderBlock (depth + 1) block ++ indent depth ++ "end"
  | .goto label => "goto " ++ label.name
  | .gotoIf label condition wanted =>
    "goto " ++ label.name ++ (if wanted then " if " else " unless ") ++ condition.renderAt depth
  | .label label => "::" ++ label.name ++ "::"

def renderBlock (depth : Nat) : List Statement → String
  | [] => ""
  | s :: later => indent depth ++ s.renderAt depth ++ "\n" ++ renderBlock depth later

end

def Expression.render (e : Expression) : String := e.renderAt 0

def Statement.render (s : Statement) : String := s.renderAt 0 ++ "\n"

/-- The text of a block at the left margin. -/
def Block.render (b : Block) : String := renderBlock 0 b

end Resolved
end LuaFront
