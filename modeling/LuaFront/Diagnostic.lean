import LuaFront.Text.Quoted
import LuaFront.Text.Span
import LuaFront.Token.Kind

/-!
# LuaFront.Diagnostic

Problems with a program's text. None of them stops anything: each is noted with the stretch of
text it concerns, and the work goes on.
-/

namespace LuaFront

open Text (Span)

/-- What went wrong. -/
inductive Cause where
  | unterminatedString
  | unterminatedLongString
  | unterminatedLongComment
  | invalidLongStringDelimiter
  | badCharacter (c : Char)
  | invalidEscape (c : Option Char)
  | unterminatedEscape
  | incompleteEscape
  | expectedCharacter (actual : Option Char) (expected : Char)
  | decimalEscapeTooLarge
  | utf8ValueTooLarge
  | malformedNumber
  | unexpectedToken (expected actual : Kind)
  | expectedExpression (actual : Kind)
  | invalidAssignmentTarget
  | undefinedLabel (name : String)
  | duplicateLabel (name : String)
  | unexpectedBreak
  | varargOutsideVarargFunction
  | unknownAttribute (name : String)
  | multipleToBeClosed
  | assignToConstant (name : String)
deriving DecidableEq, Inhabited, Repr

namespace Cause

/-- A character that was met, or the end of the text. -/
def met : Option Char → String
  | some c => Text.Quoted.character c
  | none => "<eof>"

def message : Cause → String
  | .unterminatedString => "Unterminated string literal."
  | .unterminatedLongString => "Unterminated long string literal."
  | .unterminatedLongComment => "Unterminated long comment."
  | .invalidLongStringDelimiter => "Invalid long string delimiter."
  | .badCharacter c => "Bad character input '" ++ met (some c) ++ "'."
  | .invalidEscape c => "Invalid escape sequence '\\" ++ met c ++ "'."
  | .unterminatedEscape => "Unterminated escape sequence."
  | .incompleteEscape => "Incomplete escape sequence."
  | .expectedCharacter actual expected =>
    "Unexpected character '" ++ met actual ++ "', expected '" ++ met (some expected) ++ "'."
  | .decimalEscapeTooLarge => "Decimal escape too large."
  | .utf8ValueTooLarge => "UTF-8 value too large."
  | .malformedNumber => "Malformed number."
  | .unexpectedToken expected actual =>
    "Unexpected token <" ++ actual.title ++ ">, expected <" ++ expected.title ++ ">."
  | .expectedExpression actual =>
    "Unexpected token <" ++ actual.title ++ ">, expected <expression>."
  | .invalidAssignmentTarget => "Expression cannot be assigned to."
  | .undefinedLabel name => "Undefined label '" ++ name ++ "'."
  | .duplicateLabel name => "Label '" ++ name ++ "' already defined."
  | .unexpectedBreak => "Unexpected break statement outside of loop."
  | .varargOutsideVarargFunction => "Cannot use '...' outside a vararg function."
  | .unknownAttribute name => "Unknown attribute '" ++ name ++ "'."
  | .multipleToBeClosed => "Multiple to-be-closed variables in local list."
  | .assignToConstant name => "Attempt to assign to const variable '" ++ name ++ "'."

end Cause

structure Diagnostic where
  span : Span
  cause : Cause
deriving DecidableEq, Inhabited, Repr

namespace Diagnostic

def message (d : Diagnostic) : String := d.cause.message

def render (d : Diagnostic) : String := d.span.render ++ ": " ++ d.message

end Diagnostic
end LuaFront
