import LuaFront.Number.Numeral
import LuaFront.Number.Shortest
import LuaFront.Text.Quoted
import LuaFront.Text.Span
import LuaFront.Token.Kind

/-!
# LuaFront.Token.Basic

Tokens: a kind, the stretch of text it was read from, and the value it carries.
-/

namespace LuaFront

open Text (Span)

/-- What a token carries besides its kind. -/
inductive Value where
  | none
  | number (n : Number)
  /-- The contents of a string, which need not be well-formed UTF-8. -/
  | string (bytes : List UInt8)
  | name (text : String)
deriving DecidableEq, Inhabited, Repr

structure Token where
  kind : Kind
  span : Span
  value : Value
  /-- Whether the token stands in for an expected one that is absent. -/
  missing : Bool
deriving DecidableEq, Inhabited, Repr

namespace Number

def render : Number → String
  | .integer n => toString n.toInt
  | .float x => x.render

/-- Numeric equality, under which a NaN differs from itself. -/
def equal : Number → Number → Bool
  | .integer m, .integer n => m == n
  | .float x, .float y => x.equal y
  | _, _ => false

end Number

namespace Value

def equal : Value → Value → Bool
  | .none, .none => true
  | .number m, .number n => m.equal n
  | .string a, .string b => a == b
  | .name a, .name b => a == b
  | _, _ => false

end Value

namespace Token

/-- A token of width zero in place of an absent one. -/
def absent (kind : Kind) (offset : Nat) : Token := ⟨kind, Span.empty offset, .none, true⟩

/-- The text of a name, and nothing for any other token. -/
def name (t : Token) : String :=
  match t.value with
  | .name text => text
  | _ => ""

def render (t : Token) : String :=
  match t.value with
  | .none => t.kind.spelling
  | .number n => n.render
  | .string bytes => Text.Quoted.bytes bytes
  | .name text => text

def equal (a b : Token) : Bool :=
  a.kind == b.kind && a.span == b.span && a.value.equal b.value && a.missing == b.missing

end Token
end LuaFront
