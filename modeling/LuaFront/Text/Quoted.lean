import LuaFront.Text.Printable
import LuaFront.Text.Utf8

/-!
# LuaFront.Text.Quoted

Text shown between quotes, with escapes for whatever would not show as itself.
-/

namespace LuaFront
namespace Text
namespace Quoted

/-- The escape of a character by its code point, in hexadecimal between braces. -/
def codePoint (c : Char) : List Char :=
  ['\\', 'u', '\x7b'] ++ Nat.toDigits 16 c.toNat ++ ['\x7d']

/-- A character as it is shown, where the characters of `quotes` are escaped too. -/
def escape (quotes : List Char) (c : Char) : List Char :=
  if c = '\x00' then ['\\', '0']
  else if c = '\t' then ['\\', 't']
  else if c = '\r' then ['\\', 'r']
  else if c = '\n' then ['\\', 'n']
  else if c = '\\' || quotes.contains c then ['\\', c]
  else if Printable.isPrintable c && !Printable.isExtender c then [c]
  else codePoint c

/-- A single character, shown so that it can stand between quotes of either kind. -/
def character (c : Char) : String := String.ofList (escape ['"', '\''] c)

/-- A text between double quotes. -/
def text (cs : List Char) : String :=
  String.ofList ('"' :: cs.flatMap (escape ['"']) ++ ['"'])

/-- A byte string between double quotes. -/
def bytes (bs : List UInt8) : String := text (Utf8.decodeLossy bs)

end Quoted
end Text
end LuaFront
