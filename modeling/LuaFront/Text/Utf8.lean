/-!
# LuaFront.Text.Utf8

Byte strings and UTF-8. `encode` writes characters, `encodeValue` writes any value below `2^31`
in the scheme of one to six bytes, and `decode` reads bytes back, marking each ill-formed part.
-/

namespace LuaFront
namespace Text

/-- The number of bytes that a list of characters takes in UTF-8. -/
def size : List Char → Nat
  | [] => 0
  | c :: r => c.utf8Size + size r

@[simp] theorem size_nil : size [] = 0 := rfl

@[simp] theorem size_cons (c : Char) (r : List Char) : size (c :: r) = c.utf8Size + size r := rfl

@[simp] theorem size_append (a b : List Char) : size (a ++ b) = size a + size b := by
  induction a with
  | nil => simp
  | cons c r ih => simp [ih, Nat.add_assoc]

theorem length_le_size (cs : List Char) : cs.length ≤ size cs := by
  induction cs with
  | nil => simp
  | cons c r ih =>
    have := c.utf8Size_pos
    simp only [List.length_cons, size_cons]
    omega

namespace Utf8

def encode (cs : List Char) : List UInt8 := cs.flatMap String.utf8EncodeChar

/-- The continuation byte that carries the `i`-th group of six bits, counted from the lowest. -/
def continuation (value i : Nat) : UInt8 := UInt8.ofNat (0x80 + (value >>> (6 * i)) % 64)

/-- A leading byte marked by `lead`, followed by `count` continuation bytes. -/
def sequence (lead count value : Nat) : List UInt8 :=
  UInt8.ofNat (lead + value >>> (6 * count)) ::
    (List.range count).reverse.map (continuation value)

/-- The shortest form of a value below `2^31` in the scheme of one to six bytes. Surrogates and
values past the last character are written like any other. -/
def encodeValue (value : Nat) : List UInt8 :=
  if value < 0x80 then sequence 0 0 value
  else if value < 0x800 then sequence 0xC0 1 value
  else if value < 0x10000 then sequence 0xE0 2 value
  else if value < 0x200000 then sequence 0xF0 3 value
  else if value < 0x4000000 then sequence 0xF8 4 value
  else sequence 0xFC 5 value

def isContinuation (b : UInt8) : Bool := 0x80 ≤ b && b ≤ 0xBF

/-- Whether `second` may follow the leading byte `first` of a sequence of three bytes. This rules
out overlong forms and surrogates. -/
def secondOfThree (first second : UInt8) : Bool :=
  if first = 0xE0 then 0xA0 ≤ second && second ≤ 0xBF
  else if first = 0xED then 0x80 ≤ second && second ≤ 0x9F
  else isContinuation second

/-- Whether `second` may follow the leading byte `first` of a sequence of four bytes. This rules
out overlong forms and values past the last character. -/
def secondOfFour (first second : UInt8) : Bool :=
  if first = 0xF0 then 0x90 ≤ second && second ≤ 0xBF
  else if first = 0xF4 then 0x80 ≤ second && second ≤ 0x8F
  else isContinuation second

/-- The character whose leading byte keeps `first` bits and whose continuation bytes follow. -/
def assemble (first : Nat) (tail : List UInt8) : Char :=
  Char.ofNat (tail.foldl (fun value b => value * 64 + b.toNat % 64) first)

/-- The characters of a byte string, with `none` for each maximal ill-formed part. -/
def decode : List UInt8 → List (Option Char)
  | [] => []
  | a :: r =>
    if a < 0x80 then some (Char.ofNat a.toNat) :: decode r
    else if 0xC2 ≤ a && a ≤ 0xDF then
      match r with
      | [] => [none]
      | b :: r' =>
        if isContinuation b then some (assemble (a.toNat % 32) [b]) :: decode r'
        else none :: decode (b :: r')
    else if 0xE0 ≤ a && a ≤ 0xEF then
      match r with
      | [] => [none]
      | [b] => if secondOfThree a b then [none] else none :: decode [b]
      | b :: c :: r' =>
        if !secondOfThree a b then none :: decode (b :: c :: r')
        else if !isContinuation c then none :: decode (c :: r')
        else some (assemble (a.toNat % 16) [b, c]) :: decode r'
    else if 0xF0 ≤ a && a ≤ 0xF4 then
      match r with
      | [] => [none]
      | [b] => if secondOfFour a b then [none] else none :: decode [b]
      | [b, c] =>
        if !secondOfFour a b then none :: decode [b, c]
        else if !isContinuation c then none :: decode [c]
        else [none]
      | b :: c :: d :: r' =>
        if !secondOfFour a b then none :: decode (b :: c :: d :: r')
        else if !isContinuation c then none :: decode (c :: d :: r')
        else if !isContinuation d then none :: decode (d :: r')
        else some (assemble (a.toNat % 8) [b, c, d]) :: decode r'
    else none :: decode r

/-- The text of a byte string, if all of it is well formed. -/
def decode? (bytes : List UInt8) : Option (List Char) := (decode bytes).mapM id

/-- The text of a byte string, with U+FFFD for each maximal ill-formed part. -/
def decodeLossy (bytes : List UInt8) : List Char :=
  (decode bytes).map (·.getD '\uFFFD')

end Utf8
end Text
end LuaFront
