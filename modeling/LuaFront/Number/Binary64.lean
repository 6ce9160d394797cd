/-!
# LuaFront.Number.Binary64

Binary floating point numbers of 64 bits, with every rounding carried out exactly on natural
numbers: a quotient, a product or a power of two is the nearest number, and a tie goes to the
even neighbour.
-/

namespace LuaFront

/-- A floating point number, kept as its 64 bits: a sign, an exponent field of eleven bits and a
fraction of 52. -/
structure Binary64 where
  bits : UInt64
deriving DecidableEq, Inhabited, Repr

namespace Binary64

def isNegative (x : Binary64) : Bool := x.bits.toNat >>> 63 == 1

def field (x : Binary64) : Nat := (x.bits.toNat >>> 52) % 2048

def fraction (x : Binary64) : Nat := x.bits.toNat % (1 <<< 52)

def isNaN (x : Binary64) : Bool := x.field == 2047 && x.fraction != 0

def isInfinite (x : Binary64) : Bool := x.field == 2047 && x.fraction == 0

/-- The integer part of the absolute value of a finite number, which is
`significand * 2 ^ exponent`. -/
def significand (x : Binary64) : Nat :=
  if x.field = 0 then x.fraction else (1 <<< 52) + x.fraction

def exponent (x : Binary64) : Int := (max x.field 1 : Nat) - 1075

def isZero (x : Binary64) : Bool := x.field == 0 && x.fraction == 0

/-- Numeric equality: a NaN differs from everything, and the two zeros are equal. -/
def equal (x y : Binary64) : Bool :=
  !x.isNaN && !y.isNaN && (x.bits == y.bits || (x.isZero && y.isZero))

/-- The bits of infinity. Those of a finite number, without its sign, are below. -/
def infinityMagnitude : Nat := 2047 <<< 52

def ofMagnitude (negative : Bool) (magnitude : Nat) : Binary64 :=
  ⟨UInt64.ofNat ((if negative then 1 <<< 63 else 0) + magnitude)⟩

def zero : Binary64 := ofMagnitude false 0

def infinity : Binary64 := ofMagnitude false infinityMagnitude

def nan : Binary64 := ofMagnitude false (infinityMagnitude + (1 <<< 51))

/-- The quotient of two natural numbers, rounded to the nearest, or to the even one of two that
are equally near. -/
def roundDiv (num den : Nat) : Nat :=
  let quotient := num / den
  let rest := num % den
  if 2 * rest < den then quotient
  else if den < 2 * rest then quotient + 1
  else quotient + quotient % 2

/-- `num / den * 2 ^ e`, as a fraction. -/
def scaleTwo (num den : Nat) (e : Int) : Nat × Nat :=
  if 0 ≤ e then (num <<< e.toNat, den) else (num, den <<< (-e).toNat)

/-- The exponent of the highest power of two that is at most `num / den`. -/
def floorLog (num den : Nat) : Int :=
  let guess : Int := (Nat.log2 num : Int) - Nat.log2 den
  let (n, d) := scaleTwo num den (-guess)
  if d ≤ n then guess else guess - 1

/-- The bits, without the sign, of the number nearest to `num / den`. The numbers whose highest
power of two is `2 ^ k` are the multiples of `2 ^ (k - 52)`, and below the least normal number
those of `2 ^ (-1074)`; counting such multiples runs through the bit patterns in order, so a
carry moves on to the next exponent, and past the last one to infinity. -/
def nearestMagnitude (num den : Nat) : Nat :=
  if num = 0 then 0
  else
    let e := max (floorLog num den - 52) (-1074)
    let (n, d) := scaleTwo num den (-e)
    min (((e + 1074).toNat <<< 52) + roundDiv n d) infinityMagnitude

def ofRatio (negative : Bool) (num den : Nat) : Binary64 :=
  ofMagnitude negative (nearestMagnitude num den)

/-- The number nearest to `m * 2 ^ e`. -/
def ofScaled (negative : Bool) (m : Nat) (e : Int) : Binary64 :=
  let (num, den) := scaleTwo m 1 e
  ofRatio negative num den

def ofNat (n : Nat) : Binary64 := ofScaled false n 0

/-- Two to an integer power, where a negative power is the inverse of the positive one. So it is
infinite from `2 ^ 1024` on, and zero from `2 ^ (-1024)` down. -/
def twoPow (n : Int) : Binary64 :=
  if 1024 ≤ n then infinity
  else if n ≤ -1024 then zero
  else ofScaled false 1 n

/-- The product, rounded to the nearest. Zero times infinity is no number. -/
def mul (x y : Binary64) : Binary64 :=
  let negative := x.isNegative != y.isNegative
  if x.isNaN || y.isNaN then nan
  else if x.isInfinite || y.isInfinite then
    if x.isZero || y.isZero then nan else ofMagnitude negative infinityMagnitude
  else ofScaled negative (x.significand * y.significand) (x.exponent + y.exponent)

/-- `num / den * 10 ^ e`, as a fraction. -/
def scaleTen (num den : Nat) (e : Int) : Nat × Nat :=
  if 0 ≤ e then (num * Nat.pow 10 e.toNat, den) else (num, den * Nat.pow 10 (-e).toNat)

/-- The number nearest to `digits * 10 ^ e`. A value of `10 ^ 310` or more is infinite, and one
below `10 ^ (-330)` is zero, so that no power of ten outgrows these. -/
def ofDecimal (digits : Nat) (e : Int) : Binary64 :=
  let top : Int := (Nat.toDigits 10 digits).length + e
  if digits = 0 then zero
  else if 310 < top then infinity
  else if top < -330 then zero
  else
    let (num, den) := scaleTen digits 1 e
    ofRatio false num den

end Binary64
end LuaFront
