/-!
# Decimal numbers and the binary numbers nearest to them

* `Decimal` : a sign, a natural number of digits and a power of ten;
* `BinaryFormat` : the binary floating point numbers of a precision and a range of exponents, `single` and `double`;
* `BinaryFormat.nearest` : the number of a format nearest to a fraction, of two equally near ones the even one;
* `Decimal.toSingle`, `Decimal.toSingleByDouble` : the single precision number nearest to a decimal, in one rounding or
  in two.
-/

namespace ClauseLearning

/-- The number `digits * 10 ^ exponent`, negated if `negative` holds. -/
structure Decimal where
  negative : Bool := false
  digits : Nat
  exponent : Int := 0
deriving DecidableEq, Inhabited

/-- The numbers `m * 2 ^ q` with `m < 2 ^ precision` and `least ≤ q ≤ greatest`. -/
structure BinaryFormat where
  precision : Nat
  least : Int
  greatest : Int

/-- A finite number `mantissa * 2 ^ exponent` of a binary format. -/
structure Binary where
  mantissa : Nat
  exponent : Int
deriving DecidableEq

namespace BinaryFormat

def single : BinaryFormat := ⟨24, -149, 104⟩

def double : BinaryFormat := ⟨53, -1074, 971⟩

/-- A fraction rounded to a natural number, a half to the even neighbour. -/
def roundHalfEven (num den : Nat) : Nat :=
  let below := num / den
  let twice := 2 * (num % den)
  if twice < den then below
  else if den < twice then below + 1
  else below + below % 2

/-- The fraction `num / (den * 2 ^ q)` as numerator and denominator. -/
def unscale (num den : Nat) (q : Int) : Nat × Nat :=
  if 0 ≤ q then (num, den * Nat.pow 2 q.toNat) else (num * Nat.pow 2 (-q).toNat, den)

/-- The exponent with which a positive fraction has a mantissa of the full precision, or the least one. -/
def exponentFor (f : BinaryFormat) (num den : Nat) : Int :=
  let q : Int := (num.log2 : Int) - den.log2 - f.precision
  let (n, d) := unscale num den q
  max f.least (if n / d < Nat.pow 2 f.precision then q else q + 1)

/-- The number of the format nearest to `num / den`, none if that is too large. -/
def nearest (f : BinaryFormat) (num den : Nat) : Option Binary :=
  if num = 0 then some ⟨0, f.least⟩
  else
    let q := f.exponentFor num den
    let (n, d) := unscale num den q
    let m := roundHalfEven n d
    let b : Binary := if m < Nat.pow 2 f.precision then ⟨m, q⟩ else ⟨m / 2, q + 1⟩
    if b.exponent ≤ f.greatest then some b else none

end BinaryFormat

/-- The value of a binary number as a fraction. -/
def Binary.fraction (b : Binary) : Nat × Nat :=
  if 0 ≤ b.exponent then (b.mantissa * Nat.pow 2 b.exponent.toNat, 1) else (b.mantissa, Nat.pow 2 (-b.exponent).toNat)

/-- The mantissa of a power of two in single precision. Its bit is not stored; the exponent field begins there. -/
def hiddenBit : Nat := 0x800000

/-- The bits of infinity in single precision. Greater ones below the sign bit are no numbers. -/
def infinityBits : Nat := 0x7f800000

/-- The sign bit of single precision. -/
def signBit : Nat := 0x80000000

/-- The single precision number of a sign and a magnitude, where no magnitude stands for infinity. A mantissa with the
hidden bit set carries into the exponent field. -/
def Binary.toFloat32 (negative : Bool) (magnitude : Option Binary) : Float32 :=
  let bits :=
    match magnitude with
    | some b => (b.exponent - BinaryFormat.single.least).toNat * hiddenBit + b.mantissa
    | none => infinityBits
  Float32.ofBits (UInt32.ofNat (bits + (if negative then signBit else 0)))

namespace Decimal

/-- The magnitude as a fraction. -/
def fraction (d : Decimal) : Nat × Nat :=
  if 0 ≤ d.exponent then (d.digits * Nat.pow 10 d.exponent.toNat, 1) else (d.digits, Nat.pow 10 (-d.exponent).toNat)

/-- The number of a format nearest to the magnitude, none if that is too large. Magnitudes from `10 ^ 400` on are too
large for every format here, and those below `10 ^ -400` round to zero. -/
def nearest (f : BinaryFormat) (d : Decimal) : Option Binary :=
  let scale : Int := d.exponent + (toString d.digits).length
  if d.digits = 0 ∨ scale < -400 then some ⟨0, f.least⟩
  else if 400 < scale then none
  else f.nearest d.fraction.1 d.fraction.2

/-- The nearest single precision number, infinite if the decimal is too large. -/
def toSingle (d : Decimal) : Float32 := Binary.toFloat32 d.negative (nearest .single d)

/-- The single precision number nearest to the nearest double precision number. -/
def toSingleByDouble (d : Decimal) : Float32 :=
  Binary.toFloat32 d.negative <|
    (nearest .double d).bind fun b => BinaryFormat.single.nearest b.fraction.1 b.fraction.2

/-- Whether the nearest double precision number is finite. -/
def fitsDouble (d : Decimal) : Bool := (nearest .double d).isSome

/-- An integer as a decimal. -/
def ofInt (n : Int) : Decimal := ⟨decide (n < 0), n.natAbs, 0⟩

end Decimal

end ClauseLearning
