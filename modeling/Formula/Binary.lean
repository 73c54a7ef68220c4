/-!
The binary formats of floating-point numbers, in exact integer arithmetic: what the bits of a
number stand for, and which number of a format is nearest to a quotient or to a cube root.
-/

set_option autoImplicit false

namespace Formula.Binary

/-- What the bits of a number stand for. A finite number is `significand * 2 ^ exponent`. -/
inductive Value where
  | nan
  | infinite (negative : Bool)
  | finite (negative : Bool) (significand : Nat) (exponent : Int)
  deriving DecidableEq, Repr

/-- A binary format: the significant bits, the first of which is not stored, and the width of
the exponent. -/
structure Format where
  precision : Nat
  exponentBits : Nat
  deriving DecidableEq, Repr

namespace Format

def binary32 : Format := ⟨24, 8⟩

def binary64 : Format := ⟨53, 11⟩

/-- The number of bits that hold the stored part of the significand. -/
def fractionBits (f : Format) : Nat := f.precision - 1

/-- The least exponent of a significand, that of the numbers around zero. -/
def minExponent (f : Format) : Int :=
  3 - ((1 <<< (f.exponentBits - 1) : Nat) : Int) - f.precision

def infinityBits (f : Format) : Nat := (1 <<< f.exponentBits - 1) <<< f.fractionBits

def signBit (f : Format) : Nat := 1 <<< (f.fractionBits + f.exponentBits)

def decode (f : Format) (bits : Nat) : Value :=
  let negative := decide (f.signBit ≤ bits)
  let magnitude := bits % f.signBit
  let fraction := magnitude % 1 <<< f.fractionBits
  let field := magnitude >>> f.fractionBits
  if f.infinityBits < magnitude then .nan
  else if magnitude = f.infinityBits then .infinite negative
  else if field = 0 then .finite negative fraction f.minExponent
  else .finite negative (1 <<< f.fractionBits + fraction) (f.minExponent + (field - 1))

end Format

/-- The integer nearest to `num / den`, the even one of two. -/
def roundQuotient (num den : Nat) : Nat :=
  let quotient := num / den
  let rest := num % den
  if 2 * rest < den then quotient
  else if den < 2 * rest then quotient + 1
  else quotient + quotient % 2

/-- The exponent `e` with `2 ^ e ≤ num / den < 2 ^ (e + 1)`, for a positive quotient. -/
def leadingExponent (num den : Nat) : Int :=
  let gap : Int := num.log2 - den.log2
  if den <<< gap.toNat ≤ num <<< (-gap).toNat then gap else gap - 1

namespace Format

/-- The bits, without sign, of the number nearest to `num / den`. A tie goes to the even
significand, and what lies beyond the largest number goes to infinity. -/
def nearest (f : Format) (num den : Nat) : Nat :=
  if num = 0 then 0 else
    let exponent := max (leadingExponent num den - f.fractionBits) f.minExponent
    let significand :=
      roundQuotient (num <<< (-exponent).toNat) (den <<< exponent.toNat)
    let bits :=
      if significand < 1 <<< f.fractionBits then significand
      else (exponent - f.minExponent + 1).toNat <<< f.fractionBits +
        (significand - 1 <<< f.fractionBits)
    min bits f.infinityBits

def encode (f : Format) : Value → Nat
  | .nan => f.infinityBits + 1 <<< (f.fractionBits - 1)
  | .infinite negative => (if negative then f.signBit else 0) + f.infinityBits
  | .finite negative significand exponent =>
      (if negative then f.signBit else 0) +
        f.nearest (significand <<< exponent.toNat) (1 <<< (-exponent).toNat)

end Format

/-- The integer that a finite value equals. -/
def Value.toInt? : Value → Option Int
  | .finite negative significand exponent =>
      let num := significand <<< exponent.toNat
      let den := 1 <<< (-exponent).toNat
      if num % den = 0 then
        some (if negative then -((num / den : Nat) : Int) else ((num / den : Nat) : Int))
      else none
  | _ => none

def ofFloat (x : Float) : Value := Format.binary64.decode x.toBits.toNat

def ofFloat32 (x : Float32) : Value := Format.binary32.decode x.toBits.toNat

def Value.toFloat (v : Value) : Float := Float.ofBits (.ofNat (Format.binary64.encode v))

def Value.toFloat32 (v : Value) : Float32 := Float32.ofBits (.ofNat (Format.binary32.encode v))

/-- The greatest integer above `root` by less than `2 ^ bits` whose cube is at most `n`, one
binary digit after the other. -/
def cubeRootFrom (n : Nat) : (bits root : Nat) → Nat
  | 0, root => root
  | bits + 1, root =>
      let next := root + 1 <<< bits
      cubeRootFrom n bits (if next * next * next ≤ n then next else root)

def cubeRoot (n : Nat) : Nat := cubeRootFrom n (n.log2 / 3 + 1) 0

/-- The cube root of a value, with more significant bits than either format has. The last bit
tells whether anything is cut off, so that rounding the value rounds the root. -/
def Value.cubeRoot : Value → Value
  | .finite negative significand exponent =>
      let shift := 180 + (exponent % 3).toNat
      let scaled := significand <<< shift
      let root := Binary.cubeRoot scaled
      let rest := if root * root * root = scaled then 0 else 1
      .finite negative (2 * root + rest) ((exponent - shift) / 3 - 1)
  | v => v

end Formula.Binary
