import Formula.Decimal

/-!
The shortest decimal that reads back as a given floating-point number, and with it the text of
a number.
-/

set_option autoImplicit false

namespace Formula

/-- The real numbers that round to one positive number of a binary format, over a common
denominator. The ends belong to the interval when the significand is even. -/
structure RoundingInterval where
  low : Nat
  value : Nat
  high : Nat
  den : Nat
  closed : Bool

namespace RoundingInterval

/-- The interval of `significand * 2 ^ exponent`. Below a power of two the next number is only
half as far away, unless the exponent is the least one. -/
def ofFinite (f : Binary.Format) (significand : Nat) (exponent : Int) : RoundingInterval :=
  let below := if significand = 1 <<< f.fractionBits ∧ f.minExponent < exponent then 1 else 2
  { low := (4 * significand - below) <<< exponent.toNat
    value := (4 * significand) <<< exponent.toNat
    high := (4 * significand + 2) <<< exponent.toNat
    den := 4 <<< (-exponent).toNat
    closed := significand % 2 = 0 }

/-- Whether `num / den` lies in the interval, for a numerator over its own denominator. -/
def holds (i : RoundingInterval) (num : Nat) : Bool :=
  if i.closed then i.low ≤ num && num ≤ i.high else i.low < num && num < i.high

def shift (i : RoundingInterval) (n : Nat) : RoundingInterval :=
  { i with
    low := i.low * Decimal.tenPow n
    value := i.value * Decimal.tenPow n
    high := i.high * Decimal.tenPow n }

/-- The multiple of `10 ^ exponent` in the interval that is nearest to its value, the upper one
of two. -/
def onGrid? (i : RoundingInterval) (exponent : Int) : Option Nat :=
  let i := i.shift (-exponent).toNat
  let unit := i.den * Decimal.tenPow exponent.toNat
  let below := i.value / unit
  match i.holds (below * unit), i.holds ((below + 1) * unit) with
  | true, true => some (if 2 * (i.value % unit) < unit then below else below + 1)
  | true, false => some below
  | false, true => some (below + 1)
  | false, false => none

/-- Searches the grids of powers of ten, from a coarse one to finer ones, for a point of the
interval. When `fuel` grids have been tried, the value itself is cut off on the last one. -/
def search (i : RoundingInterval) : (fuel : Nat) → (exponent : Int) → Decimal
  | 0, exponent =>
      ⟨i.value * Decimal.tenPow (-exponent).toNat / (i.den * Decimal.tenPow exponent.toNat),
        exponent⟩
  | fuel + 1, exponent =>
      match i.onGrid? exponent with
      | some digits => ⟨digits, exponent⟩
      | none => i.search fuel (exponent - 1)

/-- The exponent of a power of ten above the value, and less than a hundred times above it. -/
def coarsest (i : RoundingInterval) : Int :=
  ((i.value.log2 : Int) - i.den.log2 + 1) * 30103 / 100000 + 1

end RoundingInterval

/-- The decimal of fewest digits in the rounding interval of `significand * 2 ^ exponent`. The
seventeen digits that always suffice lie within twenty grids of the coarsest one. -/
def Decimal.shortest (f : Binary.Format) (significand : Nat) (exponent : Int) : Decimal :=
  let i := RoundingInterval.ofFinite f significand exponent
  i.search 20 i.coarsest

namespace Binary

def Value.text (f : Format) : Value → String
  | .nan => "NaN"
  | .infinite negative => if negative then "-inf" else "inf"
  | .finite negative significand exponent =>
      let row :=
        if significand = 0 then ['0'] else (Decimal.shortest f significand exponent).positional
      String.ofList (if negative then '-' :: row else row)

end Binary

end Formula
