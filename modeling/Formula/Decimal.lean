import Formula.Binary

/-!
Decimal numbers: how a literal is read, which floating-point number it stands for, and how a
decimal is written out by position.
-/

set_option autoImplicit false

namespace Formula

/-- The number `digits * 10 ^ exponent`. -/
structure Decimal where
  digits : Nat
  exponent : Int
  deriving DecidableEq, Repr

namespace Decimal

def tenPow (n : Nat) : Nat := Nat.pow 10 n

def ofDigits (cs : List Char) : Nat :=
  cs.foldl (fun n c => 10 * n + (c.toNat - '0'.toNat)) 0

def isExponentMark (c : Char) : Bool := c == 'e' || c == 'E'

def exponentOf? : List Char → Option Int
  | '+' :: cs => if cs ≠ [] ∧ cs.all Char.isDigit then some (ofDigits cs) else none
  | '-' :: cs => if cs ≠ [] ∧ cs.all Char.isDigit then some (-(ofDigits cs : Int)) else none
  | cs => if cs ≠ [] ∧ cs.all Char.isDigit then some (ofDigits cs) else none

/-- Reads a literal: digits with at most one point among them or at either end, at least one
digit, and after that an exponent or nothing. -/
def ofLiteral? (cs : List Char) : Option Decimal :=
  let mantissa := cs.takeWhile (!isExponentMark ·)
  let whole := mantissa.takeWhile (· != '.')
  let fraction := (mantissa.dropWhile (· != '.')).drop 1
  if (whole ++ fraction).all Char.isDigit ∧ whole ++ fraction ≠ [] then
    match cs.dropWhile (!isExponentMark ·) with
    | [] => some ⟨ofDigits (whole ++ fraction), -fraction.length⟩
    | _ :: rest =>
        (exponentOf? rest).map fun e => ⟨ofDigits (whole ++ fraction), e - fraction.length⟩
  else none

/-- The floating-point number of 64 bits nearest to a decimal. A decimal of at least `10 ^ 310`
is beyond the largest one, and one below `10 ^ (-330)` is nearest to zero. -/
def toFloat (d : Decimal) : Float :=
  if d.digits = 0 then Float.ofBits 0 else
    let magnitude : Int := (Nat.toDigits 10 d.digits).length + d.exponent
    if 310 < magnitude then (Binary.Value.infinite false).toFloat
    else if magnitude < -330 then Float.ofBits 0
    else
      Float.ofBits <| .ofNat <| Binary.Format.binary64.nearest
        (d.digits * tenPow d.exponent.toNat) (tenPow (-d.exponent).toNat)

/-- The decimal written by position: never an exponent, and a point only before places that
count. -/
def positional (d : Decimal) : List Char :=
  let row := Nat.toDigits 10 d.digits
  let places := (-d.exponent).toNat
  if places = 0 then row ++ List.replicate d.exponent.toNat '0'
  else if places < row.length then
    row.take (row.length - places) ++ '.' :: row.drop (row.length - places)
  else '0' :: '.' :: (List.replicate (places - row.length) '0' ++ row)

end Decimal

end Formula
