import Formula.Arithmetic
import Formula.Binary
import Formula.Decimal.Shortest
import Formula.Text

/-!
The number types in which formulas are evaluated: their two widths by name, the interface, and its
two instances in single and double precision.
-/

set_option autoImplicit false

namespace Formula

inductive Precision where
  | single
  | double
  deriving DecidableEq, Repr

/-- A name that stands for no width. -/
structure UnknownPrecision where
  name : String
  deriving DecidableEq, Repr

def UnknownPrecision.message (e : UnknownPrecision) : String :=
  "unknown precision '" ++ e.name ++ "', expected one of: f32, single, f64, double"

namespace Precision

instance : Inhabited Precision := ⟨double⟩

def tag : Precision → String
  | single => "f32"
  | double => "f64"

/-- Reads a width by its short or its long name. Letter case and blanks around the name do not
matter. -/
def ofName (s : String) : Except UnknownPrecision Precision :=
  let word := String.ofList ((Text.trim s.toList).map Char.toLower)
  if word = "f32" ∨ word = "single" then .ok single
  else if word = "f64" ∨ word = "double" then .ok double
  else .error ⟨s⟩

/-- The absolute difference below which two results of a width count as equal. -/
def tolerance : Precision → Float
  | single => 1e-6
  | double => 1e-12

end Precision

/-- A type of numbers in which compiled formulas run. Constants come in as numbers of double
precision. -/
class Width (α : Type) extends Arithmetic α, Zero α where
  precision : Precision
  nan : α
  reciprocal : α → α
  powInt : α → Int → α
  /-- The nearest number of the width. -/
  ofFloat : Float → α
  toFloat : α → Float
  /-- The shortest decimal text that reads back to the number. -/
  text : α → String

namespace DoublePrecision

/-- The integer part: toward zero. -/
def trunc (x : Float) : Float := if x < 0 then x.ceil else x.floor

/-- One with the sign of the argument, where zeros have signs too. -/
def signum (x : Float) : Float :=
  if x.isNaN then x else if x.toBits >>> 63 = 0 then 1 else -1

def apply : UnaryFn → Float → Float
  | .sin => Float.sin
  | .cos => Float.cos
  | .tan => Float.tan
  | .asin => Float.asin
  | .acos => Float.acos
  | .atan => Float.atan
  | .sinh => Float.sinh
  | .cosh => Float.cosh
  | .tanh => Float.tanh
  | .exp => Float.exp
  | .ln => Float.log
  | .log2 => Float.log2
  | .log10 => Float.log10
  | .sqrt => Float.sqrt
  | .cbrt => fun x => (Binary.ofFloat x).cubeRoot.toFloat
  | .abs => Float.abs
  | .signum => signum
  | .round => Float.round
  | .floor => Float.floor
  | .ceil => Float.ceil
  | .trunc => trunc
  | .fract => fun x => x - trunc x

end DoublePrecision

namespace SinglePrecision

def trunc (x : Float32) : Float32 := if x < 0 then x.ceil else x.floor

def signum (x : Float32) : Float32 :=
  if x.isNaN then x else if x.toBits >>> 31 = 0 then 1 else -1

def apply : UnaryFn → Float32 → Float32
  | .sin => Float32.sin
  | .cos => Float32.cos
  | .tan => Float32.tan
  | .asin => Float32.asin
  | .acos => Float32.acos
  | .atan => Float32.atan
  | .sinh => Float32.sinh
  | .cosh => Float32.cosh
  | .tanh => Float32.tanh
  | .exp => Float32.exp
  | .ln => Float32.log
  | .log2 => Float32.log2
  | .log10 => Float32.log10
  | .sqrt => Float32.sqrt
  | .cbrt => fun x => (Binary.ofFloat32 x).cubeRoot.toFloat32
  | .abs => Float32.abs
  | .signum => signum
  | .round => Float32.round
  | .floor => Float32.floor
  | .ceil => Float32.ceil
  | .trunc => trunc
  | .fract => fun x => x - trunc x

end SinglePrecision

instance : Arithmetic Float where
  pow := Float.pow
  apply := DoublePrecision.apply

instance : Arithmetic Float32 where
  pow := Float32.pow
  apply := SinglePrecision.apply

instance : Coefficient Float where
  beq := Float.beq
  zero := 0
  one := 1
  two := 2
  three := 3
  ln2 := Float.ofBits 0x3fe62e42fefa39ef
  ln10 := Float.ofBits 0x40026bb1bbb55516

instance : Width Float where
  zero := 0
  precision := .double
  nan := Binary.Value.nan.toFloat
  reciprocal x := 1 / x
  powInt := squaringPow 1
  ofFloat := id
  toFloat := id
  text x := (Binary.ofFloat x).text .binary64

instance : Width Float32 where
  zero := 0
  precision := .single
  nan := Binary.Value.nan.toFloat32
  reciprocal x := 1 / x
  powInt := squaringPow 1
  ofFloat x := (Binary.ofFloat x).toFloat32
  toFloat x := (Binary.ofFloat32 x).toFloat
  text x := (Binary.ofFloat32 x).text .binary32

end Formula
