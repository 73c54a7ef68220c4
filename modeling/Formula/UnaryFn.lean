/-!
The functions of one argument that a formula may call, and their reserved names.
-/

set_option autoImplicit false

namespace Formula

inductive UnaryFn where
  | sin | cos | tan
  | asin | acos | atan
  | sinh | cosh | tanh
  | exp | ln | log2 | log10
  | sqrt | cbrt
  | abs | signum
  | round | floor | ceil | trunc | fract
  deriving DecidableEq, Repr

namespace UnaryFn

def all : List UnaryFn :=
  [sin, cos, tan, asin, acos, atan, sinh, cosh, tanh, exp, ln, log2, log10, sqrt, cbrt, abs,
    signum, round, floor, ceil, trunc, fract]

def name : UnaryFn → String
  | sin => "sin"
  | cos => "cos"
  | tan => "tan"
  | asin => "asin"
  | acos => "acos"
  | atan => "atan"
  | sinh => "sinh"
  | cosh => "cosh"
  | tanh => "tanh"
  | exp => "exp"
  | ln => "ln"
  | log2 => "log2"
  | log10 => "log10"
  | sqrt => "sqrt"
  | cbrt => "cbrt"
  | abs => "abs"
  | signum => "signum"
  | round => "round"
  | floor => "floor"
  | ceil => "ceil"
  | trunc => "trunc"
  | fract => "fract"

/-- Looks up a reserved name. The natural logarithm has a second one, `log`. -/
def ofName? (s : String) : Option UnaryFn :=
  if s = "log" then some ln else all.find? fun f => f.name = s

/-- Whether a function is constant between its jumps. -/
def isStep : UnaryFn → Bool
  | signum | round | floor | ceil | trunc => true
  | _ => false

theorem mem_all (f : UnaryFn) : f ∈ all := by
  cases f <;> decide

theorem ofName?_name (f : UnaryFn) : ofName? f.name = some f := by
  cases f <;> decide

theorem ofName?_eq_some_iff {s : String} {f : UnaryFn} :
    ofName? s = some f ↔ s = f.name ∨ s = "log" ∧ f = ln := by
  constructor
  · intro found
    unfold ofName? at found
    split at found
    · rename_i log
      exact .inr ⟨log, (Option.some.inj found).symm⟩
    · have named := List.find?_some found
      exact .inl (of_decide_eq_true named).symm
  · rintro (rfl | ⟨rfl, rfl⟩)
    · exact ofName?_name f
    · rfl

theorem ofName?_eq_none_iff {s : String} :
    ofName? s = none ↔ s ≠ "log" ∧ ∀ f : UnaryFn, s ≠ f.name := by
  unfold ofName?
  split
  · rename_i log
    exact iff_of_false nofun fun h => h.1 log
  · rename_i notLog
    simp [notLog, mem_all, eq_comm (a := s)]

end UnaryFn

end Formula
