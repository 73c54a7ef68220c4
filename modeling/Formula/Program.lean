import Formula.Width

/-!
Programs for a stack machine: the instructions, their values, and the stack that a program needs.

The stack of the machine has a fixed number of places, and an instruction that finds no operand or
no place for its value brings the machine to a halt without a result.
-/

set_option autoImplicit false

namespace Formula

inductive UnaryOp (α : Type) where
  | neg
  | square
  | reciprocal
  | powInt (n : Int)
  | powConst (exponent : α)
  | call (f : UnaryFn)
  deriving DecidableEq, Repr

/-- An instruction. The first two load a value onto the stack; a binary operation takes its
right operand from the top. -/
inductive Instr (α : Type) where
  | const (value : α)
  | slot (index : Nat)
  | unary (op : UnaryOp α)
  | binary (op : Operator)
  deriving DecidableEq, Repr

variable {α : Type}

def UnaryOp.eval [Width α] : UnaryOp α → α → α
  | neg, a => -a
  | square, a => a * a
  | reciprocal, a => Width.reciprocal a
  | powInt n, a => Width.powInt a n
  | powConst exponent, a => Arithmetic.pow a exponent
  | call f, a => Arithmetic.apply f a

def Instr.effect : Instr α → Int
  | const _ | slot _ => 1
  | unary _ => 0
  | binary _ => -1

/-- A program with what is known of it: the greatest slot it reads, and its value if that is
constant. -/
structure Program (α : Type) where
  instrs : List (Instr α)
  maxSlot : Option Nat
  constant : Option α

/-- The greatest height of the stack on the way through the instructions: `height` is the present
one and `peak` the greatest so far. -/
def peakHeight (height peak : Int) : List (Instr α) → Int
  | [] => peak
  | i :: rest => peakHeight (height + i.effect) (max peak (height + i.effect)) rest

def Program.stackDepth (p : Program α) : Nat := (peakHeight 0 0 p.instrs).toNat

/-- The stack of a machine: its places, of which those below `height` are in use. -/
structure Stack (α : Type) where
  places : Array α
  height : Nat

namespace Stack

def empty [Zero α] (size : Nat) : Stack α := ⟨Array.replicate size 0, 0⟩

/-- Overwrites a place, above which nothing is in use then. -/
def write? (s : Stack α) (place : Nat) (value : α) : Option (Stack α) :=
  if h : place < s.places.size then some ⟨s.places.set place value h, place + 1⟩ else none

def push? (s : Stack α) (value : α) : Option (Stack α) := s.write? s.height value

def mapTop? (s : Stack α) (f : α → α) : Option (Stack α) :=
  match s.height with
  | top + 1 => do s.write? top (f (← s.places[top]?))
  | 0 => none

def combine? (s : Stack α) (f : α → α → α) : Option (Stack α) :=
  match s.height with
  | top + 2 => do
      let right ← s.places[top + 1]?
      let left ← s.places[top]?
      s.write? top (f left right)
  | _ => none

variable [Width α]

/-- Runs one instruction at a point. A slot that the point does not have holds no number. -/
def step? (point : List α) (s : Stack α) : Instr α → Option (Stack α)
  | .const c => s.push? c
  | .slot index => s.push? (point[index]?.getD Width.nan)
  | .unary op => s.mapTop? op.eval
  | .binary op => s.combine? op.eval

def run? (point : List α) (instrs : List (Instr α)) (s : Stack α) : Option (Stack α) :=
  instrs.foldlM (step? point) s

end Stack

/-- The value of a program at a point, on a stack with the places it needs, and at least one. -/
def Program.run? [Width α] (p : Program α) (point : List α) : Option α := do
  let s ← (Stack.empty (max p.stackDepth 1)).run? point p.instrs
  s.places[0]?

end Formula
