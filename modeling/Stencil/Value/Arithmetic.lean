import Stencil.Number.Numeral
import Stencil.Text.Quoted

set_option autoImplicit false

namespace Stencil

inductive Value where
  | null
  | number (n : Number)
  | string (s : String)
  deriving DecidableEq

inductive ValueError where
  | notNumeric (s : String)
  | divisionByZero
  deriving DecidableEq, Repr

def ValueError.message : ValueError → String
  | .notNumeric s => "cannot interpret " ++ Text.quoted s ++ " as a number"
  | .divisionByZero => "integer division by zero"

namespace Value

def text : Value → String
  | .null => ""
  | .number n => String.ofList n.wire
  | .string s => s

def readNumber (s : String) : Except ValueError Number :=
  match Number.read? s.toList with
  | some n => .ok n
  | none => .error (.notNumeric s)

/-- Null counts as zero, and a string as the number it spells. -/
def toNumber : Value → Except ValueError Number
  | .null => .ok (.int 0)
  | .number n => .ok n
  | .string s => readNumber s

end Value

inductive Operator where
  | add
  | sub
  | mul
  | div
  | pow
  deriving DecidableEq, Repr

namespace Operator

def symbol : Operator → Char
  | .add => '+'
  | .sub => '-'
  | .mul => '*'
  | .div => '/'
  | .pow => '^'

def ofSymbol? : Char → Option Operator
  | '+' => some .add
  | '-' => some .sub
  | '*' => some .mul
  | '/' => some .div
  | '^' => some .pow
  | _ => none

/-- `a ^ n` by squaring, modulo 2^64. -/
def power (a : Int64) (n : Nat) : Int64 :=
  if n = 0 then 1
  else
    let half := power (a * a) (n / 2)
    if n % 2 = 0 then half else a * half
termination_by n
decreasing_by exact Nat.div_lt_self (by omega) (by omega)

/-- Division cuts off toward zero. A power is whole where the exponent is not negative and has
at most 32 bits. -/
def onInts (a b : Int64) : Operator → Except ValueError Number
  | .add => .ok (.int (a + b))
  | .sub => .ok (.int (a - b))
  | .mul => .ok (.int (a * b))
  | .div => if b = 0 then .error .divisionByZero else .ok (.int (a / b))
  | .pow =>
    if 0 ≤ b ∧ b.toInt.toNat < UInt32.size then .ok (.int (power a b.toInt.toNat))
    else .ok (.float ((Binary.ofInt a.toInt).pow (Binary.ofInt b.toInt)))

def onFloats (x y : Float) : Operator → Float
  | .add => x + y
  | .sub => x - y
  | .mul => x * y
  | .div => x / y
  | .pow => x.pow y

def onNumbers (op : Operator) : Number → Number → Except ValueError Number
  | .int a, .int b => op.onInts a b
  | a, b => .ok (.float (op.onFloats a.toFloat b.toFloat))

end Operator

def Number.compare : Number → Number → Ordering
  | .int a, .int b => Ord.compare a.toInt b.toInt
  | a, b =>
    if a.toFloat < b.toFloat then .lt
    else if a.toFloat == b.toFloat then .eq
    else .gt

namespace Value

def apply (op : Operator) (x y : Value) : Except ValueError Value := do
  let a ← x.toNumber
  let b ← y.toNumber
  return .number (← op.onNumbers a b)

/-- What is not a number comes after everything and has everything after it. -/
def compare (x y : Value) : Except ValueError Ordering := do
  let a ← x.toNumber
  let b ← y.toNumber
  return a.compare b

end Value

end Stencil
