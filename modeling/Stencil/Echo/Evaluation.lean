import Stencil.Tree.Node

set_option autoImplicit false

namespace Stencil

/-- How many digits are written before the point at least, and after it at least and at most. -/
structure Pattern where
  leastWhole : Nat
  leastPlaces : Nat
  mostPlaces : Nat
  deriving DecidableEq, Repr

namespace Pattern

def isMark (c : Char) : Bool := c == '0' || c == '#'

def read? (cs : List Char) : Option Pattern :=
  let (whole, rest) := cs.span (· != '.')
  let places := rest.drop 1
  if cs ≠ [] ∧ whole.all isMark ∧ places.all isMark then
    some ⟨whole.count '0', places.count '0', places.length⟩
  else none

def dropZeros (n : Nat) (ds : List Char) : List Char :=
  ds.take n ++ ((ds.drop n).reverse.dropWhile (· == '0')).reverse

def wholePart (p : Pattern) (ds : List Char) : List Char :=
  if ds = ['0'] ∧ p.leastWhole = 0 then []
  else List.replicate (p.leastWhole - ds.length) '0' ++ ds

/-- Zero has no sign, and is written as `0` if the pattern leaves nothing of it. -/
def wire (p : Pattern) (negative : Bool) (d : Decimal) : List Char :=
  let r := d.round p.mostPlaces
  let whole := p.wholePart r.wholeDigits
  let places := dropZeros p.leastPlaces r.placeDigits
  let sign := Binary.sign (negative && (whole ++ places).any (· != '0'))
  sign ++ whole ++
    if places ≠ [] then '.' :: places
    else if whole = [] then ['0']
    else []

def format (p : Pattern) (x : Float) : List Char :=
  match Binary.ofFloat x with
  | .finite negative m q => p.wire negative (Binary.decimal m q)
  | b => b.wire

end Pattern

abbrev Context := String → Option Value

inductive Builtin where
  | sin
  | cos
  | decfmt
  | dup
  | swap
  | paramGet
  deriving DecidableEq, Repr

inductive BuiltinError where
  | underflow (f : Builtin) (found : Nat)
  | pattern (text : String)
  | value (e : ValueError)
  deriving DecidableEq, Repr

namespace Builtin

def name : Builtin → String
  | .sin => "sin"
  | .cos => "cos"
  | .decfmt => "decfmt"
  | .dup => "dup"
  | .swap => "swap"
  | .paramGet => "paramGet"

def all : List Builtin := [.sin, .cos, .decfmt, .dup, .swap, .paramGet]

def ofName? (name : String) : Option Builtin := all.find? fun f => f.name == name

def arity : Builtin → Nat
  | .sin | .cos | .dup => 1
  | .decfmt | .swap | .paramGet => 2

end Builtin

def tooFew (what : String) (needed found : Nat) : String :=
  what ++ " needs " ++ toString needed ++ " value(s) on the stack, found " ++ toString found

def BuiltinError.message : BuiltinError → String
  | .underflow f found => tooFew ("@" ++ f.name) f.arity found
  | .pattern text => "@decfmt: invalid pattern " ++ Text.quoted text
  | .value e => e.message

namespace Builtin

def degree : Float := 0.017453292519943295

def real (v : Value) : Except BuiltinError Float :=
  match v.toNumber with
  | .ok n => .ok n.toFloat
  | .error e => .error (.value e)

def angle (v : Value) : Except BuiltinError Float := (real v).map (· * degree)

def formatted (x : Float) (text : String) : Except BuiltinError String :=
  match Pattern.read? text.toList with
  | some p => .ok (String.ofList (p.format x))
  | none => .error (.pattern text)

/-- The outcome of a call, and the stack that it leaves, top first. -/
abbrev Call := Except BuiltinError Unit × List Value

def give (rest : List Value) : Except BuiltinError Value → Call
  | .ok v => (.ok (), v :: rest)
  | .error e => (.error e, rest)

/-- Too few values are left as they are; a call that fails later has taken its arguments. -/
def call (context : Context) : Builtin → List Value → Call
  | .sin, x :: rest => give rest ((angle x).map fun a => .number (.float a.sin))
  | .cos, x :: rest => give rest ((angle x).map fun a => .number (.float a.cos))
  | .decfmt, pattern :: x :: rest => give rest do
    return .string (← formatted (← real x) pattern.text)
  | .dup, x :: rest => (.ok (), x :: x :: rest)
  | .swap, y :: x :: rest => (.ok (), x :: y :: rest)
  | .paramGet, default :: name :: rest =>
    (.ok (), (context name.text).getD default :: rest)
  | f, stack => (.error (.underflow f stack.length), stack)

end Builtin

inductive Fault where
  | value (e : ValueError)
  | pattern (text : String)
  | argument (e : ValueError)
  | unknownFunction (name : String)
  | unknownVariable (name : String)
  | underflow (what : String) (needed found : Nat)
  | imbalance (found : Nat)
  | iterationLimit (limit : Nat)
  deriving DecidableEq, Repr

namespace Fault

def ofBuiltin : BuiltinError → Fault
  | .underflow f found => .underflow ("@" ++ f.name) f.arity found
  | .pattern text => .pattern text
  | .value e => .argument e

def message : Fault → String
  | .value e => e.message
  | .pattern text => BuiltinError.message (.pattern text)
  | .argument e => e.message
  | .unknownFunction name => "unknown function " ++ Text.ticked ("@" ++ name)
  | .unknownVariable name => "unknown variable " ++ Text.ticked name
  | .underflow what needed found => tooFew what needed found
  | .imbalance found =>
    "expected exactly one value left on the stack, found " ++ toString found
  | .iterationLimit limit => "more than " ++ toString limit ++ " iterations"

end Fault

namespace Echo

def operatorName (op : Operator) : String := "operator " ++ Text.ticked (String.singleton op.symbol)

def onOperator (op : Operator) : List Value → Except Fault (List Value)
  | y :: x :: rest =>
    match x.apply op y with
    | .ok v => .ok (v :: rest)
    | .error e => .error (.value e)
  | stack => .error (.underflow (operatorName op) 2 stack.length)

def onFunction (context : Context) (name : String) (stack : List Value) :
    Except Fault (List Value) :=
  match Builtin.ofName? name with
  | none => .error (.unknownFunction name)
  | some f =>
    match f.call context stack with
    | (.ok _, left) => .ok left
    | (.error e, _) => .error (.ofBuiltin e)

/-- `lookup` gives the value of a variable; the top of the stack comes first. -/
def step (context : Context) (lookup : String → Except Fault Value) (stack : List Value) :
    Element → Except Fault (List Value)
  | .number n => .ok (.number n :: stack)
  | .string s => .ok (.string s :: stack)
  | .variable name => (lookup name).map (· :: stack)
  | .operator op => onOperator op stack
  | .function name => onFunction context name stack

def value (context : Context) (lookup : String → Except Fault Value) (elements : List Element) :
    Except Fault Value := do
  match ← elements.foldlM (step context lookup) [] with
  | [v] => return v
  | stack => throw (.imbalance stack.length)

end Echo

end Stencil
