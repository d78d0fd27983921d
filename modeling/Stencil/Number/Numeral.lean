set_option autoImplicit false

namespace Stencil

/-- The number `coefficient / 10 ^ places`. -/
structure Decimal where
  coefficient : Nat
  places : Nat
  deriving DecidableEq, Repr

/-- `n / d` rounded to an integer, a half to even. -/
def roundDiv (n d : Nat) : Nat :=
  if 2 * (n % d) < d ∨ (2 * (n % d) = d ∧ n / d % 2 = 0) then n / d else n / d + 1

namespace Decimal

def scale (d : Decimal) : Nat := Nat.pow 10 d.places

def whole (d : Decimal) : Nat := d.coefficient / d.scale

def isWhole (d : Decimal) : Bool := d.coefficient % d.scale == 0

/-- The last `k` digits of `n`, in front of `tail`. -/
def lastDigits (n : Nat) : Nat → List Char → List Char
  | 0, tail => tail
  | k + 1, tail => lastDigits (n / 10) k ((n % 10).digitChar :: tail)

def wholeDigits (d : Decimal) : List Char := Nat.toDigits 10 d.whole

def placeDigits (d : Decimal) : List Char := lastDigits d.coefficient d.places []

def wire (d : Decimal) : List Char :=
  d.wholeDigits ++ if d.places = 0 then [] else '.' :: d.placeDigits

/-- The same number to `k` places or fewer, ending in no zero that it can do without. -/
def trimmed (n : Nat) : Nat → Decimal
  | 0 => ⟨n, 0⟩
  | k + 1 => if n % 10 = 0 then trimmed (n / 10) k else ⟨n, k + 1⟩

def trim (d : Decimal) : Decimal := trimmed d.coefficient d.places

/-- Rounded to `k` places, a half to even. -/
def round (d : Decimal) (k : Nat) : Decimal :=
  if d.places ≤ k then ⟨d.coefficient * Nat.pow 10 (k - d.places), k⟩
  else ⟨roundDiv d.coefficient (Nat.pow 10 (d.places - k)), k⟩

def length (d : Decimal) : Nat := (Nat.toDigits 10 d.coefficient).length

/-- The two points next to `d` on the grid of multiples of `unit` of its last place, the nearer
one first; of two as near, the greater one. -/
def neighbours (d : Decimal) (unit : Nat) : List Decimal :=
  let low := d.coefficient / unit * unit
  if 2 * (d.coefficient - low) < unit then [⟨low, d.places⟩, ⟨low + unit, d.places⟩]
  else [⟨low + unit, d.places⟩, ⟨low, d.places⟩]

end Decimal

/-- A float read from its bits; a finite one is `significand * 2 ^ exponent`. -/
inductive Binary where
  | nan
  | infinite (negative : Bool)
  | finite (negative : Bool) (significand : Nat) (exponent : Int)
  deriving DecidableEq, Repr

namespace Binary

def signBit : Nat := 1 <<< 63

def leadingBit : Nat := 1 <<< 52

/-- The bits of positive infinity; every greater magnitude is a NaN. -/
def infinityBits : Nat := 2047 <<< 52

def ofMagnitude (negative : Bool) (bits : Nat) : Binary :=
  if infinityBits < bits then .nan
  else if bits = infinityBits then .infinite negative
  else if bits < leadingBit then .finite negative bits (-1074)
  else .finite negative (leadingBit + bits % leadingBit) (bits / leadingBit - 1075)

def ofFloat (x : Float) : Binary :=
  let bits := x.toBits.toNat
  ofMagnitude (decide (signBit ≤ bits)) (bits % signBit)

/-- The greatest `e` with `2 ^ e ≤ n / d`. -/
def binade (n d : Nat) : Int :=
  let e : Int := n.log2 - d.log2
  let reaches := if 0 ≤ e then d <<< e.toNat ≤ n else d ≤ n <<< (-e).toNat
  if reaches then e else e - 1

/-- The magnitude nearest to `n / d`, a half to even. A significand has 53 bits, or fewer at the
least exponent. -/
def nearestMagnitude (n d : Nat) : Nat :=
  if n = 0 then 0
  else
    let q := max (binade n d - 52) (-1074)
    let m := if 0 ≤ q then roundDiv n (d <<< q.toNat) else roundDiv (n <<< (-q).toNat) d
    min infinityBits ((q + 1074).toNat <<< 52 + m)

def float (negative : Bool) (magnitude : Nat) : Float :=
  Float.ofBits (UInt64.ofNat ((if negative then signBit else 0) + magnitude))

def ofInt (n : Int) : Float := float (decide (n < 0)) (nearestMagnitude n.natAbs 1)

def decimal (m : Nat) (q : Int) : Decimal :=
  if 0 ≤ q then ⟨m <<< q.toNat, 0⟩ else ⟨m * Nat.pow 5 (-q).toNat, (-q).toNat⟩

end Binary

namespace Decimal

def magnitude (d : Decimal) : Nat := Binary.nearestMagnitude d.coefficient d.scale

/-- The shortest decimal of the float that `d` stands for, and the nearest to `d` of these.
Seventeen digits always do. -/
def shortest (d : Decimal) : Decimal :=
  let length := d.length
  let points := (List.range 17).flatMap fun n => d.neighbours (Nat.pow 10 (length - (n + 1)))
  let target := d.magnitude
  ((points.find? fun p => p.magnitude == target).getD d).trim

end Decimal

namespace Binary

def sign (negative : Bool) : List Char := if negative then ['-'] else []

def wire : Binary → List Char
  | .nan => ['N', 'a', 'N']
  | .infinite negative => sign negative ++ ['i', 'n', 'f']
  | .finite negative m q => sign negative ++ (decimal m q).shortest.wire

def pointedWire : Binary → List Char
  | .finite negative m q =>
    let d := decimal m q
    sign negative ++ if d.isWhole then (d.round 1).wire else d.shortest.wire
  | b => b.wire

end Binary

inductive Number where
  | int (n : Int64)
  | float (x : Float)
  deriving DecidableEq

namespace Number

/-- Equality of numbers of one kind: the two zeros are equal, and a NaN equals nothing. -/
def alike : Number → Number → Bool
  | .int a, .int b => a == b
  | .float x, .float y => x == y
  | _, _ => false

def toFloat : Number → Float
  | .int n => Binary.ofInt n.toInt
  | .float x => x

def ofInt? (n : Int) : Option Number :=
  if Int64.minValue.toInt ≤ n ∧ n ≤ Int64.maxValue.toInt then some (.int (Int64.ofInt n))
  else none

end Number

/-- `places` are the digits after the point, if there is one, and `exponent` is the power of ten. -/
structure Numeral where
  negative : Bool
  whole : List Char
  places : Option (List Char)
  exponent : Option Int
  deriving DecidableEq

def natOfDigits (ds : List Char) : Nat := Nat.ofDigitChars 10 ds 0

def intOfDigits (negative : Bool) (ds : List Char) : Int :=
  if negative then -(natOfDigits ds : Int) else natOfDigits ds

namespace Numeral

def readSign : List Char → Bool × List Char
  | '+' :: cs => (false, cs)
  | '-' :: cs => (true, cs)
  | cs => (false, cs)

def readPlaces : List Char → Option (List Char) × List Char
  | '.' :: cs => let (ds, rest) := cs.span Char.isDigit; (some ds, rest)
  | cs => (none, cs)

def readExponent? : List Char → Option (Option Int)
  | [] => some none
  | c :: cs =>
    let (negative, ds) := readSign cs
    if (c = 'e' ∨ c = 'E') ∧ ds ≠ [] ∧ ds.all Char.isDigit then
      some (some (intOfDigits negative ds))
    else none

def read? (cs : List Char) : Option Numeral :=
  let (negative, cs) := readSign cs
  let (whole, cs) := cs.span Char.isDigit
  let (places, cs) := readPlaces cs
  if whole = [] ∧ places.getD [] = [] then none
  else (readExponent? cs).map fun exponent => ⟨negative, whole, places, exponent⟩

def int? (n : Numeral) : Option Number :=
  match n.places, n.exponent with
  | none, none => Number.ofInt? (intOfDigits n.negative n.whole)
  | _, _ => none

/-- The magnitude of `c * 10 ^ e`; a power of ten far out of range is not computed. -/
def scaledMagnitude (c : Nat) (e : Int) : Nat :=
  if c = 0 then 0
  else if 400 < e then Binary.infinityBits
  else if e + c.log2 < -400 then 0
  else if 0 ≤ e then Decimal.magnitude ⟨c * Nat.pow 10 e.toNat, 0⟩
  else Decimal.magnitude ⟨c, (-e).toNat⟩

def toFloat (n : Numeral) : Float :=
  let places := n.places.getD []
  Binary.float n.negative
    (scaledMagnitude (natOfDigits (n.whole ++ places)) (n.exponent.getD 0 - places.length))

def toNumber (n : Numeral) : Number := n.int?.getD (.float n.toFloat)

/-- A literal has digits on both sides of its point, no power of ten, and no point only if it is an
integer that fits. -/
def literal? (n : Numeral) : Option Number :=
  match n.whole, n.places, n.exponent with
  | _ :: _, none, none => n.int?
  | _ :: _, some (_ :: _), none => some (.float n.toFloat)
  | _, _, _ => none

end Numeral

namespace Number

def read? (cs : List Char) : Option Number := (Numeral.read? cs).map Numeral.toNumber

def intWire (n : Int64) : List Char :=
  Binary.sign (decide (n < 0)) ++ Nat.toDigits 10 n.toInt.natAbs

/-- A whole float ends in one place, so that it reads back as a float. -/
def wire : Number → List Char
  | .int n => intWire n
  | .float x => (Binary.ofFloat x).pointedWire

def plainWire : Number → List Char
  | .int n => intWire n
  | .float x => (Binary.ofFloat x).wire

end Number

end Stencil
