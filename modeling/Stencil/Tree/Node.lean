import Stencil.Value.Arithmetic

set_option autoImplicit false

namespace Stencil

inductive Element where
  | number (n : Number)
  | string (s : String)
  | variable (name : String)
  | function (name : String)
  | operator (op : Operator)
  deriving DecidableEq

namespace Element

def escape (c : Char) : List Char :=
  if c = '"' ∨ c = '\\' then ['\\', c]
  else if c = '\n' then ['\\', 'n']
  else if c = '\r' then ['\\', 'r']
  else if c = '\t' then ['\\', 't']
  else [c]

/-- Every float has a point, so that it reads back as a float. -/
def pointed (cs : List Char) : List Char :=
  if '.' ∈ cs then cs else cs ++ ['.', '0']

def wire : Element → List Char
  | .number (.int n) => (Number.int n).plainWire
  | .number (.float x) => pointed (Number.float x).plainWire
  | .string s => '"' :: s.toList.flatMap escape ++ ['"']
  | .variable name => name.toList
  | .function name => '@' :: name.toList
  | .operator op => [op.symbol]

def text (e : Element) : String := String.ofList e.wire

def constant? : Element → Option Value
  | .number n => some (.number n)
  | .string s => some (.string s)
  | _ => none

def alike : Element → Element → Bool
  | .number m, .number n => m.alike n
  | d, e => decide (d = e)

end Element

/-- What a loop counts: the values of `counter` from `start` to `stop`, by `step` or by one. -/
structure Header where
  counter : String
  start : Element
  stop : Element
  step : Option Element
  deriving DecidableEq

inductive Node where
  | document (children : List Node)
  | text (s : String)
  | loop (header : Header) (body : List Node)
  | echo (elements : List Element)

namespace Header

def bounds (h : Header) : List Element := h.start :: h.stop :: h.step.toList

def alike (g h : Header) : Bool :=
  g.counter == h.counter && g.start.alike h.start && g.stop.alike h.stop &&
    match g.step, h.step with
    | none, none => true
    | some d, some e => d.alike e
    | _, _ => false

end Header

def elementsAlike : List Element → List Element → Bool
  | [], [] => true
  | d :: ds, e :: es => d.alike e && elementsAlike ds es
  | _, _ => false

namespace Node

mutual

def alike : Node → Node → Bool
  | .document ms, .document ns => allAlike ms ns
  | .text s, .text t => s == t
  | .loop g ms, .loop h ns => g.alike h && allAlike ms ns
  | .echo ds, .echo es => elementsAlike ds es
  | _, _ => false

def allAlike : List Node → List Node → Bool
  | [], [] => true
  | m :: ms, n :: ns => m.alike n && allAlike ms ns
  | _, _ => false

end

end Node

def spaced (elements : List Element) : List Char := elements.flatMap fun e => ' ' :: e.wire

/-- Text as it stands between tags: what could begin a tag or an escape is escaped. -/
def escapeText (cs : List Char) : List Char :=
  cs.flatMap fun c => if c = '{' ∨ c = '\\' then ['\\', c] else [c]

def echoWire (elements : List Element) : List Char :=
  ['{', '$', '='] ++ spaced elements ++ [' ', '$', '}']

def echoSource (elements : List Element) : String := String.ofList (echoWire elements)

namespace Header

def wire (h : Header) : List Char :=
  ['{', '$', ' ', 'F', 'O', 'R'] ++ spaced (.variable h.counter :: h.bounds) ++ [' ', '$', '}']

def source (h : Header) : String := String.ofList h.wire

end Header

def endWire : List Char := ['{', '$', ' ', 'E', 'N', 'D', ' ', '$', '}']

namespace Node

mutual

def wire : Node → List Char
  | .document children => wireAll children
  | .text s => escapeText s.toList
  | .loop h body => h.wire ++ wireAll body ++ endWire
  | .echo elements => echoWire elements

def wireAll : List Node → List Char
  | [] => []
  | n :: ns => n.wire ++ wireAll ns

end

def source (n : Node) : String := String.ofList n.wire

end Node

structure Census where
  documents : Nat
  texts : Nat
  loops : Nat
  echoes : Nat
  /-- The number of loops around the innermost place. -/
  depth : Nat
  deriving DecidableEq, Repr

namespace Census

def empty : Census := ⟨0, 0, 0, 0, 0⟩

def beside (a b : Census) : Census :=
  ⟨a.documents + b.documents, a.texts + b.texts, a.loops + b.loops, a.echoes + b.echoes,
    max a.depth b.depth⟩

end Census

namespace Node

mutual

def census : Node → Census
  | .document children =>
    let c := censusAll children
    { c with documents := c.documents + 1 }
  | .text _ => { Census.empty with texts := 1 }
  | .loop _ body =>
    let c := censusAll body
    { c with loops := c.loops + 1, depth := c.depth + 1 }
  | .echo _ => { Census.empty with echoes := 1 }

def censusAll : List Node → Census
  | [] => .empty
  | n :: ns => n.census.beside (censusAll ns)

end

end Node

/-- What is done at a node of each kind. Where nothing is said, the nodes inside a document or a
loop are visited, and a text or an echo is passed over. -/
structure Visitor (m : Type → Type) [Monad m] where
  document : m Unit → m Unit := fun inside => inside
  text : String → m Unit := fun _ => pure ()
  loop : Header → m Unit → m Unit := fun _ inside => inside
  echo : List Element → m Unit := fun _ => pure ()

namespace Node

variable {m : Type → Type} [Monad m]

mutual

def accept (visitor : Visitor m) : Node → m Unit
  | .document children => visitor.document (walk visitor children)
  | .text s => visitor.text s
  | .loop header body => visitor.loop header (walk visitor body)
  | .echo elements => visitor.echo elements

def walk (visitor : Visitor m) : List Node → m Unit
  | [] => pure ()
  | n :: ns => do
    n.accept visitor
    walk visitor ns

end

def forEchoes (visit : List Element → m Unit) (n : Node) : m Unit := n.accept { echo := visit }

end Node

end Stencil
