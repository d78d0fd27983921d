import Stencil.Token.Stream
import Stencil.Tree.Node

set_option autoImplicit false

namespace Stencil

inductive Expected where
  | content
  | tagName
  | tagClose
  | operator
  | echoElement
  deriving DecidableEq, Repr

def Expected.describe : Expected → String
  | .content => "text or a tag"
  | .tagName => "a tag name"
  | .tagClose => Token.describe .tagClose
  | .operator => "an operator"
  | .echoElement => "an echo element"

inductive LoopPart where
  | counter
  | start
  | stop
  | step
  deriving DecidableEq, Repr

def LoopPart.describe : LoopPart → String
  | .counter => "variable"
  | .start => "start"
  | .stop => "end"
  | .step => "step"

inductive ParseError where
  | lex (e : LexError)
  | emptySource
  | unexpected (expected : Expected) (found : Token) (position : Position)
  | unknownTag (name : String) (position : Position)
  | unmatchedEnd (position : Position)
  | unclosedLoop (counter : String) (position : Position)
  | loopArity (found : Nat) (position : Position)
  | loopArgument (part : LoopPart) (found : Token) (position : Position)
  deriving DecidableEq

namespace ParseError

open Text (ticked)

def complaint : LoopPart → Token → String
  | .counter, t => t.describe
  | _, .string s => Token.describe (.string s) ++ " is not a number"
  | _, t => t.describe

def located (position : Position) (s : String) : String := position.text ++ ": " ++ s

def message : ParseError → String
  | .lex e => e.message
  | .emptySource => "empty template"
  | .unexpected expected found p =>
    located p ("expected " ++ expected.describe ++ ", found " ++ found.describe)
  | .unknownTag name p => located p ("unknown tag " ++ ticked name)
  | .unmatchedEnd p => located p (ticked "END" ++ " without an open " ++ ticked "FOR")
  | .unclosedLoop counter p => located p (ticked ("FOR " ++ counter) ++ " is never closed")
  | .loopArity found p =>
    located p (ticked "FOR" ++ " takes a variable, a start, an end and an optional step (" ++
      toString found ++ " argument(s) given)")
  | .loopArgument part found p =>
    located p ("invalid " ++ ticked "FOR" ++ " " ++ part.describe ++ ": " ++
      complaint part found)

end ParseError

inductive Tag where
  | loop
  | endLoop
  | echo
  deriving DecidableEq, Repr

def Tag.ofName? (name : String) : Option Tag :=
  if name = "FOR" then some .loop
  else if name = "END" then some .endLoop
  else if name = "=" then some .echo
  else none

namespace Element

def ofToken (p : Placed) : Except ParseError Element :=
  match p.token with
  | .number n => .ok (.number n)
  | .string s => .ok (.string s)
  | .variable name => .ok (.variable name)
  | .function name => .ok (.function name)
  | .operator c =>
    match Operator.ofSymbol? c with
    | some op => .ok (.operator op)
    | none => .error (.unexpected .operator p.token p.position)
  | _ => .error (.unexpected .echoElement p.token p.position)

/-- A bound is a number, a variable, or a string that spells a number. -/
def ofBound (part : LoopPart) (p : Placed) : Except ParseError Element :=
  match p.token with
  | .number n => .ok (.number n)
  | .variable name => .ok (.variable name)
  | .string s =>
    if (Number.read? s.toList).isSome then .ok (.string s)
    else .error (.loopArgument part p.token p.position)
  | _ => .error (.loopArgument part p.token p.position)

end Element

namespace Header

def counterOf (p : Placed) : Except ParseError String :=
  match p.token with
  | .variable name => .ok name
  | _ => .error (.loopArgument .counter p.token p.position)

def ofArguments (position : Position) : List Placed → Except ParseError Header
  | [v, a, b] => do
    return ⟨← counterOf v, ← Element.ofBound .start a, ← Element.ofBound .stop b, none⟩
  | [v, a, b, s] => do
    return ⟨← counterOf v, ← Element.ofBound .start a, ← Element.ofBound .stop b,
      some (← Element.ofBound .step s)⟩
  | args => .error (.loopArity args.length position)

end Header

/-- Where the next token stands: among the nodes, after the opening of a tag, or after its name.
The name stands at `position`, and `args` are the tokens after it, last one first. -/
inductive Place where
  | content
  | opened
  | inside (tag : Tag) (position : Position) (args : List Placed)
  deriving DecidableEq

/-- A loop that waits for its end; `before` are the nodes beside it, last one first. -/
structure OpenLoop where
  header : Header
  position : Position
  before : List Node

/-- `nodes` are the children so far of the innermost open loop, or of the document, last one
first; `loops` are the open loops, innermost first. -/
structure Builder where
  place : Place
  nodes : List Node
  loops : List OpenLoop

namespace Builder

def empty : Builder := ⟨.content, [], []⟩

def add (b : Builder) (n : Node) : Builder := { b with place := .content, nodes := n :: b.nodes }

def openLoop (b : Builder) (header : Header) (position : Position) : Builder :=
  ⟨.content, [], ⟨header, position, b.nodes⟩ :: b.loops⟩

def endLoop (b : Builder) (position : Position) : Except ParseError Builder :=
  match b.loops with
  | [] => .error (.unmatchedEnd position)
  | l :: loops => .ok ⟨.content, .loop l.header b.nodes.reverse :: l.before, loops⟩

def addTag (b : Builder) (position : Position) (args : List Placed) :
    Tag → Except ParseError Builder
  | .loop => do return b.openLoop (← Header.ofArguments position args) position
  | .endLoop =>
    match args with
    | [] => b.endLoop position
    | p :: _ => .error (.unexpected .tagClose p.token p.position)
  | .echo => do return b.add (.echo (← args.mapM Element.ofToken))

def step (b : Builder) (p : Placed) : Except ParseError Builder :=
  match b.place, p.token with
  | .content, .endOfInput => .ok b
  | .content, .text s => .ok (b.add (.text s))
  | .content, .tagOpen => .ok { b with place := .opened }
  | .content, t => .error (.unexpected .content t p.position)
  | .opened, .tagName name =>
    match Tag.ofName? name with
    | some tag => .ok { b with place := .inside tag p.position [] }
    | none => .error (.unknownTag name p.position)
  | .opened, t => .error (.unexpected .tagName t p.position)
  | .inside tag position args, .tagClose => b.addTag position args.reverse tag
  | .inside _ _ _, .endOfInput => .error (.unexpected .tagClose .endOfInput p.position)
  | .inside tag position args, _ => .ok { b with place := .inside tag position (p :: args) }

def result (b : Builder) : Except ParseError Node :=
  match b.loops with
  | [] => .ok (.document b.nodes.reverse)
  | l :: _ => .error (.unclosedLoop l.header.counter l.position)

def read (b : Builder) : Except LexError Placed → Except ParseError Builder
  | .ok p => b.step p
  | .error e => .error (.lex e)

end Builder

namespace Node

def ofChars (source : List Char) : Except ParseError Node :=
  if source = [] then .error .emptySource
  else do
    let b ← (Lexer.results source).foldlM Builder.read .empty
    b.result

def parse (source : String) : Except ParseError Node := ofChars source.toList

end Node

end Stencil
