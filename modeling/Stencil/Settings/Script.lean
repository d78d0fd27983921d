import Stencil.Table.Stacks
import Stencil.Value.Arithmetic

/-!
Settings scripts. A line `/set name=value` changes a setting and `/let name=value` defines a
variable; every other line is passed over. A line that cannot be followed changes nothing and is
reported.
-/

set_option autoImplicit false

namespace Stencil

/-- Every loop may run `maxIterations` times. With `strict`, a variable that has no value is a
fault, and null otherwise. -/
structure Settings where
  maxIterations : Nat
  strict : Bool
  deriving DecidableEq, Repr

def Settings.default : Settings := ⟨1000000, false⟩

namespace Text

def consLine (c : Char) : List (List Char) → List (List Char)
  | [] => [[c]]
  | l :: ls => (c :: l) :: ls

def lines (cs : List Char) : List (List Char) :=
  cs.foldr (fun c ls => if c = '\n' then [] :: ls else consLine c ls) [[]]

def trimStart (cs : List Char) : List Char := cs.dropWhile isBlank

def trimEnd (cs : List Char) : List Char := (cs.reverse.dropWhile isBlank).reverse

def trim (cs : List Char) : List Char := trimEnd (trimStart cs)

end Text

namespace Assignment

def isSeparator (c : Char) : Bool := c == '=' || Text.isSpacer c

def stripEquals : List Char → List Char
  | '=' :: cs => cs
  | cs => cs

/-- The name, up to the first separator, and the value. There must be both a name and a
separator. -/
def split? (text : List Char) : Option (List Char × List Char) :=
  let cs := Text.trim text
  let name := cs.takeWhile (!isSeparator ·)
  match cs.drop name.length with
  | [] => none
  | _ :: rest =>
    if name = [] then none else some (name, Text.trim (stripEquals (Text.trimStart rest)))

def flush (word : List Char) (words : List (List Char)) : List (List Char) :=
  if word = [] then words else word.reverse :: words

/-- The words between the blanks, which do not separate inside double quotes, where a backslash
stands for the character after it. `word` and `words` have been read, last first. -/
def wordsAfter (quoted : Bool) (word : List Char) (words : List (List Char)) :
    List Char → List (List Char)
  | [] => (flush word words).reverse
  | c :: cs =>
    if c = '"' then wordsAfter (!quoted) word words cs
    else if c = '\\' ∧ quoted = true then
      match cs with
      | [] => (flush word words).reverse
      | d :: ds => wordsAfter quoted (d :: word) words ds
    else if Text.isSpacer c ∧ quoted = false then wordsAfter quoted [] (flush word words) cs
    else wordsAfter quoted (c :: word) words cs

def words (cs : List Char) : List (List Char) := wordsAfter false [] [] cs

/-- Text in quotes is a string; a numeral is a number; all else is a string as it stands. -/
def literal (text : List Char) : Value :=
  let cs := Text.trim text
  if cs.head? = some '"' then .string (String.ofList ([' '].intercalate (words cs)))
  else
    match Number.read? cs with
    | some n => .number n
    | none => .string (String.ofList cs)

/-- A count in 64 bits: digits, after one `+` at most. -/
def count? (text : List Char) : Option Nat :=
  let ds := match text with
    | '+' :: ds => ds
    | ds => ds
  if ds ≠ [] ∧ ds.all Char.isDigit ∧ natOfDigits ds < UInt64.size then some (natOfDigits ds)
  else none

def positiveCount? (text : List Char) : Option Nat :=
  (count? text).filter (0 < ·)

end Assignment

structure Configuration where
  settings : Settings
  defined : Table Value

def Configuration.default : Configuration := ⟨.default, .empty⟩

inductive Command where
  | set
  | define
  deriving DecidableEq, Repr

def Command.name : Command → String
  | .set => "/set"
  | .define => "/let"

inductive LineFault where
  | noAssignment (command : Command)
  | notPositive (value : String)
  | notFlag (value : String)
  | unknownSetting (name : String)
  | notName (name : String)
  deriving DecidableEq, Repr

def LineFault.message : LineFault → String
  | .noAssignment command => command.name ++ ": requires <name>=<value>"
  | .notPositive value => "/set: max_iterations must be a positive integer, got '" ++ value ++ "'"
  | .notFlag value => "/set: strict_variables expects on/off, got '" ++ value ++ "'"
  | .unknownSetting name => "/set: unknown setting '" ++ name ++ "'"
  | .notName name => "/let: '" ++ name ++ "' is not a valid variable name"

structure LineError where
  line : Nat
  fault : LineFault
  deriving DecidableEq, Repr

def LineError.message (e : LineError) : String :=
  "line " ++ toString e.line ++ ": " ++ e.fault.message

def flag? (text : List Char) : Option Bool :=
  let word := String.ofList (text.map Char.toLower)
  if word ∈ ["on", "1", "true", "yes"] then some true
  else if word ∈ ["off", "0", "false", "no"] then some false
  else none

def isName : List Char → Bool
  | [] => false
  | c :: cs => c.isAlpha && cs.all fun d => d.isAlphanum || d == '_'

inductive Change where
  | maxIterations (n : Nat)
  | strict (b : Bool)
  | define (name : String) (v : Value)

namespace Change

def ofSetting (name value : List Char) : Except LineFault Change :=
  if name = "max_iterations".toList then
    match Assignment.positiveCount? value with
    | some n => .ok (.maxIterations n)
    | none => .error (.notPositive (String.ofList value))
  else if name = "strict_variables".toList then
    match flag? value with
    | some b => .ok (.strict b)
    | none => .error (.notFlag (String.ofList value))
  else .error (.unknownSetting (String.ofList name))

def ofDefinition (name value : List Char) : Except LineFault Change :=
  if isName name then .ok (.define (String.ofList name) (Assignment.literal value))
  else .error (.notName (String.ofList name))

def ofCommand (command : Command) (text : List Char) : Except LineFault Change :=
  match Assignment.split? text, command with
  | none, command => .error (.noAssignment command)
  | some (name, value), .set => ofSetting name value
  | some (name, value), .define => ofDefinition name value

end Change

namespace Configuration

def command? (line : List Char) : Option (Command × List Char) :=
  match Text.trim line with
  | '/' :: cs =>
    let word := cs.takeWhile (!Text.isSpacer ·)
    let text := Text.trim (cs.drop (word.length + 1))
    if word = "set".toList then some (.set, text)
    else if word = "let".toList then some (.define, text)
    else none
  | _ => none

def change (c : Configuration) : Change → Configuration
  | .maxIterations n => { c with settings := { c.settings with maxIterations := n } }
  | .strict b => { c with settings := { c.settings with strict := b } }
  | .define name v => { c with defined := c.defined.insert name v }

def follow (c : Configuration) (command : Command) (text : List Char) :
    Except LineFault Configuration := (Change.ofCommand command text).map c.change

/-- The configuration so far and the errors so far, last one first, after one more line. -/
def readLine (state : Configuration × List LineError) (line : List Char × Nat) :
    Configuration × List LineError :=
  match command? line.1 with
  | none => state
  | some (command, text) =>
    match state.1.follow command text with
    | .ok c => (c, state.2)
    | .error fault => (state.1, ⟨line.2, fault⟩ :: state.2)

def ofChars (text : List Char) : Configuration × List LineError :=
  let (c, errors) := ((Text.lines text).zipIdx 1).foldl readLine (.default, [])
  (c, errors.reverse)

def read (script : String) : Configuration × List LineError := ofChars script.toList

end Configuration

end Stencil
