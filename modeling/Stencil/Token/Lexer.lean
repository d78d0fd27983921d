import Stencil.Text.UpperCase
import Stencil.Value.Arithmetic

set_option autoImplicit false

namespace Stencil

/-- Lines and columns count from one, columns in characters. Past 2^32 - 1 they go on at zero. -/
structure Position where
  line : UInt32
  column : UInt32
  deriving DecidableEq, Repr

namespace Position

def start : Position := ⟨1, 1⟩

def step (p : Position) (c : Char) : Position :=
  if c = '\n' then ⟨p.line + 1, 1⟩ else ⟨p.line, p.column + 1⟩

def after (p : Position) (cs : List Char) : Position := cs.foldl step p

theorem after_append (p : Position) (cs ds : List Char) :
    p.after (cs ++ ds) = (p.after cs).after ds := List.foldl_append

def text (p : Position) : String := toString p.line ++ ":" ++ toString p.column

end Position

inductive Token where
  | endOfInput
  | text (s : String)
  | tagOpen
  | tagClose
  | tagName (s : String)
  | number (n : Number)
  | string (s : String)
  | function (name : String)
  | variable (name : String)
  | operator (symbol : Char)
  deriving DecidableEq

namespace Token

open Text (ticked) in
def describe : Token → String
  | .endOfInput => "end of input"
  | .text _ => "text"
  | .tagOpen => ticked "\x7b$"
  | .tagClose => ticked "$\x7d"
  | .tagName s => "tag name " ++ ticked s
  | .number (.int n) => "integer " ++ ticked (String.ofList (Number.int n).plainWire)
  | .number (.float x) => "float " ++ ticked (String.ofList (Number.float x).plainWire)
  | .string s => "string " ++ Text.quoted s
  | .function name => "function " ++ ticked ("@" ++ name)
  | .variable name => "variable " ++ ticked name
  | .operator c => "operator " ++ ticked (String.singleton c)

end Token

structure Placed where
  token : Token
  position : Position
  deriving DecidableEq

inductive LexFault where
  | unterminatedTag
  | unterminatedString
  /-- `next` is the character after the backslash, unless the text ends there. -/
  | invalidEscape (next : Option Char)
  | invalidNumber (word : String)
  | unexpectedChar (c : Char)
  deriving DecidableEq, Repr

def LexFault.message : LexFault → String
  | .unterminatedTag => "unterminated tag"
  | .unterminatedString => "unterminated string literal"
  | .invalidEscape next =>
    "invalid escape sequence " ++ Text.ticked (String.ofList ('\\' :: next.toList))
  | .invalidNumber word => "invalid number " ++ Text.ticked word
  | .unexpectedChar c => "unexpected character " ++ Text.ticked (String.singleton c)

structure LexError where
  fault : LexFault
  position : Position
  deriving DecidableEq, Repr

def LexError.message (e : LexError) : String := e.position.text ++ ": " ++ e.fault.message

inductive Mode where
  | text
  | tag
  deriving DecidableEq, Repr

/-- What is still to be read. `expectsName` holds from the opening of a tag to its first word. -/
structure Lexer where
  rest : List Char
  position : Position
  mode : Mode
  expectsName : Bool
  deriving DecidableEq

structure Stretch where
  result : Except LexError (List Char)
  position : Position
  rest : List Char

namespace Lexer

/-- Reading that begins inside a tag begins at its name. -/
def ofChars (cs : List Char) (mode : Mode) : Lexer :=
  ⟨cs, .start, mode, decide (mode = .tag)⟩

def opensTag : List Char → Bool
  | '{' :: '$' :: _ => true
  | _ => false

/-- The text up to the next tag; `taken` is what has been read of it, last character first. -/
def readText (position : Position) (taken : List Char) : List Char → Stretch
  | [] => ⟨.ok taken.reverse, position, []⟩
  | c :: cs =>
    if opensTag (c :: cs) then ⟨.ok taken.reverse, position, c :: cs⟩
    else if c = '\\' then
      match cs with
      | [] => ⟨.error ⟨.invalidEscape none, position⟩, position.step c, []⟩
      | d :: ds =>
        if d = '{' ∨ d = '\\' then readText ((position.step c).step d) (d :: taken) ds
        else ⟨.error ⟨.invalidEscape (some d), position⟩, (position.step c).step d, ds⟩
    else readText (position.step c) (c :: taken) cs

def unescape? : Char → Option Char
  | '"' => some '"'
  | '\\' => some '\\'
  | 'n' => some '\n'
  | 'r' => some '\r'
  | 't' => some '\t'
  | _ => none

/-- The rest of a string whose opening quote stands at `opened`. -/
def readString (opened position : Position) (taken : List Char) : List Char → Stretch
  | [] => ⟨.error ⟨.unterminatedString, opened⟩, position, []⟩
  | c :: cs =>
    if c = '"' then ⟨.ok taken.reverse, position.step c, cs⟩
    else if c = '\\' then
      match cs with
      | [] => ⟨.error ⟨.unterminatedString, opened⟩, position.step c, []⟩
      | d :: ds =>
        match unescape? d with
        | some e => readString opened ((position.step c).step d) (e :: taken) ds
        | none => ⟨.error ⟨.invalidEscape (some d), position⟩, (position.step c).step d, ds⟩
    else readString opened (position.step c) (c :: taken) cs

def drop (l : Lexer) (n : Nat) : Lexer :=
  { l with rest := l.rest.drop n, position := l.position.after (l.rest.take n) }

def dropWhile (l : Lexer) (p : Char → Bool) : Lexer := l.drop (l.rest.takeWhile p).length

def resume (l : Lexer) (s : Stretch) : Lexer :=
  { l with rest := s.rest, position := s.position }

def isNumeric (c : Char) : Bool := c == '.' || Text.isWord c

def startsNumber : List Char → Bool
  | '-' :: c :: _ => c.isDigit
  | c :: _ => c.isDigit
  | [] => false

abbrev Step := Except LexError Placed × Lexer

def nextNumber (l : Lexer) (c : Char) (cs : List Char) : Step :=
  let word := c :: cs.takeWhile isNumeric
  let rest := l.drop word.length
  match (Numeral.read? word).bind Numeral.literal? with
  | some n => (.ok ⟨.number n, l.position⟩, rest)
  | none => (.error ⟨.invalidNumber (String.ofList word), l.position⟩, rest)

def nextString (l : Lexer) : Step :=
  let opened := l.drop 1
  let s := readString l.position opened.position [] opened.rest
  (s.result.map fun cs => ⟨.string (String.ofList cs), l.position⟩, opened.resume s)

/-- A word, after `skip` characters that stand before it. -/
def nextWord (l : Lexer) (skip : Nat) (token : List Char → Token) : Step :=
  let word := (l.rest.drop skip).takeWhile Text.isWord
  (.ok ⟨token word, l.position⟩, l.drop (skip + word.length))

def nextItem (l : Lexer) : Step :=
  match l.rest with
  | [] => (.error ⟨.unterminatedTag, l.position⟩, l)
  | c :: cs =>
    if startsNumber (c :: cs) then l.nextNumber c cs
    else if c = '"' then l.nextString
    else if c = '@' then
      if cs.head?.any Text.isLetter then l.nextWord 1 (.function <| String.ofList ·)
      else (.error ⟨.unexpectedChar c, l.position⟩, l.drop 1)
    else if Text.isLetter c then l.nextWord 0 (.variable <| String.ofList ·)
    else if (Operator.ofSymbol? c).isSome then (.ok ⟨.operator c, l.position⟩, l.drop 1)
    else (.error ⟨.unexpectedChar c, l.position⟩, l)

def nextName (l : Lexer) : Step :=
  let named := { l with expectsName := false }
  match l.rest with
  | [] => named.nextItem
  | c :: _ =>
    if c = '=' then (.ok ⟨.tagName "=", l.position⟩, named.drop 1)
    else if Text.isLetter c then
      named.nextWord 0 (.tagName <| String.ofList <| Text.upperCase ·)
    else named.nextItem

def closesTag : List Char → Bool
  | '$' :: '}' :: _ => true
  | _ => false

def nextInTag (l : Lexer) : Step :=
  let l := l.dropWhile Text.isBlank
  if l.rest = [] then (.error ⟨.unterminatedTag, l.position⟩, l)
  else if closesTag l.rest then
    (.ok ⟨.tagClose, l.position⟩, { l.drop 2 with mode := .text, expectsName := false })
  else if l.expectsName then l.nextName
  else l.nextItem

def nextInText (l : Lexer) : Step :=
  if l.rest = [] then (.ok ⟨.endOfInput, l.position⟩, l)
  else if opensTag l.rest then
    (.ok ⟨.tagOpen, l.position⟩, { l.drop 2 with mode := .tag, expectsName := true })
  else
    let s := readText l.position [] l.rest
    (s.result.map fun cs => ⟨.text (String.ofList cs), l.position⟩, l.resume s)

/-- The next token. A failure takes what it has looked at, and reading can go on after it. -/
def next (l : Lexer) : Step :=
  match l.mode with
  | .text => l.nextInText
  | .tag => l.nextInTag

end Lexer

end Stencil
