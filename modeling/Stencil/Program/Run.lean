import Stencil.Render.Template

set_option autoImplicit false

namespace Stencil

inductive ScriptChoice where
  | search
  | skip
  | file (path : String)
  deriving DecidableEq, Repr

inductive TemplateChoice where
  | input
  | file (path : String)
  deriving DecidableEq, Repr

structure Options where
  script : ScriptChoice
  defines : Table Value
  maxIterations : Option Nat
  strict : Bool
  debug : Bool

def Options.default : Options := ⟨.search, .empty, none, false, false⟩

structure Invocation where
  options : Options
  template : TemplateChoice

inductive UsageError where
  | noTemplate
  | manyTemplates (count : Nat)
  | unknownOption (c : Char)
  | noDefinition
  | badDefinition (text : String)
  | noCount
  | badCount (text : String)
  deriving DecidableEq, Repr

def UsageError.message : UsageError → String
  | .noTemplate => "missing template argument"
  | .manyTemplates count => "too many arguments (" ++ toString count ++ ")"
  | .unknownOption c => "unknown option: -" ++ String.singleton c
  | .noDefinition => "-D requires <name>=<value>"
  | .badDefinition text => "-D: expected <name>=<value>, got '" ++ text ++ "'"
  | .noCount => "-m requires an iteration count"
  | .badCount text => "invalid iteration count: " ++ text

namespace Options

def define (o : Options) (text : List Char) : Except UsageError Options :=
  match Assignment.split? text with
  | some (name, value) =>
    .ok { o with defines := o.defines.insert (String.ofList name) (Assignment.literal value) }
  | none => .error (.badDefinition (String.ofList text))

def limit (o : Options) (text : List Char) : Except UsageError Options :=
  match Assignment.positiveCount? text with
  | some n => .ok { o with maxIterations := some n }
  | none => .error (.badCount (String.ofList text))

/-- The value of a flag, and whether it is the next argument. -/
def flagValue (cs : List Char) (next : Option String) (missing : UsageError) :
    Except UsageError (List Char × Bool) :=
  match cs, next with
  | [], none => .error missing
  | [], some text => .ok (text.toList, true)
  | cs, _ => .ok (cs, false)

def readFlags (o : Options) (next : Option String) :
    List Char → Except UsageError (Options × Bool)
  | [] => .ok (o, false)
  | 'd' :: cs => { o with debug := true }.readFlags next cs
  | 's' :: cs => { o with strict := true }.readFlags next cs
  | 'f' :: [] => .ok ({ o with script := .skip }, false)
  | 'f' :: cs => .ok ({ o with script := .file (String.ofList cs) }, false)
  | 'D' :: cs => do
    let (text, taken) ← flagValue cs next .noDefinition
    return (← o.define text, taken)
  | 'm' :: cs => do
    let (text, taken) ← flagValue cs next .noCount
    return (← o.limit text, taken)
  | c :: _ => .error (.unknownOption c)

def flags? (argument : String) : Option (List Char) :=
  match argument.toList with
  | '-' :: c :: cs => some (c :: cs)
  | _ => none

/-- The arguments that are no flags come last first; after `--` none are flags. -/
def readArguments (o : Options) (others : List String) :
    List String → Except UsageError (Options × List String)
  | [] => .ok (o, others)
  | a :: rest =>
    if a = "--" then .ok (o, rest.reverse ++ others)
    else
      match flags? a with
      | none => o.readArguments (a :: others) rest
      | some cs =>
        match o.readFlags rest.head? cs, rest with
        | .error e, _ => .error e
        | .ok (o, true), _ :: rest => o.readArguments others rest
        | .ok (o, _), rest => o.readArguments others rest

end Options

namespace Invocation

def ofArguments (arguments : List String) : Except UsageError Invocation := do
  let (o, others) ← Options.default.readArguments [] arguments
  match others with
  | [] => throw .noTemplate
  | ["-"] => return ⟨o, .input⟩
  | [path] => return ⟨o, .file path⟩
  | _ => throw (.manyTemplates others.length)

end Invocation

inductive FileError where
  | missing
  | directory
  | notDirectory
  | other (message : String)
  deriving DecidableEq, Repr

def FileError.message : FileError → String
  | .missing => "No such file or directory (os error 2)"
  | .directory => "Is a directory (os error 21)"
  | .notDirectory => "Not a directory (os error 20)"
  | .other message => message

/-- What the program reads from; `userScript` is the path of the user's own settings script. -/
structure World (m : Type → Type) where
  read : String → m (Except FileError String)
  contains : String → m Bool
  input : m (Except FileError String)
  userScript : Option String

/-- The log is left out, and so are the errors of a settings script, which are logged as warnings.
-/
structure Outcome where
  status : Nat
  output : String
  errors : String
  deriving DecidableEq, Repr

inductive ProgramError where
  | file (path : String) (e : FileError)
  | input (e : FileError)
  | parse (e : ParseError)
  | render (e : RenderError)

def ProgramError.message : ProgramError → String
  | .file path e => path ++ ": " ++ e.message
  | .input e => e.message
  | .parse e => e.message
  | .render e => e.message

namespace Program

def name : String := "tagscript"

def usage : String :=
  "Usage: tagscript [-f[<file>]] [-D<name>=<value>]... [-m<max>] [-s] [-d] <template>|-"

def localScript : String := ".tagscriptrc"

def userScriptPath : String := "tagscript/config.tsrc"

def complain (message : String) : String := name ++ ": " ++ message ++ "\n"

def failure (output message : String) : Outcome := ⟨1, output, complain message⟩

def configured (c : Configuration) (o : Options) : Configuration where
  settings :=
    { maxIterations := o.maxIterations.getD c.settings.maxIterations
      strict := o.strict || c.settings.strict }
  defined := c.defined.union o.defines

/-- What was written before a failure is kept. -/
def rendered (c : Configuration) (source : String) : Outcome :=
  match Node.parse source with
  | .error e => failure "" (ProgramError.parse e).message
  | .ok tree =>
    match tree.renderInto c.settings c.defined.get? "" with
    | (.ok (), text) => ⟨0, text, ""⟩
    | (.error e, text) => failure text (ProgramError.render e).message

variable {m : Type → Type} [Monad m]

def firstFound (w : World m) : List String → m (Option String)
  | [] => return none
  | path :: paths => do
    if ← w.contains path then return some path else firstFound w paths

def scriptPath (w : World m) : ScriptChoice → m (Option String)
  | .skip => return none
  | .file path => return some path
  | .search => firstFound w (w.userScript.toList ++ [localScript])

def readFile (w : World m) (path : String) : m (Except ProgramError String) := do
  return (← w.read path).mapError (.file path)

def readScript (w : World m) : Option String → m (Except ProgramError Configuration)
  | none => return .ok .default
  | some path => do return (← readFile w path).map fun text => (Configuration.read text).1

def readTemplate (w : World m) : TemplateChoice → m (Except ProgramError String)
  | .input => do return (← w.input).mapError .input
  | .file path => readFile w path

def runInvocation (w : World m) (i : Invocation) : m Outcome := do
  match ← readScript w (← scriptPath w i.options.script) with
  | .error e => return failure "" e.message
  | .ok c =>
    match ← readTemplate w i.template with
    | .error e => return failure "" e.message
    | .ok source => return rendered (configured c i.options) source

def run (w : World m) (arguments : List String) : m Outcome :=
  match Invocation.ofArguments arguments with
  | .error e => return ⟨1, "", complain e.message ++ usage ++ "\n"⟩
  | .ok i => runInvocation w i

end Program

/-- Files in memory, each with its path, which is the list of its names; `folders` are directories
that hold none of them. -/
structure Folder where
  files : List (List String × String)
  folders : List (List String)

namespace Folder

def names (path : String) : List String := path.splitOn "/"

def ofFiles (files : List (String × String)) (folders : List String) : Folder :=
  ⟨files.map fun (path, text) => (names path, text), folders.map names⟩

inductive Found where
  | file (text : String)
  | directory
  deriving DecidableEq, Repr

def isDirectory (f : Folder) (path : List String) : Bool :=
  path == [] || f.folders.any (path.isPrefixOf ·) ||
    f.files.any fun e => path.isPrefixOf e.1 && path != e.1

def at? (f : Folder) (path : List String) : Option Found :=
  match f.files.find? (·.1 == path) with
  | some e => some (.file e.2)
  | none => if f.isDirectory path then some .directory else none

/-- Follows names from the directory `place`, whose own last name comes first. -/
def follow (f : Folder) (place : List String) : List String → Except FileError Found
  | [] => .ok .directory
  | name :: rest =>
    if name = "" ∨ name = "." then f.follow place rest
    else if name = ".." then
      match place with
      | [] => .error .missing
      | _ :: above => f.follow above rest
    else
      match f.at? (name :: place).reverse with
      | none => .error .missing
      | some .directory => f.follow (name :: place) rest
      | some (.file text) => if rest = [] then .ok (.file text) else .error .notDirectory

def find (f : Folder) (path : String) : Except FileError Found :=
  match names path with
  | "" :: _ => .error .missing
  | names => f.follow [] names

def world (f : Folder) (input : String) (userScript : Option String) : World Id where
  read path :=
    match f.find path with
    | .ok (.file text) => .ok text
    | .ok .directory => .error .directory
    | .error e => .error e
  contains path := (f.find path).isOk
  input := .ok input
  userScript := userScript

end Folder

end Stencil
