import Stencil.Program.Run

/-! The program on the files, the input and the environment that it is started with. -/

set_option autoImplicit false

namespace Stencil.Program

def fileError : IO.Error → FileError
  | .noFileOrDirectory _ _ _ => .missing
  | .inappropriateType _ code _ => if code = 21 then .directory else .notDirectory
  | .permissionDenied _ _ _ => .other "Permission denied (os error 13)"
  | .userError _ => .other "stream did not contain valid UTF-8"
  | e => .other (toString e)

def attempt (action : IO String) : IO (Except FileError String) := do
  try return .ok (← action)
  catch e => return .error (fileError e)

def readInput : IO String := do
  let bytes ← (← IO.getStdin).readBinToEnd
  match String.fromUTF8? bytes with
  | some text => return text
  | none => throw (.userError "")

def settingsDirectory : IO (Option String) := do
  match ← IO.getEnv "XDG_CONFIG_HOME", ← IO.getEnv "HOME" with
  | some directory, home =>
    if directory.startsWith "/" then return some directory
    else return home.map (· ++ "/.config")
  | none, home => return home.map (· ++ "/.config")

def disk (userScript : Option String) : World IO where
  read path := attempt (IO.FS.readFile path)
  contains path := do
    match ← attempt (IO.FS.readFile path) with
    | .error .missing | .error .notDirectory => return false
    | _ => return true
  input := attempt readInput
  userScript := userScript

end Stencil.Program

open Stencil in
def main (arguments : List String) : IO UInt32 := do
  let directory ← Program.settingsDirectory
  let script := directory.map (· ++ "/" ++ Program.userScriptPath)
  let outcome ← Program.run (Program.disk script) arguments
  (← IO.getStdout).putStr outcome.output
  (← IO.getStdout).flush
  (← IO.getStderr).putStr outcome.errors
  return outcome.status.toUInt32
