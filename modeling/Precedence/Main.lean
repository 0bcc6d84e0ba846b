import Precedence.Command

/-!
# The command line program

Reads and prints; what is printed is settled in `Precedence.Command`.
-/

namespace Precedence.Command

/-- The number of a system error, which may come negated. -/
def errorNumber (code : UInt32) : Nat :=
  if code.toNat < 0x80000000 then code.toNat else 0x100000000 - code.toNat

def fileErrorOf : IO.Error → FileError
  | .noFileOrDirectory _ code reason => .ofNumber (errorNumber code) reason
  | .inappropriateType _ code reason => .ofNumber (errorNumber code) reason
  | .permissionDenied _ code reason => .ofNumber (errorNumber code) reason
  | .invalidArgument _ code reason => .ofNumber (errorNumber code) reason
  | .resourceExhausted _ code reason => .ofNumber (errorNumber code) reason
  | .noSuchThing _ code reason => .ofNumber (errorNumber code) reason
  | .otherError code reason => .ofNumber (errorNumber code) reason
  | e => .system 5 e.toString

def readFile (path : String) : IO (Except FileError (List UInt8)) := do
  try
    let bytes ← IO.FS.readBinFile path
    return .ok bytes.toList
  catch e => return .error (fileErrorOf e)

/-- Every byte is heard by `hear`, as in `listen`, with the replies printed as they come. -/
partial def listenOn (input output : IO.FS.Stream) (begun : List UInt8) : IO UInt32 := do
  let next ← input.read 1
  match hear begun next.toList.head? with
  | .inLine more => listenOn input output more
  | .behindLine out =>
    output.putStr out
    output.flush
    listenOn input output []
  | .over code stderr =>
    IO.eprint stderr
    return code.toUInt32

def converseOn (input output : IO.FS.Stream) : IO UInt32 := do
  output.putStr prompt
  output.flush
  listenOn input output []

def finish (o : Outcome) : IO UInt32 := do
  IO.print o.stdout
  IO.eprint o.stderr
  return o.code.toUInt32

end Precedence.Command

open Precedence.Command

def main (args : List String) : IO UInt32 := do
  match args with
  | [] => converseOn (← IO.getStdin) (← IO.getStdout)
  | [path] => finish (ofFile path (← readFile path))
  | _ => finish (usage (← IO.appPath).toString)
