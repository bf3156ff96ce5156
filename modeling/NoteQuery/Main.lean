import NoteQuery.CommandLine.Run
import Std.Time.DateTime.Timestamp

/-! The program: reads the files that are asked for, and writes what the command says of them. -/

namespace NoteQuery.Program
set_option autoImplicit false

/-- The moment some time after the start of 1970. -/
def momentAfterEpoch (seconds : Int) (nanos : Nat) : Moment :=
  (Moment.ofMicros? (Moment.epochMicros + seconds * 1000000 + nanos / 1000)).getD default

def currentMoment : IO Moment := do
  let t ← Std.Time.Timestamp.now
  return momentAfterEpoch t.val.second.val t.val.nano.val.toNat

/-- A file, or a directory with all that is below it. What cannot be read counts as an empty
directory. -/
partial def readEntry (entry : IO.FS.DirEntry) : IO FileNode := do
  let m ← entry.path.metadata
  match m.type with
  | .dir => do
    let entries ← try entry.path.readDir catch _ => pure #[]
    let nodes ← entries.toList.filterMapM fun e => do
      try return some (e.fileName, ← readEntry e) catch _ => return none
    return .directory nodes
  | _ => do
    let time := momentAfterEpoch m.modified.sec m.modified.nsec.toNat
    try return .file (← IO.FS.readBinFile entry.path).toList ⟨time, time⟩
    catch _ => return .directory []

/-- What a name leads to from the current directory. -/
def lookUp (p : Path) : IO (Except PathFault FileNode) := do
  try
    return .ok (← readEntry { root := ← IO.currentDir, fileName := p.text })
  catch
    | .noFileOrDirectory .. => return .error .missing
    | _ => return .error .notADirectory

/-- A way to look up names that have been read. -/
def lookIn (found : List (Path × Except PathFault FileNode)) : CommandLine.Look := fun p =>
  (found.lookup p).getD (.error .missing)

def replyTo (args : List String) (terminal : Bool) : IO CommandLine.Reply := do
  let settings ← lookUp (.ofText (Settings.nameIn args))
  match CommandLine.Invocation.read settings args with
  | .error f => return ⟨"", [], some f⟩
  | .ok i => do
    let found ← i.paths.mapM fun name => do
      let p := Path.ofText name
      return (p, ← lookUp p)
    return i.run (lookIn found) terminal (← currentMoment)

/-- How a fault is told to the user. -/
def faultText (f : CommandLine.CommandFault) : String :=
  let message := f.message
  "Error: " ++ if message.isEmpty then "Missing argument 'QUERY'." else message

end NoteQuery.Program

open NoteQuery in
def main (args : List String) : IO UInt32 := do
  let stdout ← IO.getStdout
  let reply ← Program.replyTo args (← stdout.isTty)
  stdout.putStr reply.text
  stdout.flush
  for w in reply.warnings do IO.eprintln w
  match reply.fault? with
  | none => return 0
  | some f => do
    IO.eprintln (Program.faultText f)
    return f.exitCode.toUInt32
