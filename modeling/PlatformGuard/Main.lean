import PlatformGuard.CommandLine.Run

/-!
# The program

The commands on the files of the machine.
-/

namespace PlatformGuard

/-- What an attempt to read a file found. -/
inductive ReadResult where
  | bytes (content : ByteArray)
  | missing
  | folder
  | refused

/-- The system's number for a folder where a file is due. -/
def folderCode : UInt32 := 21

def readMachineFile (path : String) : IO ReadResult := do
  try
    return .bytes (← IO.FS.readBinFile path)
  catch
    | .noFileOrDirectory .. => return .missing
    | .inappropriateType _ code _ => return if code = folderCode then .folder else .missing
    | _ => return .refused

/-- The machine as a host. It tells folders from files, and does not list them. -/
def machine : Host IO where
  read path := do
    match ← readMachineFile path with
    | .bytes content => return some content
    | _ => return none
  kind path := do
    match ← readMachineFile path with
    | .bytes _ | .refused => return some .file
    | .folder => return some .folder
    | .missing => return none
  files _ := return none
  write path content := do
    try
      IO.FS.writeFile path content
      return true
    catch _ => return false
  print := IO.print
  tell
    | .help text => IO.print text
    | notice => IO.eprintln notice.line
  clock := IO.monoMsNow

end PlatformGuard

def main (arguments : List String) : IO UInt32 :=
  PlatformGuard.machine.run arguments
