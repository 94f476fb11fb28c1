import ToolRoster.CommandLine.Run
/-!
# The program

Runs a session on the system: calls go to the disk, output to the streams.
-/
namespace ToolRoster

def refusalOfCode (code : UInt32) (details : String) : Files.Refusal :=
  if code = 2 then .notFound
  else if code = 16 then .busy
  else if code = 20 then .notDirectory
  else if code = 21 then .isDirectory
  else if code = 36 then .nameTooLong
  else .other (details ++ " (os error " ++ toString code ++ ")")

def refusalOf : IO.Error → Files.Refusal
  | .noFileOrDirectory _ code details | .invalidArgument _ code details
  | .permissionDenied _ code details | .resourceExhausted _ code details
  | .inappropriateType _ code details | .noSuchThing _ code details
  | .alreadyExists _ code details | .interrupted _ code details
  | .resourceBusy code details | .resourceVanished code details
  | .unsupportedOperation code details | .hardwareFault code details
  | .unsatisfiedConstraints code details | .illegalOperation code details
  | .protocolError code details | .timeExpired code details
  | .otherError code details => refusalOfCode code details
  | e => .other (toString e)

def Files.Call.perform (c : Files.Call) : IO ByteArray :=
  match c with
  | .read path => IO.FS.readBinFile ⟨.ofList path⟩
  | .create path => do
    let _ ← IO.FS.Handle.mk ⟨.ofList path⟩ .write
    return .empty
  | .append path chunk => do
    let h ← IO.FS.Handle.mk ⟨.ofList path⟩ .append
    h.write chunk
    h.flush
    return .empty
  | .sync path => do
    let h ← IO.FS.Handle.mk ⟨.ofList path⟩ .append
    h.flush
    return .empty
  | .rename source target => do
    IO.FS.rename ⟨.ofList source⟩ ⟨.ofList target⟩
    return .empty
  | .remove path => do
    IO.FS.removeFile ⟨.ofList path⟩
    return .empty

def Files.Call.reply (c : Files.Call) : IO Files.Reply := do
  try
    return .ok (← c.perform)
  catch e =>
    return .error (refusalOf e)

def Output.reported (filter : Log.Filter) : Output → String
  | out _ => ""
  | err text => text
  | log e => if filter.shows e then e.line ++ "\n" else ""

def Output.show (filter : Log.Filter) (o : Output) : IO Unit := do
  IO.print o.printed
  IO.eprint (o.reported filter)

def Session.perform {α : Type} (filter : Log.Filter) : Session α → IO α
  | .done a => return a
  | .tell o rest => do
    o.show filter
    rest.perform filter
  | .ask c rest => do
    let reply ← c.reply
    (rest reply).perform filter

def flag? (name : String) : IO (Option Bool) := do
  return (← IO.getEnv name).map fun value => value ≠ "0"

/-- Whether output is coloured: on demand, else never where that is asked for, else on a terminal.
-/
def wantsColor : IO Bool := do
  if (← flag? "CLICOLOR_FORCE") = some true then return true
  else if (← flag? "NO_COLOR").isSome then return false
  else return (← flag? "CLICOLOR").getD true && (← (← IO.getStdout).isTty)

def processNumber : IO Nat := do
  let line ← IO.FS.readFile ⟨"/proc/self/stat"⟩
  return (String.ofList (line.toList.takeWhile Char.isDigit)).toNat?.getD 0

def environment : IO CommandLine.Environment := do
  return {
    workingDirectory := (← IO.currentDir).toString
    process := ← processNumber
    color := ← wantsColor
    logSetting := ← IO.getEnv "RUST_LOG" }

end ToolRoster

def main (args : List String) : IO UInt32 := do
  let env ← ToolRoster.environment
  let status ← (ToolRoster.CommandLine.run env args).perform (env.logFilter args)
  return status.toUInt32
