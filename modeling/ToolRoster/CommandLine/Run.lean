import ToolRoster.CommandLine.Help
import ToolRoster.RegistryFile.Load
import ToolRoster.Registry.Builtin
import ToolRoster.Log.Filter
/-!
# Running a command

A run reads its arguments, does what they ask for and ends with a status: zero, one after an error,
and two when the arguments make no sense.
-/
namespace ToolRoster.CommandLine

structure Environment where
  workingDirectory : String
  process : Nat
  color : Bool
  logSetting : Option String

inductive CommandError where
  | roster (e : RosterError)
  | danglingReferences (count : Nat)
deriving DecidableEq, Repr

def CommandError.message : CommandError → String
  | roster e => e.message
  | danglingReferences n => toString n ++ " dangling fallback reference(s)"

abbrev Attempt := Session (Except CommandError Unit)

def styleReset : List Char := "\x1b[0m".toList

/-- A styled text in which the style is taken up again after every reset. -/
def restyle (style : List Char) : List Char → List Char
  | [] => []
  | c :: cs =>
    if styleReset.isPrefixOf (c :: cs) then
      styleReset ++ style ++ restyle style (cs.drop (styleReset.length - 1))
    else c :: restyle style cs
termination_by cs => cs.length
decreasing_by all_goals simp_wf; try omega

def Environment.styled (env : Environment) (style text : String) : String :=
  let start := "\x1b[" ++ style ++ "m"
  if env.color then start ++ .ofList (restyle start.toList text.toList) ++ .ofList styleReset
  else text

theorem restyle_of_notMem (style : List Char) {cs : List Char} (h : '\x1b' ∉ cs) :
    restyle style cs = cs := by
  induction cs with
  | nil => simp [restyle]
  | cons c cs ih =>
    simp only [List.mem_cons, not_or] at h
    have hreset : styleReset.isPrefixOf (c :: cs) = false := by
      simp [styleReset, List.isPrefixOf, h.1]
    rw [restyle, if_neg (by simp [hreset]), ih h.2]

theorem Environment.styled_of_notMem (env : Environment) (style : String) {text : String}
    (h : '\x1b' ∉ text.toList) : env.styled style text =
      if env.color then "\x1b[" ++ style ++ "m" ++ text ++ "\x1b[0m" else text := by
  rw [styled, restyle_of_notMem _ h, String.ofList_toList]
  rfl

def Environment.tick (env : Environment) : String := env.styled "32" "✓"

def Environment.cross (env : Environment) : String := env.styled "31" "✗"

def shownOption {α : Type} (shown : α → String) : Option α → String
  | some a => "Some(" ++ shown a ++ ")"
  | none => "None"

def shownPath : Option String → String := shownOption Text.Quoted.quotePath

def Command.shown : Command → String
  | generate o r =>
    "Generate(GenerateArgs \x7b output_dir: " ++ Text.Quoted.quotePath o ++ ", registry: " ++
      shownPath r ++ " \x7d)"
  | list r c =>
    "List \x7b registry: " ++ shownPath r ++ ", capability: " ++
      shownOption Capability.title c ++ " \x7d"
  | check r => "Check \x7b registry: " ++ shownPath r ++ " \x7d"

def startingEvent (command : Option Command) : Log.Event where
  level := .debug
  target := "detect_mcp"
  message := "starting"
  fields := [("command", shownOption Command.shown command)]

def registryEvent (path : SlashPath) : Log.Event where
  level := .debug
  target := "detect_mcp::commands"
  message := "using registry file"
  fields := [("path", path.toString)]

def artifactsEvent (a : Artifact.Artifacts) : Log.Event where
  level := .debug
  target := "detect_mcp::commands::generate"
  message := "artifacts written"
  fields :=
    [("strategy", toString a.strategy.bytes), ("availability", toString a.availability.bytes)]

def danglingEvent (d : Dangling) : Log.Event where
  level := .warn
  target := "detect_mcp::commands::check"
  message := "dangling fallback"
  fields := [("tool", d.tool), ("fallback", d.fallback)]

/-- A path from the arguments: a relative one starts at the working directory. Backslashes become
slashes afterwards. -/
def Environment.resolve (env : Environment) (path : String) : SlashPath :=
  .ofChars <|
    if Files.isAbsolute path.toList then path.toList
    else Files.pushName env.workingDirectory.toList path.toList

def openRegistry (env : Environment) :
    Option String → Session (Except RosterError Registry)
  | none => return .ok .builtin
  | some file => do
    let path := env.resolve file
    Session.log (registryEvent path)
    loadRegistry path

/-- The registry of a file or the built-in one; that of a file may have no dangling reference. -/
def openValidated (env : Environment) (file : Option String) :
    Session (Except RosterError Registry) := do
  match ← openRegistry env file with
  | .error e => return .error e
  | .ok r =>
    if file.isNone then return .ok r
    else
      match r.validate with
      | .ok () => return .ok r
      | .error d => return .error (.dangling d)

/-- The path of an artifact as the confirmation shows it: below the directory as it was given. -/
def confirmedPath (directory : String) (w : Artifact.Written) : SlashPath :=
  (SlashPath.ofString directory).join (w.path.fileName?.getD [])

def confirmation (env : Environment) (directory : String) (a : Artifact.Artifacts) : String :=
  let generated (w : Artifact.Written) : String :=
    env.tick ++ " Generated " ++ (confirmedPath directory w).toString ++ "\n"
  env.tick ++ " MCP tool detection complete\n" ++ generated a.availability ++ generated a.strategy

def generate (env : Environment) (directory : String) (file : Option String) : Attempt := do
  match ← openValidated env file with
  | .error e => return .error (.roster e)
  | .ok r =>
    match ← Artifact.generate env.process r (env.resolve directory) with
    | .error e => return .error (.roster (.file e))
    | .ok a =>
      Session.log (artifactsEvent a)
      Session.print (confirmation env directory a)
      return .ok ()

def filtered (r : Registry) : Option Capability → Registry
  | some c => .ofList (r.records.filter fun t => t.capability = c)
  | none => r

def list (env : Environment) (file : Option String) (capability : Option Capability) : Attempt := do
  match ← openRegistry env file with
  | .error e => return .error (.roster e)
  | .ok r =>
    Session.print (Availability.render (filtered r capability))
    return .ok ()

def danglingText (env : Environment) (d : Dangling) : String :=
  env.cross ++ " " ++ env.styled "1" d.tool ++ " falls back to '" ++ d.fallback ++
    "', which is not registered\n"

def reportDangling (env : Environment) : List Dangling → Session Unit
  | [] => pure ()
  | d :: ds => do
    Session.log (danglingEvent d)
    Session.printError (danglingText env d)
    reportDangling env ds

def check (env : Environment) (file : Option String) : Attempt := do
  match ← openRegistry env file with
  | .error e => return .error (.roster e)
  | .ok r =>
    if r.dangling.isEmpty then
      Session.print (env.tick ++ " " ++ toString r.size ++ " tools, all fallbacks resolve\n")
      return .ok ()
    else
      reportDangling env r.dangling
      return .error (.danglingReferences r.dangling.length)

def Command.run (env : Environment) : Command → Attempt
  | .generate directory file => CommandLine.generate env directory file
  | .list file capability => CommandLine.list env file capability
  | .check file => CommandLine.check env file

def usualCommand : Command := .generate Artifact.defaultDirectory none

def Invocation.run (env : Environment) (i : Invocation) : Session Nat := do
  Session.log (startingEvent i.command)
  match ← (i.command.getD usualCommand).run env with
  | .ok () => return 0
  | .error e =>
    Session.printError (env.styled "1;31" "error" ++ ": " ++ e.message ++ "\n")
    return 1

def UsageError.text (e : UsageError) : String :=
  "error: " ++ e.message ++ "\n\nFor more information, try '--help'.\n"

def run (env : Environment) (args : List String) : Session Nat :=
  match Request.ofArguments args with
  | .ok (.run i) => i.run env
  | .ok (.help topic long) => do
    Session.print (Help.text topic long)
    return 0
  | .ok .version => do
    Session.print Help.versionText
    return 0
  | .error e => do
    Session.printError e.text
    return 2

def isVerbose (args : List String) : Bool :=
  match Request.ofArguments args with
  | .ok (.run i) => i.verbose
  | _ => false

def Environment.logFilter (env : Environment) (args : List String) : Log.Filter :=
  .ofSetting env.logSetting (isVerbose args)

end ToolRoster.CommandLine
