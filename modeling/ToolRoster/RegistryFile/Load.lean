import ToolRoster.Files.Store
import ToolRoster.Json.Record
import ToolRoster.Toml.Record
import ToolRoster.Yaml.Record
import ToolRoster.Registry.Fallback
/-!
# Loading records and registries

The extension of a file is looked at before the file, so a file of an unknown format is never
opened. A registry file lists every tool once; fallbacks are not looked at here.
-/
namespace ToolRoster

inductive RosterError where
  | file (e : FileError)
  | duplicateTool (name : String)
  | dangling (d : Dangling)
deriving DecidableEq, Repr

def RosterError.message : RosterError → String
  | file e => "Filesystem error: " ++ e.message
  | duplicateTool name => "Tool '" ++ name ++ "' is declared more than once"
  | dangling d => d.message

structure Decoders (α : Type) where
  toml : List Char → Except String α
  json : List Char → Except String α
  yaml : List Char → Except String α

def Decoders.of {α : Type} (d : Decoders α) : Format → List Char → Except String α
  | .toml => d.toml
  | .json => d.json
  | .yaml => d.yaml

def recordDecoders : Decoders Tool where
  toml := Toml.decode Toml.recordOf
  json := Json.decode Json.readRecord
  yaml := Yaml.decode Yaml.Document.readRecord

def fileDecoders : Decoders (List Tool) where
  toml := Toml.decode Toml.fileOf
  json := Json.decode Json.readFile
  yaml := Yaml.decode Yaml.Document.readFile

def loadingEvent (path : SlashPath) (format : Format) : Log.Event where
  level := .debug
  target := "mcp_fs::config"
  message := "loading config"
  fields := [("path", path.toString), ("format", Text.Quoted.quote format.name)]

def loadFile {α : Type} (decoders : Decoders α) (path : SlashPath) :
    Session (Except FileError α) := do
  match Format.ofPath? path with
  | none => return .error (.unsupported (.ofList (path.extension?.getD [])))
  | some format =>
    match ← Files.readText path with
    | .error e => return .error e
    | .ok text =>
      Session.log (loadingEvent path format)
      return (decoders.of format text.toList).mapError fun detail => .parse path format detail

def loadRecord (path : SlashPath) : Session (Except FileError Tool) :=
  loadFile recordDecoders path

/-- Registers records of new names. The first record whose name is known is at fault. -/
def Registry.insertNew (r : Registry) : List Tool → Except RosterError Registry
  | [] => .ok r
  | t :: ts =>
    match r.register t with
    | (r', none) => insertNew r' ts
    | (_, some _) => .error (.duplicateTool t.name)

def loadedEvent (path : SlashPath) (r : Registry) : Log.Event where
  level := .debug
  target := "mcp_tools::loader"
  message := "loaded registry file"
  fields := [("path", path.toString), ("tools", toString r.size)]

def loadRegistry (path : SlashPath) : Session (Except RosterError Registry) := do
  match ← loadFile fileDecoders path with
  | .error e => return .error (.file e)
  | .ok ts =>
    match Registry.empty.insertNew ts with
    | .error e => return .error e
    | .ok r =>
      Session.log (loadedEvent path r)
      return .ok r

end ToolRoster
