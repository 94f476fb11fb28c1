import ToolRoster.Files.Session
import ToolRoster.Files.Temporary
import ToolRoster.RegistryFile.Format
/-!
# Reading and writing whole files

A file is replaced at once: its new content goes to a temporary file next to it, which is then
renamed over it. A reader sees the old content or the new one. Every error names the target.
-/
namespace ToolRoster

inductive FileError where
  | io (path : SlashPath) (refusal : Files.Refusal)
  | parse (path : SlashPath) (format : Format) (detail : String)
  | unsupported (extension : String)
deriving DecidableEq, Repr

def FileError.message : FileError → String
  | io path refusal => "I/O error at " ++ path.toString ++ ": " ++ refusal.message
  | parse path format detail =>
    "Failed to parse " ++ format.name ++ " config at " ++ path.toString ++ ": " ++ detail
  | unsupported extension => "Unsupported config format: " ++ extension

namespace Files

def fill (path : List Char) : List ByteArray → Session Reply
  | [] => Session.call (.sync path)
  | chunk :: chunks => do
    match ← Session.call (.append path chunk) with
    | .ok _ => fill path chunks
    | .error e => return .error e

def complete (temp target : List Char) (chunks : List ByteArray) : Session Reply := do
  match ← fill temp chunks with
  | .ok _ => Session.call (.rename temp target)
  | .error e => return .error e

def writtenEvent (path : SlashPath) (bytes : Nat) : Log.Event where
  level := .debug
  target := "mcp_fs::io"
  message := "wrote file atomically"
  fields := [("path", path.toString), ("bytes", toString bytes)]

/-- Replaces the content of a file by the chunks. The temporary file is gone afterwards, whether the
write succeeds or not. -/
def writeChunks (process : Nat) (path : SlashPath) (chunks : List ByteArray) :
    Session (Except FileError Unit) := do
  let temp := temporary process path.chars
  match ← Session.call (.create temp) with
  | .error e => return .error (.io path e)
  | .ok _ =>
    match ← complete temp path.chars chunks with
    | .error e =>
      let _ ← Session.call (.remove temp)
      return .error (.io path e)
    | .ok _ =>
      Session.log (writtenEvent path (chunks.foldl (fun n chunk => n + chunk.size) 0))
      return .ok ()

def writeBytes (process : Nat) (path : SlashPath) (content : ByteArray) :
    Session (Except FileError Unit) :=
  writeChunks process path [content]

def writeText (process : Nat) (path : SlashPath) (text : String) :
    Session (Except FileError Unit) :=
  writeBytes process path text.toUTF8

def readText (path : SlashPath) : Session (Except FileError String) := do
  match ← Session.call (.read path.chars) with
  | .error e => return .error (.io path e)
  | .ok bytes =>
    match String.fromUTF8? bytes with
    | some text => return .ok text
    | none => return .error (.io path .notText)

end Files
end ToolRoster
