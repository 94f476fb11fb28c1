import ToolRoster.Artifact.Strategy
import ToolRoster.Artifact.Availability
import ToolRoster.Files.Store
import ToolRoster.Text.Quoted
/-!
# Writing the artifacts

Both artifacts go into one directory, which has to exist: the strategy document first, and the
listing only if that succeeds.
-/
namespace ToolRoster.Artifact

def defaultDirectory : String := ".gemini"

structure Written where
  path : SlashPath
  bytes : Nat
deriving DecidableEq, Repr

structure Artifacts where
  strategy : Written
  availability : Written
deriving DecidableEq, Repr

def groupedEvent (r : Registry) : Log.Event where
  level := .debug
  target := "mcp_tools::registry::store"
  message := "grouped tools by capability"
  fields := [("groups", toString r.groups.length), ("tools", toString r.size)]

def omissionEvent (o : Strategy.Omission) : Log.Event where
  level := .debug
  target := "mcp_tools::render::strategy"
  message := "fallback not registered, omitted"
  fields := [("tool", o.tool), ("fallback", Text.Quoted.quote o.fallback)]

def generatedEvent (w : Written) : Log.Event where
  level := .info
  target := "mcp_tools::generator"
  message := "generated artifact"
  fields := [("path", w.path.toString), ("bytes", toString w.bytes)]

def logAll : List Log.Event → Session Unit
  | [] => pure ()
  | e :: es => do
    Session.log e
    logAll es

def strategyEvents (r : Registry) : List Log.Event :=
  groupedEvent r :: (Strategy.omissions r).map omissionEvent

def write (process : Nat) (path : SlashPath) (text : String) :
    Session (Except FileError Written) := do
  match ← Files.writeText process path text with
  | .error e => return .error e
  | .ok () =>
    let w : Written := ⟨path, text.utf8ByteSize⟩
    Session.log (generatedEvent w)
    return .ok w

def generate (process : Nat) (r : Registry) (directory : SlashPath) :
    Session (Except FileError Artifacts) := do
  logAll (strategyEvents r)
  match ← write process (directory.joinString Strategy.fileName) (Strategy.render r) with
  | .error e => return .error e
  | .ok strategy =>
    match ← write process (directory.joinString Availability.fileName) (Availability.render r) with
    | .error e => return .error e
    | .ok availability => return .ok ⟨strategy, availability⟩

end ToolRoster.Artifact
