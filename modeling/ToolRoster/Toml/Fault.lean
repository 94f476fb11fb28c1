import ToolRoster.Text.Position
import ToolRoster.Decode.Problem
/-!
# Faults in TOML text

The whole text is read before its values are looked at, so a fault of the text comes before any
problem with a value.
-/
namespace ToolRoster.Toml

inductive Cause where
  | malformed
  | tooDeep
  | conflict (key : String)
deriving DecidableEq, Repr

def Cause.message : Cause → String
  | malformed => "malformed text"
  | tooDeep => "values are nested too deep"
  | conflict key => "conflicting definitions of " ++ Decode.ticked key

structure Fault where
  cause : Cause
  /-- How many bytes of the text are left behind the place of the fault. -/
  left : Nat
deriving DecidableEq, Repr

def Fault.here (cause : Cause) (rest : List Char) : Fault := ⟨cause, Text.byteCount rest⟩

def Fault.message (f : Fault) (text : List Char) : String :=
  let p := Text.Position.leaving text f.left
  f.cause.message ++ " at line " ++ toString p.line ++ " column " ++ toString (p.column + 1)

def depthLimit : Nat := 80

end ToolRoster.Toml
