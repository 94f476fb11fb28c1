import ToolRoster.Tool
import ToolRoster.Decode.Problem
/-!
# Records in the making

A decoder meets the fields of a record one by one. The draft holds what it has met; at the end the
draft becomes a record if no field without default is missing.
-/
namespace ToolRoster.Decode

inductive Field where
  | name
  | available
  | capability
  | fallback
  | useCases
deriving DecidableEq, Repr

namespace Field

def all : List Field := [name, available, capability, fallback, useCases]

def key : Field → String
  | name => "name"
  | available => "available"
  | capability => "capability"
  | fallback => "fallback"
  | useCases => "use_cases"

def ofKey? (s : String) : Option Field := all.find? fun f => f.key = s

end Field

def toolKey : String := "tool"

inductive Setting where
  | name (value : String)
  | available (value : Bool)
  | capability (value : Capability)
  | fallback (value : Option String)
  | useCases (value : List String)

structure Draft where
  name : Option String := none
  available : Option Bool := none
  capability : Option Capability := none
  fallback : Option (Option String) := none
  useCases : Option (List String) := none

namespace Draft

def holds (d : Draft) : Field → Bool
  | .name => d.name.isSome
  | .available => d.available.isSome
  | .capability => d.capability.isSome
  | .fallback => d.fallback.isSome
  | .useCases => d.useCases.isSome

/-- Takes in one field. An empty fallback declares none. -/
def set (d : Draft) : Setting → Draft
  | .name s => { d with name := some s }
  | .available b => { d with available := some b }
  | .capability c => { d with capability := some c }
  | .fallback f => { d with fallback := some (f.filter fun s => !s.isEmpty) }
  | .useCases us => { d with useCases := some us }

def record (d : Draft) (name : String) (capability : Capability) : Tool where
  name := name
  capability := capability
  available := d.available.getD false
  fallback := d.fallback.getD none
  useCases := d.useCases.getD []

def finish (d : Draft) : Except Problem Tool :=
  match d.name, d.capability with
  | none, _ => .error (.missing Field.name.key)
  | some _, none => .error (.missing Field.capability.key)
  | some n, some c => .ok (d.record n c)

def finishList (d : Draft) : Except Problem Tool :=
  match d.name, d.capability with
  | none, _ => .error (.tooShort 0)
  | some _, none => .error (.tooShort 2)
  | some n, some c => .ok (d.record n c)

end Draft
end ToolRoster.Decode
