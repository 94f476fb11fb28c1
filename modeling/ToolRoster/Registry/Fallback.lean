import ToolRoster.Registry.Basic
/-!
# Fallback references

A declared fallback should name a registered tool. A reference that names none dangles.
-/
namespace ToolRoster

structure Dangling where
  tool : String
  fallback : String
deriving DecidableEq, Repr

namespace Dangling

def message (d : Dangling) : String :=
  "Tool '" ++ d.tool ++ "' declares fallback '" ++ d.fallback ++ "' which is not registered"

end Dangling

namespace Registry

def danglingOf? (r : Registry) (t : Tool) : Option Dangling :=
  match t.fallback with
  | some f => if r.contains f then none else some ⟨t.name, f⟩
  | none => none

def dangling (r : Registry) : List Dangling := r.records.filterMap r.danglingOf?

def validate (r : Registry) : Except Dangling Unit :=
  match r.dangling with
  | [] => .ok ()
  | d :: _ => .error d

end Registry
end ToolRoster
