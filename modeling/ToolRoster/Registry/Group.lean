import ToolRoster.Registry.Basic
/-!
# Groups of tools by capability

Groups stand in the order in which their capability is first met, and the tools of a group in
registration order. The first available tool of a group is its primary.
-/
namespace ToolRoster

structure Group where
  capability : Capability
  tools : List Tool
deriving DecidableEq, Repr

namespace Group

def primary? (g : Group) : Option Tool := g.tools.find? Tool.available

/-- Puts a tool at the end of its group, or into a new group after all others. -/
def place (t : Tool) : List Group → List Group
  | [] => [⟨t.capability, [t]⟩]
  | g :: gs =>
    if g.capability = t.capability then { g with tools := g.tools ++ [t] } :: gs
    else g :: place t gs

def ofRecords (ts : List Tool) : List Group := ts.foldl (fun gs t => place t gs) []

end Group

def Registry.groups (r : Registry) : List Group := Group.ofRecords r.records

end ToolRoster
