import ToolRoster.Registry.Basic
/-!
# The availability listing

A plain text with one entry for each tool. A declared fallback is always shown, whether or not it
is available or registered.
-/
namespace ToolRoster.Availability

def fileName : String := "mcp-tools.txt"

def heading : String := "Available MCP Tools (Auto-Detected):\n\n"

def status (available : Bool) : String := if available then "✓ Available" else "✗ Not available"

def fallbackLine : Option String → String
  | none => ""
  | some f => "  Fallback: " ++ f ++ "\n"

def entry (t : Tool) : String :=
  "- " ++ t.name ++ ": " ++ status t.available ++ "\n" ++ fallbackLine t.fallback

def render (r : Registry) : String := heading ++ String.join (r.records.map entry)

end ToolRoster.Availability
