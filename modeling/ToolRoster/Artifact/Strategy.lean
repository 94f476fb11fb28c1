import ToolRoster.Registry.Group
/-!
# The strategy document

A Markdown text with one section for each capability group. A section names the primary tool, when
to use it, and what to do when it cannot serve.
-/
namespace ToolRoster.Strategy

def fileName : String := "mcp-strategy.md"

def heading : String := "# MCP Tool Strategy\n\n"

inductive Fallback where
  | silent
  | manual
  | named (tool : String)
deriving DecidableEq, Repr

def Fallback.of (r : Registry) (primary : Tool) : Fallback :=
  match primary.fallback with
  | none => .silent
  | some f =>
    match r.get? f with
    | none => .silent
    | some t => if t.available then .named f else .manual

def Fallback.text (c : Capability) : Fallback → String
  | silent => ""
  | manual => "**Fallback**: Manual " ++ c.word ++ " (no tools available)\n\n"
  | named tool => "**Fallback**: \x60" ++ tool ++ "\x60\n\n"

def useWhen (useCases : List String) : String :=
  if useCases.isEmpty then ""
  else "Use when:\n\n" ++ String.join (useCases.map fun u => "- " ++ u ++ "\n") ++ "\n"

def sectionHeading (c : Capability) : String := "## " ++ c.title ++ " Tools\n\n"

def notice (c : Capability) : String :=
  "⚠️ No tools available - manual " ++ c.word ++ " required\n\n"

def primaryLine (name : String) : String := "**Primary**: \x60" ++ name ++ "\x60\n\n"

def renderGroup (r : Registry) (g : Group) : String :=
  sectionHeading g.capability ++
    match g.primary? with
    | none => notice g.capability
    | some p => primaryLine p.name ++ useWhen p.useCases ++ (Fallback.of r p).text g.capability

def render (r : Registry) : String := heading ++ String.join (r.groups.map (renderGroup r))

/-- A primary tool whose declared fallback is not registered, so that its section has no line for
it. -/
structure Omission where
  tool : String
  fallback : String
deriving DecidableEq, Repr

def omission? (r : Registry) (g : Group) : Option Omission :=
  match g.primary? with
  | none => none
  | some p =>
    match p.fallback with
    | none => none
    | some f => if (r.get? f).isNone then some ⟨p.name, f⟩ else none

def omissions (r : Registry) : List Omission := r.groups.filterMap (omission? r)

end ToolRoster.Strategy
