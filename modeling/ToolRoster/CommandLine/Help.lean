import ToolRoster.CommandLine.Arguments
/-!
# Help texts

What the program says about itself. Help lists options in two columns. Generating alone has more to
say than fits there, so its long help gives each option a paragraph.
-/
namespace ToolRoster.CommandLine.Help

structure Row where
  head : String
  text : String
  usual : Option String := none

def spaces (n : Nat) : String := .ofList (List.replicate n ' ')

def usualNote (value : String) : String := "[default: " ++ value ++ "]"

def columns (rows : List Row) : String :=
  let width := (rows.map fun r => r.head.length).foldl max 0
  String.join (rows.map fun r =>
    "  " ++ r.head ++ spaces (width - r.head.length) ++ "  " ++ r.text ++
      ((r.usual.map fun v => " " ++ usualNote v).getD "") ++ "\n")

def paragraphs (rows : List Row) : String :=
  let margin := spaces 10
  "\n".intercalate (rows.map fun r =>
    "  " ++ r.head ++ "\n" ++ margin ++ r.text ++ "\n" ++
      ((r.usual.map fun v => margin ++ "\n" ++ margin ++ usualNote v ++ "\n").getD ""))

def hasLongHelp (s : Scope) : Bool := s = .generate

def choiceText (s : Scope) (long : Bool) : Choice → String
  | .switch .verbose => "Enable verbose output"
  | .switch .help =>
    if !hasLongHelp s then "Print help"
    else if long then "Print help (see a summary with '-h')"
    else "Print help (see more with '--help')"
  | .switch .version => "Print version"
  | .setting .outputDir => "Directory to write the artifacts into (must exist)"
  | .setting .registry => "Registry file (TOML, JSON or YAML) instead of the built-in table"
  | .setting .capability =>
    "Only list tools with this capability (" ++
      ", ".intercalate (Capability.all.map Capability.word) ++ ")"

def row (s : Scope) (long : Bool) (c : Choice) : Row where
  head := "-" ++ .ofList [c.letter] ++ ", " ++ c.shown
  text := choiceText s long c
  usual := if c = .setting .outputDir then some Artifact.defaultDirectory else none

def options (s : Scope) (long : Bool) : String :=
  let rows := s.choices.map (row s long)
  "Options:\n" ++ if long && hasLongHelp s then paragraphs rows else columns rows

def about : Topic → String
  | .scope .program => "Command-line generator for the MCP tool strategy and availability listing"
  | .scope .generate => "Write mcp-strategy.md and mcp-tools.txt"
  | .scope .list => "Print the availability listing"
  | .scope .check => "Check that every declared fallback names a registered tool"
  | .help => "Print this message or the help of the given subcommand(s)"

def usage : Topic → String
  | .scope .program => "[OPTIONS] [COMMAND]"
  | .scope .generate => "generate [OPTIONS]"
  | .scope .list => "list [OPTIONS]"
  | .scope .check => "check [OPTIONS]"
  | .help => "help [COMMAND]..."

def commands : String :=
  let command (head : String) (topic : Topic) : Row := { head, text := about topic }
  "Commands:\n" ++
    columns [command "generate" (.scope .generate), command "list" (.scope .list),
      command "check" (.scope .check), command helpCommand .help]

def examples : String :=
  "Examples: " ++ programName ++ spaces 26 ++ "# Built-in table into .gemini/ " ++
    programName ++ " generate -o docs" ++ spaces 9 ++ "# Into docs/ " ++
    programName ++ " generate -r tools.toml" ++ spaces 3 ++ "# From a registry file"

def lists (long : Bool) : Topic → List String
  | .scope .program => [commands, options .program long]
  | .scope s => [options s long]
  | .help =>
    ["Arguments:\n" ++ columns [⟨"[COMMAND]...", "Print help for the subcommand(s)", none⟩]]

def text (topic : Topic) (long : Bool) : String :=
  let opening :=
    match topic with
    | .scope s => if long && hasLongHelp s then [about topic, examples] else [about topic]
    | .help => [about topic]
  let lines := opening ++ ["Usage: " ++ programName ++ " " ++ usage topic]
  "\n".intercalate (lines.map (· ++ "\n") ++ lists long topic)

def versionText : String := programName ++ " " ++ programVersion ++ "\n"

end ToolRoster.CommandLine.Help
