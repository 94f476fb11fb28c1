import ToolRoster.Tool
/-!
# Commands and their options

Which commands there are, which options each takes, and what is wrong with arguments that fit none.
An option is a switch, which stands alone, or a setting, which takes a value.
-/
namespace ToolRoster.CommandLine

def programName : String := "detect-mcp"

def programVersion : String := "0.1.0"

inductive Scope where
  | program
  | generate
  | list
  | check
deriving DecidableEq, Repr

def Scope.ofCommand? (word : String) : Option Scope :=
  if word = "generate" then some .generate
  else if word = "list" then some .list
  else if word = "check" then some .check
  else none

def helpCommand : String := "help"

def isCommand (word : String) : Bool := (Scope.ofCommand? word).isSome || word = helpCommand

inductive Switch where
  | verbose
  | help
  | version
deriving DecidableEq, Repr

inductive Setting where
  | outputDir
  | registry
  | capability
deriving DecidableEq, Repr

inductive Choice where
  | switch (s : Switch)
  | setting (s : Setting)
deriving DecidableEq, Repr

namespace Choice

def name : Choice → String
  | switch .verbose => "verbose"
  | switch .help => "help"
  | switch .version => "version"
  | setting .outputDir => "output-dir"
  | setting .registry => "registry"
  | setting .capability => "capability"

def letter : Choice → Char
  | switch .verbose => 'v'
  | switch .help => 'h'
  | switch .version => 'V'
  | setting .outputDir => 'o'
  | setting .registry => 'r'
  | setting .capability => 'c'

def shown : Choice → String
  | switch s => "--" ++ (switch s).name
  | setting .outputDir => "--output-dir <OUTPUT_DIR>"
  | setting .registry => "--registry <REGISTRY>"
  | setting .capability => "--capability <CAPABILITY>"

end Choice

def Scope.choices : Scope → List Choice
  | program => [.switch .verbose, .switch .help, .switch .version]
  | generate => [.setting .outputDir, .switch .verbose, .setting .registry, .switch .help]
  | list => [.setting .registry, .switch .verbose, .setting .capability, .switch .help]
  | check => [.setting .registry, .switch .verbose, .switch .help]

def Scope.long? (s : Scope) (name : List Char) : Option Choice :=
  s.choices.find? fun c => c.name.toList = name

def Scope.short? (s : Scope) (letter : Char) : Option Choice :=
  s.choices.find? fun c => c.letter = letter

inductive UsageError where
  | unexpected (argument : String)
  | unknownCommand (word : String)
  | missingValue (setting : Setting)
  | repeated (choice : Choice)
  | unwantedValue (switch : Switch) (value : String)
  | badCapability (e : Capability.Unknown)
deriving DecidableEq, Repr

def UsageError.message : UsageError → String
  | unexpected a => "unexpected argument '" ++ a ++ "' found"
  | unknownCommand w => "unrecognized subcommand '" ++ w ++ "'"
  | missingValue s =>
    "a value is required for '" ++ (Choice.setting s).shown ++ "' but none was supplied"
  | repeated c => "the argument '" ++ c.shown ++ "' cannot be used multiple times"
  | unwantedValue s v =>
    "unexpected value '" ++ v ++ "' for '" ++ (Choice.switch s).shown ++
      "' found; no more were expected"
  | badCapability e =>
    "invalid value '" ++ e.text ++ "' for '" ++ (Choice.setting .capability).shown ++ "': " ++
      e.message

end ToolRoster.CommandLine
