import ToolRoster.SlashPath
import ToolRoster.Text.LowerCase
/-! The formats of files, and how the name of a file tells its format. -/
namespace ToolRoster

inductive Format where
  | toml
  | json
  | yaml
deriving DecidableEq, Repr

namespace Format

def name : Format → String
  | toml => "TOML"
  | json => "JSON"
  | yaml => "YAML"

def ofExtension? (extension : List Char) : Option Format :=
  let lower := String.ofList (Text.lowerCase extension)
  if lower = "toml" then some toml
  else if lower = "json" then some json
  else if lower = "yaml" || lower = "yml" then some yaml
  else none

def ofPath? (path : SlashPath) : Option Format := ofExtension? (path.extension?.getD [])

end Format
end ToolRoster
