import ToolRoster.Yaml.Place
/-!
# Tokens of YAML

The parts of a text that carry its structure. Where a collection begins or ends by indentation
alone, a token stands for that too.
-/
namespace ToolRoster.Yaml

inductive Style where
  | plain
  | single
  | double
  | literal
  | folded
deriving DecidableEq, Repr

inductive Token where
  | streamStart
  | streamEnd
  | version (major minor : Nat)
  | handle (name meaning : List Char)
  | documentStart
  | documentEnd
  | blockSequence
  | blockMapping
  | blockEnd
  | flowSequence
  | flowSequenceEnd
  | flowMapping
  | flowMappingEnd
  | blockEntry
  | flowEntry
  | key
  | value
  | alias (name : List Char)
  | anchor (name : List Char)
  | tag (handle suffix : List Char)
  | scalar (style : Style) (text : List Char)
deriving DecidableEq, Repr

structure Placed where
  token : Token
  start : Mark
  stop : Mark
deriving DecidableEq, Repr

end ToolRoster.Yaml
