import ToolRoster.Tool
import ToolRoster.Text.Quoted
import ToolRoster.Decimal.Layout
/-!
# Why a value does not decode

A problem says which rule of the record's shape a value breaks. The formats share the problems and
differ in two words of the text.
-/
namespace ToolRoster.Decode

inductive Found where
  | bool (value : Bool)
  | integer (value : Int)
  | wideInteger (value : Int) (type : String)
  | float (value : Float)
  | text (value : String)
  | nothing
  | list
  | map

inductive Expected where
  | registryFile
  | record
  | list
  | text
  | bool
  | option
  | nothing
  | null
  | variant
  | integer
  | float
  | field
  | localTag
deriving DecidableEq, Repr

def Expected.words : Expected → String
  | registryFile => "struct RegistryFile"
  | record => "struct ToolRecord"
  | list => "a sequence"
  | text => "a string"
  | bool => "a boolean"
  | option => "option"
  | nothing => "unit"
  | null => "null"
  | variant => "enum Capability"
  | integer => "an integer"
  | float => "a float"
  | field => "field identifier"
  | localTag => "a YAML tag starting with '!'"

structure Wording where
  nothing : String
  float : Decimal.Layout

def Wording.inPlace : Wording where
  nothing := "unit value"
  float := ⟨none, 0⟩

inductive Problem where
  | missing (key : String)
  | duplicate (key : String)
  | unknownCapability (word : String)
  | type (found : Found) (expected : Expected)
  | value (found : Found) (expected : Expected)
  | tooShort (length : Nat)

def ticked (s : String) : String := "\x60" ++ s ++ "\x60"

def Found.words (w : Wording) : Found → String
  | bool b => "boolean " ++ ticked (if b then "true" else "false")
  | integer n => "integer " ++ ticked (toString n)
  | wideInteger n type => "integer " ++ ticked (toString n) ++ " as " ++ type
  | float x => "floating point " ++ ticked (w.float.text x)
  | text s => "string " ++ Text.Quoted.quote s
  | nothing => w.nothing
  | list => "sequence"
  | map => "map"

def Problem.message (w : Wording) : Problem → String
  | missing key => "missing field " ++ ticked key
  | duplicate key => "duplicate field " ++ ticked key
  | unknownCapability word =>
    "unknown variant " ++ ticked word ++ ", expected one of " ++
      ", ".intercalate (Capability.all.map fun c => ticked c.word)
  | type found expected => "invalid type: " ++ found.words w ++ ", expected " ++ expected.words
  | value found expected => "invalid value: " ++ found.words w ++ ", expected " ++ expected.words
  | tooShort n =>
    "invalid length " ++ toString n ++ ", expected struct ToolRecord with 5 elements"

def capability (word : String) : Except Problem Capability :=
  match Capability.ofWord? word with
  | some c => .ok c
  | none => .error (.unknownCapability word)

end ToolRoster.Decode
