import ToolRoster.Decode.Draft
/-!
# Records written as JSON

The compact form: no white space, members in the order of the fields, and no member for a fallback
or situations that a record does not have.
-/
namespace ToolRoster.Json

def escape (c : Char) : List Char :=
  if c = '"' || c = '\\' then ['\\', c]
  else if c = '\x08' then ['\\', 'b']
  else if c = '\x0c' then ['\\', 'f']
  else if c = '\n' then ['\\', 'n']
  else if c = '\r' then ['\\', 'r']
  else if c = '\t' then ['\\', 't']
  else if c.toNat < 0x20 then
    ['\\', 'u', '0', '0', Nat.digitChar (c.toNat / 16), Nat.digitChar (c.toNat % 16)]
  else [c]

def writeString (s : String) : List Char := '"' :: s.toList.flatMap escape ++ ['"']

def writeBool (b : Bool) : List Char := (if b then "true" else "false").toList

def separated : List (List Char) → List Char
  | [] => []
  | [x] => x
  | x :: xs => x ++ ',' :: separated xs

def writeStrings (ss : List String) : List Char := '[' :: separated (ss.map writeString) ++ [']']

def writeMember (key : String) (value : List Char) : List Char := writeString key ++ ':' :: value

def members (t : Tool) : List (List Char) :=
  [writeMember "name" (writeString t.name),
   writeMember "available" (writeBool t.available),
   writeMember "capability" (writeString t.capability.word)] ++
  (match t.fallback with
   | some f => [writeMember "fallback" (writeString f)]
   | none => []) ++
  (if t.useCases.isEmpty then [] else [writeMember "use_cases" (writeStrings t.useCases)])

def writeRecord (t : Tool) : List Char := '{' :: separated (members t) ++ ['}']

def writeFile (ts : List Tool) : List Char :=
  '{' :: writeMember "tool" ('[' :: separated (ts.map writeRecord) ++ [']']) ++ ['}']

end ToolRoster.Json
