import ToolRoster.Text.Unprintable
/-! A text between double quotation marks, as messages and log lines show it. -/
namespace ToolRoster.Text.Quoted

inductive Marks where
  | double
  | both
deriving DecidableEq

def escapeChar (marks : Marks) (c : Char) : List Char :=
  if c = '\x00' then ['\\', '0']
  else if c = '\t' then ['\\', 't']
  else if c = '\n' then ['\\', 'n']
  else if c = '\r' then ['\\', 'r']
  else if c = '\\' || c = '"' then ['\\', c]
  else if c = '\x27' && marks = .both then ['\\', c]
  else if Unprintable.isUnprintable c then
    ['\\', 'u', '\x7b'] ++ Nat.toDigits 16 c.toNat ++ ['\x7d']
  else [c]

def quoteWith (marks : Marks) (cs : List Char) : List Char :=
  '"' :: cs.flatMap (escapeChar marks) ++ ['"']

def quote (s : String) : String := .ofList (quoteWith .double s.toList)

def quotePath (s : String) : String := .ofList (quoteWith .both s.toList)

end ToolRoster.Text.Quoted
