import ToolRoster.Decode.Problem
import ToolRoster.Text.Position
/-!
# Faults in JSON text

A fault is a cause and a place. Readers look at the next character before they take it, so most
faults lie behind the character that they name.
-/
namespace ToolRoster.Json

inductive Cause where
  | endInList
  | endInObject
  | endInString
  | endInValue
  | expectedColon
  | expectedListSeparator
  | expectedObjectSeparator
  | expectedWord
  | expectedValue
  | invalidEscape
  | invalidNumber
  | numberTooLarge
  | controlCharacter
  | keyNotString
  | loneSurrogate
  | endOfHexEscape
  | trailingComma
  | trailingCharacters
  | problem (p : Decode.Problem)

def wording : Decode.Wording where
  nothing := "null"
  float := ⟨some (-5, 15), 2⟩

def Cause.message : Cause → String
  | endInList => "EOF while parsing a list"
  | endInObject => "EOF while parsing an object"
  | endInString => "EOF while parsing a string"
  | endInValue => "EOF while parsing a value"
  | expectedColon => "expected \x60:\x60"
  | expectedListSeparator => "expected \x60,\x60 or \x60]\x60"
  | expectedObjectSeparator => "expected \x60,\x60 or \x60\x7d\x60"
  | expectedWord => "expected ident"
  | expectedValue => "expected value"
  | invalidEscape => "invalid escape"
  | invalidNumber => "invalid number"
  | numberTooLarge => "number out of range"
  | controlCharacter => "control character (\\u0000-\\u001F) found while parsing a string"
  | keyNotString => "key must be a string"
  | loneSurrogate => "lone leading surrogate in hex escape"
  | endOfHexEscape => "unexpected end of hex escape"
  | trailingComma => "trailing comma"
  | trailingCharacters => "trailing characters"
  | problem p => p.message wording

structure Fault where
  cause : Cause
  /-- How many bytes of the text are left behind the place of the fault. -/
  left : Nat

namespace Fault

def here (cause : Cause) (rest : List Char) : Fault := ⟨cause, Text.byteCount rest⟩

def beyond (cause : Cause) (bytes : Nat) (rest : List Char) : Fault :=
  ⟨cause, Text.byteCount rest - bytes⟩

def next (cause : Cause) (rest : List Char) : Fault := beyond cause 1 rest

def ofProblem (p : Decode.Problem) (rest : List Char) : Fault := here (.problem p) rest

def message (f : Fault) (text : List Char) : String :=
  let p := Text.Position.leaving text f.left
  f.cause.message ++ " at line " ++ toString p.line ++ " column " ++ toString p.column

end Fault

/-- A reader takes a part of the text and leaves the rest. -/
abbrev Read (α : Type) := List Char → Except Fault (α × List Char)

end ToolRoster.Json
