import ToolRoster.Text.Character
/-!
# Places in YAML text

A place is what is left of the text, with its line and column. Five characters end a line, and a
carriage return takes the line feed after it along.
-/
namespace ToolRoster.Yaml

def isBlank (c : Char) : Bool := c = ' ' || c = '\t'

def isBreak (c : Char) : Bool :=
  c = '\r' || c = '\n' || c = '\x85' || c = '\u2028' || c = '\u2029'

def isWordChar (c : Char) : Bool := c.isAlphanum || c = '_' || c = '-'

def isAllowed (c : Char) : Bool :=
  let n := c.toNat
  n = 0x09 || n = 0x0A || n = 0x0D || (0x20 ≤ n && n ≤ 0x7E) || n = 0x85 ||
    (0xA0 ≤ n && n ≤ 0xD7FF) || (0xE000 ≤ n && n ≤ 0xFFFD) || 0x10000 ≤ n

structure Mark where
  line : Nat
  column : Nat
deriving DecidableEq, Repr

def Mark.suffix (m : Mark) : String :=
  if m.line = 0 && m.column = 0 then ""
  else " at line " ++ toString (m.line + 1) ++ " column " ++ toString (m.column + 1)

inductive Cause where
  | forbiddenCharacter
  | unexpectedCharacter
  | unfinishedKey
  | misplacedEntry
  | misplacedKey
  | misplacedValue
  | badDirective
  | badAnchor
  | badTag
  | badBlock
  | badQuote
  | badPlain
  | unexpectedToken
  | unknownAlias
  | secondDocument
  | tooManyAliases
deriving DecidableEq, Repr

def Cause.message : Cause → String
  | forbiddenCharacter => "control characters are not allowed"
  | unexpectedCharacter => "found character that cannot start any token"
  | unfinishedKey => "could not find expected ':'"
  | misplacedEntry => "block sequence entries are not allowed in this context"
  | misplacedKey => "mapping keys are not allowed in this context"
  | misplacedValue => "mapping values are not allowed in this context"
  | badDirective => "malformed directive"
  | badAnchor => "malformed anchor or alias"
  | badTag => "malformed tag"
  | badBlock => "malformed block scalar"
  | badQuote => "malformed quoted scalar"
  | badPlain => "malformed plain scalar"
  | unexpectedToken => "did not find expected node content"
  | unknownAlias => "unknown anchor"
  | secondDocument => "more than one document"
  | tooManyAliases => "repetition limit exceeded"

structure Fault where
  cause : Cause
  mark : Mark
deriving DecidableEq, Repr

def Fault.message (f : Fault) : String := f.cause.message ++ f.mark.suffix

structure Place where
  rest : List Char
  index : Nat := 0
  mark : Mark := ⟨0, 0⟩

namespace Place

def column (p : Place) : Nat := p.mark.column

def atEnd (p : Place) : Bool := p.rest.isEmpty

def ahead (p : Place) (n : Nat) (test : Char → Bool) : Bool :=
  match p.rest[n]? with
  | some c => test c
  | none => false

def blankOrEnd (p : Place) (n : Nat) : Bool :=
  match p.rest[n]? with
  | some c => isBlank c || isBreak c
  | none => true

def lineEnds (p : Place) : Bool :=
  match p.rest with
  | c :: _ => isBreak c
  | [] => true

def skip (p : Place) : Place :=
  ⟨p.rest.tail, p.index + 1, ⟨p.mark.line, p.mark.column + 1⟩⟩

def advance (p : Place) (n : Nat) : Place :=
  ⟨p.rest.drop n, p.index + n, ⟨p.mark.line, p.mark.column + n⟩⟩

def takeWhile (p : Place) (test : Char → Bool) : List Char × Place :=
  let taken := p.rest.takeWhile test
  (taken, p.advance taken.length)

def skipWhile (p : Place) (test : Char → Bool) : Place := (p.takeWhile test).2

def takeBreak (p : Place) : List Char × Place :=
  let next (n : Nat) (rest : List Char) : Place := ⟨rest, p.index + n, ⟨p.mark.line + 1, 0⟩⟩
  match p.rest with
  | '\r' :: '\n' :: r => (['\n'], next 2 r)
  | c :: r =>
    if c = '\r' || c = '\n' || c = '\x85' then (['\n'], next 1 r)
    else if isBreak c then ([c], next 1 r)
    else ([], p)
  | [] => ([], p)

def skipComment (p : Place) : Place :=
  if p.ahead 0 (· = '#') then p.skipWhile fun c => !isBreak c else p

def startsWithThree (p : Place) (mark : Char) : Bool :=
  p.column = 0 && p.ahead 0 (· = mark) && p.ahead 1 (· = mark) && p.ahead 2 (· = mark) &&
    p.blankOrEnd 3

def atDocumentEdge (p : Place) : Bool := p.startsWithThree '-' || p.startsWithThree '.'

end Place

def hexNumber? (cs : List Char) : Option Nat :=
  cs.foldl (fun n? c => do some ((← n?) * 16 + (← Text.hexValue? c))) (some 0)

end ToolRoster.Yaml
