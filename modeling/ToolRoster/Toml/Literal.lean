import ToolRoster.Toml.Fault
import ToolRoster.Text.Character
/-!
# Blanks, keys and strings of TOML

Readers take a part of the text and leave the rest; they fail where the text has another form.
-/
namespace ToolRoster.Toml

def isBlank (c : Char) : Bool := c = ' ' || c = '\t'

def skipBlank (cs : List Char) : List Char := cs.dropWhile isBlank

def isPlain (c : Char) : Bool := c = '\t' || (0x20 ≤ c.toNat && c.toNat ≤ 0x7E) || 0x80 ≤ c.toNat

def newline? : List Char → Option (List Char)
  | '\n' :: r => some r
  | '\r' :: '\n' :: r => some r
  | _ => none

def skipComment : List Char → List Char
  | '#' :: r => r.dropWhile isPlain
  | r => r

def endLine? (cs : List Char) : Option (List Char) :=
  match skipComment (skipBlank cs) with
  | [] => some []
  | r => newline? r

def skipLines : Bool → List Char → List Char
  | _, [] => []
  | _, '\n' :: r => skipLines false r
  | _, '\r' :: '\n' :: r => skipLines false r
  | true, c :: r => if isPlain c then skipLines true r else c :: r
  | false, c :: r =>
    if isBlank c then skipLines false r
    else if c = '#' then skipLines true r
    else c :: r

def readHex : Nat → Nat → List Char → Option (Nat × List Char)
  | 0, n, cs => some (n, cs)
  | _ + 1, _, [] => none
  | k + 1, n, c :: cs =>
    match Text.hexValue? c with
    | some d => readHex k (n * 16 + d) cs
    | none => none

def readEscape : List Char → Option (Char × List Char)
  | 'b' :: r => some ('\x08', r)
  | 'f' :: r => some ('\x0c', r)
  | 'n' :: r => some ('\n', r)
  | 'r' :: r => some ('\r', r)
  | 't' :: r => some ('\t', r)
  | '"' :: r => some ('"', r)
  | '\\' :: r => some ('\\', r)
  | 'u' :: r => do
    let (n, r) ← readHex 4 0 r
    some (← Text.charOf? n, r)
  | 'U' :: r => do
    let (n, r) ← readHex 8 0 r
    some (← Text.charOf? n, r)
  | _ => none

def readBasic : Nat → List Char → Option (List Char × List Char)
  | 0, _ => none
  | fuel + 1, cs =>
    match cs with
    | [] => none
    | '"' :: r => some ([], r)
    | '\\' :: r => do
      let (c, r) ← readEscape r
      let (more, r) ← readBasic fuel r
      some (c :: more, r)
    | c :: r =>
      if isPlain c then do
        let (more, r) ← readBasic fuel r
        some (c :: more, r)
      else none

def readLiteral : List Char → Option (List Char × List Char)
  | [] => none
  | '\x27' :: r => some ([], r)
  | c :: r =>
    if isPlain c then do
      let (more, r) ← readLiteral r
      some (c :: more, r)
    else none

/-- A run of marks inside a string of several lines: two at most belong to the text, and three more
close the string. -/
inductive Marks where
  | inside (count : Nat)
  | closing (count : Nat)

def Marks.ofRun (n : Nat) : Marks :=
  if n < 3 then inside n else closing (min (n - 3) 2)

def skipSpace : List Char → List Char
  | [] => []
  | '\r' :: '\n' :: r => skipSpace r
  | c :: r => if isBlank c || c = '\n' then skipSpace r else c :: r

def continued? (cs : List Char) : Option (List Char) := (newline? (skipBlank cs)).map skipSpace

def readLong (mark : Char) : Nat → List Char → Option (List Char × List Char)
  | 0, _ => none
  | fuel + 1, cs =>
    match cs with
    | [] => none
    | c :: r =>
      if c = mark then
        match Marks.ofRun (cs.takeWhile (· = mark)).length with
        | .inside n => do
          let (more, rest) ← readLong mark fuel (cs.drop n)
          some (List.replicate n mark ++ more, rest)
        | .closing n => some (List.replicate n mark, cs.drop (n + 3))
      else if c = '\\' && mark = '"' then
        match continued? r with
        | some r => readLong mark fuel r
        | none => do
          let (x, r) ← readEscape r
          let (more, r) ← readLong mark fuel r
          some (x :: more, r)
      else
        match newline? cs with
        | some r => do
          let (more, r) ← readLong mark fuel r
          some ('\n' :: more, r)
        | none =>
          if isPlain c then do
            let (more, r) ← readLong mark fuel r
            some (c :: more, r)
          else none

def skipFirstNewline (cs : List Char) : List Char := (newline? cs).getD cs

def readString : List Char → Option (List Char × List Char)
  | '"' :: '"' :: '"' :: r => readLong '"' (r.length + 1) (skipFirstNewline r)
  | '"' :: r => readBasic (r.length + 1) r
  | '\x27' :: '\x27' :: '\x27' :: r => readLong '\x27' (r.length + 1) (skipFirstNewline r)
  | '\x27' :: r => readLiteral r
  | _ => none

def isBare (c : Char) : Bool := c.isAlphanum || c = '-' || c = '_'

def readKeyPart (cs : List Char) : Option (List Char × List Char) :=
  match cs with
  | '"' :: r => readBasic (r.length + 1) r
  | '\x27' :: r => readLiteral r
  | _ =>
    let part := cs.takeWhile isBare
    if part.isEmpty then none else some (part, cs.dropWhile isBare)

def readKeyParts : Nat → List Char → Option (List String × List Char)
  | 0, _ => none
  | fuel + 1, cs => do
    let (part, r) ← readKeyPart (skipBlank cs)
    match skipBlank r with
    | '.' :: r => do
      let (parts, r) ← readKeyParts fuel r
      some (.ofList part :: parts, r)
    | r => some ([.ofList part], r)

structure Key where
  path : List String
  last : String
deriving DecidableEq, Repr

def readKey (cs : List Char) : Except Fault (Key × List Char) :=
  match readKeyParts (cs.length + 1) cs with
  | none => .error (.here .malformed cs)
  | some (parts, r) =>
    if depthLimit ≤ parts.length then .error (.here .tooDeep cs)
    else .ok (⟨parts.dropLast, parts.getLastD ""⟩, r)

end ToolRoster.Toml
