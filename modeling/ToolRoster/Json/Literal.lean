import ToolRoster.Json.Fault
import ToolRoster.Text.Character
/-!
# Strings and words of JSON

Two ways to pass a string: reading it takes every escape apart, skipping it only finds its end.
Skipping lets half of a surrogate pair pass, reading does not.
-/
namespace ToolRoster.Json

def isBlank (c : Char) : Bool := c = ' ' || c = '\n' || c = '\t' || c = '\r'

def skipBlank (cs : List Char) : List Char := cs.dropWhile isBlank

def skipWord : List Char → List Char → Except Fault (List Char)
  | [], cs => .ok cs
  | _ :: _, [] => .error (.here .endInValue [])
  | w :: ws, c :: cs => if c = w then skipWord ws cs else .error (.beyond .expectedWord 1 (c :: cs))

/-- Four digits of base sixteen. They take four bytes, whatever these are. -/
def readHex4 (cs : List Char) : Except Fault (Nat × List Char) :=
  if Text.byteCount (cs.take 4) < 4 then .error ⟨.endInString, 0⟩
  else
    match cs with
    | a :: b :: c :: d :: rest =>
      match Text.hexValue? a, Text.hexValue? b, Text.hexValue? c, Text.hexValue? d with
      | some w, some x, some y, some z => .ok (((w * 16 + x) * 16 + y) * 16 + z, rest)
      | _, _, _, _ => .error (.beyond .invalidEscape 4 cs)
    | _ => .error (.beyond .invalidEscape 4 cs)

def escapeLetter? (c : Char) : Option Char :=
  if c = '"' || c = '\\' || c = '/' then some c
  else if c = 'b' then some '\x08'
  else if c = 'f' then some '\x0c'
  else if c = 'n' then some '\n'
  else if c = 'r' then some '\r'
  else if c = 't' then some '\t'
  else none

def readLowSurrogate (high : Nat) (cs : List Char) : Except Fault (Char × List Char) :=
  match cs with
  | '\\' :: 'u' :: rest => do
    let (low, rest') ← readHex4 rest
    if 0xDC00 ≤ low && low ≤ 0xDFFF then
      .ok (Char.ofNat (0x10000 + (high - 0xD800) * 0x400 + (low - 0xDC00)), rest')
    else .error (.here .loneSurrogate rest')
  | ['\\'] => .error (.here .endInString [])
  | '\\' :: rest => .error (.beyond .endOfHexEscape 1 rest)
  | [] => .error (.here .endInString [])
  | _ => .error (.beyond .endOfHexEscape 1 cs)

def readEscape (cs : List Char) : Except Fault (Char × List Char) :=
  match cs with
  | [] => .error (.here .endInString [])
  | 'u' :: rest => do
    let (n, rest') ← readHex4 rest
    if 0xDC00 ≤ n && n ≤ 0xDFFF then .error (.here .loneSurrogate rest')
    else if 0xD800 ≤ n && n ≤ 0xDBFF then readLowSurrogate n rest'
    else .ok (Char.ofNat n, rest')
  | c :: rest =>
    match escapeLetter? c with
    | some x => .ok (x, rest)
    | none => .error (.beyond .invalidEscape 1 cs)

def readChars : Nat → List Char → Except Fault (List Char × List Char)
  | 0, cs => .error (.here .endInString cs)
  | fuel + 1, cs =>
    match cs with
    | [] => .error (.here .endInString [])
    | '"' :: rest => .ok ([], rest)
    | '\\' :: rest => do
      let (c, rest) ← readEscape rest
      let (more, rest) ← readChars fuel rest
      .ok (c :: more, rest)
    | c :: rest =>
      if c.toNat < 0x20 then .error (.beyond .controlCharacter 1 cs)
      else do
        let (more, rest) ← readChars fuel rest
        .ok (c :: more, rest)

def readString (cs : List Char) : Except Fault (String × List Char) := do
  let (text, rest) ← readChars (cs.length + 1) cs
  .ok (.ofList text, rest)

def skipEscape (cs : List Char) : Except Fault (List Char) :=
  match cs with
  | [] => .error (.here .endInString [])
  | 'u' :: rest => do
    let (_, rest) ← readHex4 rest
    .ok rest
  | c :: rest => if (escapeLetter? c).isSome then .ok rest else .error (.beyond .invalidEscape 1 cs)

def skipChars : Nat → List Char → Except Fault (List Char)
  | 0, cs => .error (.here .endInString cs)
  | fuel + 1, cs =>
    match cs with
    | [] => .error (.here .endInString [])
    | '"' :: rest => .ok rest
    | '\\' :: rest => do
      let rest ← skipEscape rest
      skipChars fuel rest
    | c :: rest =>
      if c.toNat < 0x20 then .error (.here .controlCharacter cs) else skipChars fuel rest

def skipString (cs : List Char) : Except Fault (List Char) := skipChars (cs.length + 1) cs

end ToolRoster.Json
