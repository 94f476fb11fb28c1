import ToolRoster.Yaml.Token
/-!
# Anchors, tags and directives

What stands before a node to name it or to say its type, and what stands before a document to say
how its tags are read.
-/
namespace ToolRoster.Yaml

def endsAnchor (p : Place) : Bool :=
  p.blankOrEnd 0 || p.ahead 0 fun c =>
    c = '?' || c = ':' || c = ',' || c = ']' || c = '\x7d' || c = '%' || c = '@' || c = '\x60'

def readAnchor (p : Place) : Except Fault (List Char × Place) :=
  let (name, q) := p.skip.takeWhile isWordChar
  if name.isEmpty || !endsAnchor q then .error ⟨.badAnchor, q.mark⟩ else .ok (name, q)

def isTagChar (verbatim : Bool) (c : Char) : Bool :=
  isWordChar c || ";/?:@&=+$.%!~*\x27()".toList.contains c ||
    (verbatim && (c = ',' || c = '[' || c = ']'))

def escapedByte? : List Char → Option (Nat × List Char)
  | '%' :: a :: b :: r =>
    match Text.hexValue? a, Text.hexValue? b with
    | some x, some y => some (x * 16 + y, r)
    | _, _ => none
  | _ => none

def escapedTail : Nat → Nat → List Char → Option (Nat × List Char)
  | 0, code, cs => some (code, cs)
  | n + 1, code, cs =>
    match escapedByte? cs with
    | some (b, r) => if 0x80 ≤ b && b < 0xC0 then escapedTail n (code * 64 + (b - 0x80)) r else none
    | none => none

def escapedChar? (cs : List Char) : Option (Char × List Char) := do
  let (b, r) ← escapedByte? cs
  let (code, r) ←
    if b < 0x80 then some (b, r)
    else if 0xC0 ≤ b && b < 0xE0 then escapedTail 1 (b - 0xC0) r
    else if 0xE0 ≤ b && b < 0xF0 then escapedTail 2 (b - 0xE0) r
    else if 0xF0 ≤ b && b < 0xF8 then escapedTail 3 (b - 0xF0) r
    else none
  some (Char.ofNat code, r)

def readTagChars (verbatim : Bool) : Nat → Place → Except Fault (List Char × Place)
  | 0, p => .ok ([], p)
  | fuel + 1, p =>
    match p.rest with
    | [] => .ok ([], p)
    | c :: _ =>
      if c = '%' then
        match escapedChar? p.rest with
        | none => .error ⟨.badTag, p.mark⟩
        | some (x, r) => do
          let (more, p) ← readTagChars verbatim fuel (p.advance (p.rest.length - r.length))
          .ok (x :: more, p)
      else if isTagChar verbatim c then do
        let (more, p) ← readTagChars verbatim fuel p.skip
        .ok (c :: more, p)
      else .ok ([], p)

def readTagText (verbatim : Bool) (p : Place) : Except Fault (List Char × Place) := do
  let (text, q) ← readTagChars verbatim (p.rest.length + 1) p
  if text.isEmpty then .error ⟨.badTag, q.mark⟩ else .ok (text, q)

def readHandle (p : Place) : List Char × Place :=
  let (word, q) := p.skip.takeWhile isWordChar
  if q.ahead 0 (· = '!') then ('!' :: word ++ ['!'], q.skip) else ('!' :: word, q)

def isHandle (cs : List Char) : Bool := 2 ≤ cs.length && cs.getLast? = some '!'

/-- A tag as handle and suffix. A tag between angle brackets has no handle; neither has a lone
exclamation mark, which is its own suffix. -/
def readTagParts (p : Place) : Except Fault (List Char × List Char × Place) :=
  if p.ahead 1 (· = '<') then do
    let (suffix, q) ← readTagText true (p.advance 2)
    if q.ahead 0 (· = '>') then .ok ([], suffix, q.skip) else .error ⟨.badTag, q.mark⟩
  else
    let (handle, q) := readHandle p
    if isHandle handle then do
      let (suffix, q) ← readTagText false q
      .ok (handle, suffix, q)
    else do
      let (more, q) ← readTagChars false (q.rest.length + 1) q
      let suffix := handle.tail ++ more
      if suffix.isEmpty then .ok ([], ['!'], q) else .ok (['!'], suffix, q)

def readTag (flow : Bool) (p : Place) : Except Fault (List Char × List Char × Place) := do
  let (handle, suffix, q) ← readTagParts p
  if q.blankOrEnd 0 || (flow && q.ahead 0 (· = ',')) then .ok (handle, suffix, q)
  else .error ⟨.badTag, q.mark⟩

def readVersionNumber (p : Place) : Except Fault (Nat × Place) :=
  let (digits, q) := p.takeWhile Char.isDigit
  if digits.isEmpty || 9 < digits.length then .error ⟨.badDirective, q.mark⟩
  else .ok (digits.foldl (fun n c => n * 10 + (c.toNat - '0'.toNat)) 0, q)

def readVersion (p : Place) : Except Fault (Token × Place) := do
  let (major, p) ← readVersionNumber (p.skipWhile isBlank)
  if !p.ahead 0 (· = '.') then .error ⟨.badDirective, p.mark⟩
  else do
    let (minor, p) ← readVersionNumber p.skip
    .ok (.version major minor, p)

def readHandleMeaning (p : Place) : Except Fault (Token × Place) := do
  let p := p.skipWhile isBlank
  if !p.ahead 0 (· = '!') then .error ⟨.badDirective, p.mark⟩
  else do
    let (name, p) := readHandle p
    if (!isHandle name && name ≠ ['!']) || !p.ahead 0 isBlank then .error ⟨.badDirective, p.mark⟩
    else do
      let (meaning, p) ← readTagText true (p.skipWhile isBlank)
      if p.blankOrEnd 0 then .ok (.handle name meaning, p) else .error ⟨.badDirective, p.mark⟩

def readDirective (p : Place) : Except Fault (Token × Place) := do
  let (name, p) := p.skip.takeWhile isWordChar
  let (token, p) ←
    if !p.blankOrEnd 0 then .error ⟨.badDirective, p.mark⟩
    else if name = "YAML".toList then readVersion p
    else if name = "TAG".toList then readHandleMeaning p
    else .error ⟨.badDirective, p.mark⟩
  let p := (p.skipWhile isBlank).skipComment
  if p.lineEnds then .ok (token, p.takeBreak.2) else .error ⟨.badDirective, p.mark⟩

end ToolRoster.Yaml
