import ToolRoster.Yaml.Folded
/-!
# Quoted scalars

Between apostrophes an apostrophe is written twice; between quotation marks there are escapes, and a
backslash at the end of a line joins it to the next one.
-/
namespace ToolRoster.Yaml

def escapeLetter? (c : Char) : Option Char :=
  if c = '0' then some '\x00'
  else if c = 'a' then some '\x07'
  else if c = 'b' then some '\x08'
  else if c = 't' || c = '\t' then some '\t'
  else if c = 'n' then some '\n'
  else if c = 'v' then some '\x0b'
  else if c = 'f' then some '\x0c'
  else if c = 'r' then some '\r'
  else if c = 'e' then some '\x1b'
  else if c = ' ' || c = '"' || c = '/' || c = '\\' then some c
  else if c = 'N' then some '\x85'
  else if c = '_' then some '\xa0'
  else if c = 'L' then some '\u2028'
  else if c = 'P' then some '\u2029'
  else none

def escapeDigits? (c : Char) : Option Nat :=
  if c = 'x' then some 2 else if c = 'u' then some 4 else if c = 'U' then some 8 else none

def readEscape (p : Place) : Except Fault (Char × Place) :=
  let bad : Fault := ⟨.badQuote, p.mark⟩
  match p.rest with
  | _ :: c :: r =>
    match escapeLetter? c, escapeDigits? c with
    | some x, _ => .ok (x, p.advance 2)
    | none, some n =>
      let digits := r.take n
      match hexNumber? digits with
      | some code =>
        match Text.charOf? code with
        | some x => if digits.length = n then .ok (x, p.advance (2 + n)) else .error bad
        | none => .error bad
      | none => .error bad
    | none, none => .error bad
  | _ => .error bad

structure Run where
  text : List Char
  joined : Bool
  place : Place

def readRun (single : Bool) : Nat → Place → Except Fault Run
  | 0, p => .ok ⟨[], false, p⟩
  | fuel + 1, p =>
    let go (c : Char) (p : Place) : Except Fault Run := do
      let run ← readRun single fuel p
      .ok { run with text := c :: run.text }
    match p.rest with
    | [] => .ok ⟨[], false, p⟩
    | c :: _ =>
      if isBlank c || isBreak c then .ok ⟨[], false, p⟩
      else if single && c = '\x27' then
        if p.ahead 1 (· = '\x27') then go c (p.advance 2) else .ok ⟨[], false, p⟩
      else if !single && c = '"' then .ok ⟨[], false, p⟩
      else if !single && c = '\\' then
        if p.ahead 1 isBreak then .ok ⟨[], true, p.skip.takeBreak.2⟩
        else do
          let (x, p) ← readEscape p
          go x p
      else go c p.skip

def readQuotedText (single : Bool) : Nat → Place → Except Fault (List Char × Place)
  | 0, p => .error ⟨.badQuote, p.mark⟩
  | fuel + 1, p =>
    if p.atDocumentEdge || p.atEnd then .error ⟨.badQuote, p.mark⟩
    else do
      let run ← readRun single (p.rest.length + 1) p
      let p := run.place
      if p.ahead 0 (· = if single then '\x27' else '"') then .ok (run.text, p.skip)
      else do
        let (g, p) ← readGap 0 (p.rest.length + 1) { broken := run.joined } p
        let (more, p) ← readQuotedText single fuel p
        .ok (run.text ++ g.text ++ more, p)

def readQuoted (single : Bool) (p : Place) : Except Fault (List Char × Place) :=
  readQuotedText single (p.rest.length + 1) p.skip

end ToolRoster.Yaml
