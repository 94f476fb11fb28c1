import ToolRoster.Yaml.Place
/-!
# Block scalars

The header of a block scalar says how far its lines are indented and what becomes of the line ends
after it. Lines are kept as they stand, or folded where two lines without blanks at the start meet.
-/
namespace ToolRoster.Yaml

inductive Chomp where
  | strip
  | clip
  | keep
deriving DecidableEq, Repr

def chompOf? (c : Char) : Option Chomp :=
  if c = '+' then some .keep else if c = '-' then some .strip else none

structure BlockHeader where
  chomp : Chomp := .clip
  increment : Option Nat := none

def readBlockHeader (p : Place) : Except Fault (BlockHeader × Place) :=
  let digit (chomp : Chomp) (d : Nat) (p : Place) : Except Fault (BlockHeader × Place) :=
    if d = 0 then .error ⟨.badBlock, p.mark⟩ else .ok (⟨chomp, some d⟩, p.skip)
  let first := p.rest.head?
  match first.bind chompOf?, first.bind (Text.digitIn? 10) with
  | some chomp, _ =>
    match p.skip.rest.head?.bind (Text.digitIn? 10) with
    | some d => digit chomp d p.skip
    | none => .ok (⟨chomp, none⟩, p.skip)
  | none, some d => do
    let (h, q) ← digit .clip d p
    match q.rest.head?.bind chompOf? with
    | some chomp => .ok ({ h with chomp }, q.skip)
    | none => .ok (h, q)
  | none, none => .ok ({}, p)

/-- What stands before the next line that is not empty: line ends, and the deepest indentation. -/
structure Breaks where
  text : List Char
  deepest : Nat
  place : Place

def readBreaks (indent : Option Nat) : Nat → Breaks → Except Fault Breaks
  | 0, b => .ok b
  | fuel + 1, b =>
    let room :=
      match indent with
      | some n => n - b.place.column
      | none => b.place.rest.length
    let p := b.place.advance ((b.place.rest.take room).takeWhile (· = ' ')).length
    let b := { b with place := p, deepest := max b.deepest p.column }
    let within :=
      match indent with
      | some n => decide (p.column < n)
      | none => true
    if within && p.ahead 0 (· = '\t') then .error ⟨.badBlock, p.mark⟩
    else if p.ahead 0 isBreak then
      let (text, next) := p.takeBreak
      readBreaks indent fuel { b with text := b.text ++ text, place := next }
    else .ok b

structure Lines where
  leading : List Char := []
  trailing : List Char := []
  blank : Bool := false
  place : Place

def Lines.joint (l : Lines) (literal nextBlank : Bool) : List Char :=
  if !literal && l.leading = ['\n'] && !l.blank && !nextBlank then
    if l.trailing.isEmpty then [' '] else l.trailing
  else l.leading ++ l.trailing

def readLines (literal : Bool) (indent : Nat) : Nat → Lines → Except Fault (List Char × Lines)
  | 0, l => .ok ([], l)
  | fuel + 1, l =>
    if l.place.column ≠ indent || l.place.atEnd then .ok ([], l)
    else do
      let blank := l.place.ahead 0 isBlank
      let (line, p) := l.place.takeWhile fun c => !isBreak c
      let (leading, p) := p.takeBreak
      let b ← readBreaks (some indent) (p.rest.length + 1) ⟨[], 0, p⟩
      let (more, last) ← readLines literal indent fuel ⟨leading, b.text, blank, b.place⟩
      .ok (l.joint literal blank ++ line ++ more, last)

/-- A block scalar from its indicator on. The indentation of what is around it is one less than
`outer`. -/
def readBlock (literal : Bool) (outer : Nat) (p : Place) : Except Fault (List Char × Place) := do
  let (header, p) ← readBlockHeader p.skip
  let p := (p.skipWhile isBlank).skipComment
  if !p.lineEnds then .error ⟨.badBlock, p.mark⟩
  else do
    let p := p.takeBreak.2
    let given := header.increment.map fun n => (outer - 1) + n
    let b ← readBreaks given (p.rest.length + 1) ⟨[], 0, p⟩
    let indent := given.getD (max b.deepest (max outer 1))
    let (text, last) ←
      readLines literal indent (b.place.rest.length + 1) ⟨[], b.text, false, b.place⟩
    let tail :=
      match header.chomp with
      | .strip => []
      | .clip => last.leading
      | .keep => last.leading ++ last.trailing
    .ok (text ++ tail, last.place)

end ToolRoster.Yaml
