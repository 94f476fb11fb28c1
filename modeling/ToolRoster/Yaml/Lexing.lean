import ToolRoster.Yaml.Plain
import ToolRoster.Yaml.Quoted
import ToolRoster.Yaml.Block
import ToolRoster.Yaml.Property
/-!
# From text to tokens

A key may be known as such only when the colon after it comes, on the same line and within 1024
characters. Until then its place among the tokens is remembered, and no token from there on is
final: if the text turns out to be at fault, only the tokens before it count.
-/
namespace ToolRoster.Yaml

structure PossibleKey where
  required : Bool
  number : Nat
  index : Nat
  mark : Mark

def keyLimit : Nat := 1024

def PossibleKey.isStale (k : PossibleKey) (p : Place) : Bool :=
  k.mark.line < p.mark.line || k.index + keyLimit < p.index

structure Lexing where
  place : Place
  tokens : List Placed := []
  count : Nat := 0
  flow : Nat := 0
  margin : Nat := 0
  outer : List Nat := []
  keys : List (Option PossibleKey) := [none]
  keyAllowed : Bool := true
  finished : Bool := false

namespace Lexing

def column (l : Lexing) : Nat := l.place.column

def inFlow (l : Lexing) : Bool := l.flow ≠ 0

def emit (l : Lexing) (t : Token) (start stop : Mark) : Lexing :=
  { l with tokens := ⟨t, start, stop⟩ :: l.tokens, count := l.count + 1 }

def insertAt (l : Lexing) (number : Nat) (t : Token) (mark : Mark) : Lexing :=
  let newer := l.count - number
  { l with
    tokens := l.tokens.take newer ++ ⟨t, mark, mark⟩ :: l.tokens.drop newer
    count := l.count + 1 }

def indicator (l : Lexing) (t : Token) (length : Nat) : Lexing :=
  let next := l.place.advance length
  { l.emit t l.place.mark next.mark with place := next }

def unrollOuter (limit : Nat) : List Nat → Lexing → Lexing
  | [], l => l
  | m :: ms, l =>
    if limit < l.margin then
      unrollOuter limit ms
        { l.emit .blockEnd l.place.mark l.place.mark with margin := m, outer := ms }
    else l

def unroll (l : Lexing) (limit : Nat) : Lexing :=
  if l.inFlow then l else unrollOuter limit l.outer l

/-- Opens a block at a column that is further in than the innermost one; its token goes to the end,
or before the token of a number. -/
def roll (l : Lexing) (column : Nat) (number : Option Nat) (t : Token) (mark : Mark) : Lexing :=
  if l.inFlow || column < l.margin then l
  else
    let l' :=
      match number with
      | some n => l.insertAt n t mark
      | none => l.emit t mark mark
    { l' with margin := column + 1, outer := l.margin :: l.outer }

def key? (l : Lexing) : Option PossibleKey := l.keys.head?.join

def setKey (l : Lexing) (k : Option PossibleKey) : Lexing := { l with keys := k :: l.keys.tail }

def dropKey (l : Lexing) : Except Fault Lexing :=
  match l.key? with
  | some k => if k.required then .error ⟨.unfinishedKey, k.mark⟩ else .ok (l.setKey none)
  | none => .ok l

def saveKey (l : Lexing) : Except Fault Lexing :=
  if l.keyAllowed then do
    let required := !l.inFlow && l.margin = l.column + 1
    let l ← l.dropKey
    .ok (l.setKey (some ⟨required, l.count, l.place.index, l.place.mark⟩))
  else .ok l

def dropStale (l : Lexing) : Except Fault Lexing := do
  let fresh (k : Option PossibleKey) : Except Fault (Option PossibleKey) :=
    match k with
    | none => .ok none
    | some k =>
      if !k.isStale l.place then .ok (some k)
      else if k.required then .error ⟨.unfinishedKey, k.mark⟩
      else .ok none
  -- the outermost collection was opened first and is looked at first
  let keys ← l.keys.reverse.mapM fresh
  .ok { l with keys := keys.reverse }

/-- How many tokens are final: those before the first possible key. -/
def settled (l : Lexing) : Nat :=
  l.keys.foldl
    (fun n k =>
      match k with
      | some k => min n k.number
      | none => n)
    l.count

def skipBlanks : Nat → Lexing → Lexing
  | 0, l => l
  | fuel + 1, l =>
    let blank (c : Char) : Bool := c = ' ' || (c = '\t' && (l.inFlow || !l.keyAllowed))
    let p := (l.place.skipWhile blank).skipComment
    if p.ahead 0 isBreak then
      skipBlanks fuel { l with place := p.takeBreak.2, keyAllowed := l.keyAllowed || !l.inFlow }
    else { l with place := p }

def skipOrderMark (l : Lexing) : Lexing :=
  if l.place.index = 0 && l.place.ahead 0 (· = '\uFEFF') then { l with place := l.place.skip }
  else l

def fetchEnd (l : Lexing) : Except Fault Lexing := do
  let m := l.place.mark
  let m := if m.column = 0 then m else ⟨m.line + 1, 0⟩
  let l ← (({ l with place := { l.place with mark := m } } : Lexing).unroll 0).dropKey
  .ok { l.emit .streamEnd m m with keyAllowed := false, finished := true }

def fetchDirective (l : Lexing) : Except Fault Lexing := do
  let l ← (l.unroll 0).dropKey
  let (t, next) ← readDirective l.place
  .ok { l.emit t l.place.mark next.mark with place := next, keyAllowed := false }

def fetchDocumentEdge (l : Lexing) (t : Token) : Except Fault Lexing := do
  let l ← (l.unroll 0).dropKey
  .ok { l.indicator t 3 with keyAllowed := false }

def fetchFlowStart (l : Lexing) (t : Token) : Except Fault Lexing := do
  let l ← l.saveKey
  .ok { l.indicator t 1 with keys := none :: l.keys, flow := l.flow + 1, keyAllowed := true }

def fetchFlowEnd (l : Lexing) (t : Token) : Except Fault Lexing := do
  let l ← l.dropKey
  let keys := if l.inFlow then l.keys.tail else l.keys
  .ok { l.indicator t 1 with keys, flow := l.flow - 1, keyAllowed := false }

def fetchFlowEntry (l : Lexing) : Except Fault Lexing := do
  let l ← l.dropKey
  .ok { l.indicator .flowEntry 1 with keyAllowed := true }

def fetchBlockEntry (l : Lexing) : Except Fault Lexing :=
  if !l.inFlow && !l.keyAllowed then .error ⟨.misplacedEntry, l.place.mark⟩
  else do
    let l ← (l.roll l.column none .blockSequence l.place.mark).dropKey
    .ok { l.indicator .blockEntry 1 with keyAllowed := true }

def fetchKey (l : Lexing) : Except Fault Lexing :=
  if !l.inFlow && !l.keyAllowed then .error ⟨.misplacedKey, l.place.mark⟩
  else do
    let l ← (l.roll l.column none .blockMapping l.place.mark).dropKey
    .ok { l.indicator .key 1 with keyAllowed := !l.inFlow }

def fetchValue (l : Lexing) : Except Fault Lexing :=
  match l.key? with
  | some k =>
    let l := l.insertAt k.number .key k.mark
    let l := (l.roll k.mark.column (some k.number) .blockMapping k.mark).setKey none
    .ok { l.indicator .value 1 with keyAllowed := false }
  | none =>
    if !l.inFlow && !l.keyAllowed then .error ⟨.misplacedValue, l.place.mark⟩
    else
      let l := l.roll l.column none .blockMapping l.place.mark
      .ok { l.indicator .value 1 with keyAllowed := !l.inFlow }

def reading (l : Lexing) (t : Token) (next : Place) (keyAllowed : Bool) : Lexing :=
  { l.emit t l.place.mark next.mark with place := next, keyAllowed }

def fetchAnchor (l : Lexing) (token : List Char → Token) : Except Fault Lexing := do
  let l ← l.saveKey
  let (name, next) ← readAnchor l.place
  .ok (l.reading (token name) next false)

def fetchTag (l : Lexing) : Except Fault Lexing := do
  let l ← l.saveKey
  let (handle, suffix, next) ← readTag l.inFlow l.place
  .ok (l.reading (.tag handle suffix) next false)

def fetchBlock (l : Lexing) (style : Style) : Except Fault Lexing := do
  let l ← l.dropKey
  let (text, next) ← readBlock (style = .literal) l.margin l.place
  .ok (l.reading (.scalar style text) next true)

def fetchQuoted (l : Lexing) (style : Style) : Except Fault Lexing := do
  let l ← l.saveKey
  let (text, next) ← readQuoted (style = .single) l.place
  .ok (l.reading (.scalar style text) next false)

def fetchPlain (l : Lexing) : Except Fault Lexing := do
  let l ← l.saveKey
  let s ← readPlain l.inFlow l.margin l.place
  .ok (l.reading (.scalar .plain s.text) s.place s.broken)

def isIndicator (c : Char) : Bool :=
  "-?:,[]\x7b\x7d#&*!|>\x27\"%@\x60".toList.contains c

def startsPlain (l : Lexing) : Bool :=
  let p := l.place
  p.ahead 0 (fun c => !isIndicator c && !isBlank c && !isBreak c) ||
    (p.ahead 0 (· = '-') && !p.ahead 1 isBlank) ||
    (!l.inFlow && p.ahead 0 (fun c => c = '?' || c = ':') && !p.blankOrEnd 1)

def fetchToken (l : Lexing) : Except Fault Lexing :=
  let p := l.place
  let alone : Bool := l.inFlow || p.blankOrEnd 1
  match p.rest with
  | [] => l.fetchEnd
  | c :: _ =>
    if p.column = 0 && c = '%' then l.fetchDirective
    else if p.startsWithThree '-' then l.fetchDocumentEdge .documentStart
    else if p.startsWithThree '.' then l.fetchDocumentEdge .documentEnd
    else if c = '[' then l.fetchFlowStart .flowSequence
    else if c = '\x7b' then l.fetchFlowStart .flowMapping
    else if c = ']' then l.fetchFlowEnd .flowSequenceEnd
    else if c = '\x7d' then l.fetchFlowEnd .flowMappingEnd
    else if c = ',' then l.fetchFlowEntry
    else if c = '-' && p.blankOrEnd 1 then l.fetchBlockEntry
    else if c = '?' && alone then l.fetchKey
    else if c = ':' && alone then l.fetchValue
    else if c = '*' then l.fetchAnchor .alias
    else if c = '&' then l.fetchAnchor .anchor
    else if c = '!' then l.fetchTag
    else if c = '|' && !l.inFlow then l.fetchBlock .literal
    else if c = '>' && !l.inFlow then l.fetchBlock .folded
    else if c = '\x27' then l.fetchQuoted .single
    else if c = '"' then l.fetchQuoted .double
    else if l.startsPlain then l.fetchPlain
    else .error ⟨.unexpectedCharacter, p.mark⟩

def fetch (l : Lexing) : Except Fault Lexing := do
  let l ← (skipBlanks (l.place.rest.length + 1) l.skipOrderMark).dropStale
  (l.unroll (l.column + 1)).fetchToken

end Lexing

structure Tokens where
  placed : List Placed
  fault : Option Fault

namespace Tokens

def read : Nat → Nat → Lexing → Tokens
  | 0, settled, l => ⟨l.tokens.reverse.take settled, none⟩
  | fuel + 1, settled, l =>
    match l.dropStale with
    | .error e => ⟨l.tokens.reverse.take settled, some e⟩
    | .ok l =>
      if l.finished then ⟨l.tokens.reverse, none⟩
      else
        match l.fetch with
        | .error e => ⟨l.tokens.reverse.take l.settled, some e⟩
        | .ok next => read fuel l.settled next

def forbidden? : Place → List Char → Option Fault
  | _, [] => none
  | p, c :: cs => if isAllowed c then forbidden? p.skip cs else some ⟨.forbiddenCharacter, p.mark⟩

def ofText (text : List Char) : Tokens :=
  match forbidden? ⟨text, 0, ⟨0, 0⟩⟩ text with
  | some fault => ⟨[], some fault⟩
  | none =>
    let start : Mark := ⟨0, 0⟩
    let l : Lexing := { place := ⟨text, 0, start⟩ }
    read (text.length + 2) 1 (l.emit .streamStart start start)

end Tokens
end ToolRoster.Yaml
