import ToolRoster.Toml.Value
/-!
# Documents of TOML

A document is read line by line. The keys of a line go to the table of the last header; a table is
put in its place when the next header or the end of the text comes.
-/
namespace ToolRoster.Toml

structure Header where
  key : Key
  isList : Bool

structure Builder where
  root : Entries := []
  current : Entries := []
  header : Option Header := none

namespace Builder

def settle (h : Header) (current es : Entries) : Except Cause Entries :=
  if h.isList then
    match es.lookup h.key.last with
    | none => .ok (es ++ [(h.key.last, .tables [current])])
    | some (.tables items) => .ok (es.set h.key.last (.tables (items ++ [current])))
    | some _ => .error (.conflict h.key.last)
  else es.add h.key.last (.table .header current)

def close (b : Builder) : Except Cause Entries :=
  match b.header with
  | none => .ok b.current
  | some h => Entries.within (settle h b.current) h.key.path b.root

def found (h : Header) (es : Entries) : Except Cause Entries :=
  if h.isList then .ok []
  else
    match es.lookup h.key.last with
    | none => .ok []
    | some (.table .passed inner) => .ok inner
    | some _ => .error (.conflict h.key.last)

def lookAt : List String → Entries → Entries
  | [], es => es
  | key :: path, es =>
    match es.lookup key with
    | some (.table _ inner) => lookAt path inner
    | some (.tables items) => lookAt path (items.getLastD [])
    | _ => []

def start (b : Builder) (h : Header) : Except Cause Builder := do
  let root ← b.close
  let current ← found h (lookAt h.key.path root)
  let keep (es : Entries) : Except Cause Entries :=
    .ok (if h.isList then es else es.erase h.key.last)
  .ok ⟨← Entries.within keep h.key.path root, current, some h⟩

end Builder

def endLine (cs : List Char) : Except Fault (List Char) :=
  match endLine? cs with
  | some r => .ok r
  | none => .error (.here .malformed (skipBlank cs))

def readHeader (isList : Bool) : Read Header := fun cs => do
  let (key, r) ← readKey cs
  match isList, r with
  | false, ']' :: r => .ok (⟨key, false⟩, r)
  | true, ']' :: ']' :: r => .ok (⟨key, true⟩, r)
  | _, r => .error (.here .malformed r)

def startHeader (b : Builder) (isList : Bool) (cs : List Char) :
    Except Fault (Builder × List Char) := do
  let (h, r) ← readHeader isList cs
  let b ← (b.start h).mapError fun cause => .here cause cs
  .ok (b, ← endLine r)

def readLine (b : Builder) (cs : List Char) : Except Fault (Builder × List Char) :=
  match cs with
  | '[' :: '[' :: r => startHeader b true r
  | '[' :: r => startHeader b false r
  | _ => do
    let ((k, n), r) ← readMember (readValue (depthLimit - 1)) cs
    let current ← addMember b.current k n cs
    .ok ({ b with current }, ← endLine r)

def readLines : Nat → Builder → List Char → Except Fault Builder
  | 0, _, cs => .error (.here .malformed cs)
  | fuel + 1, b, cs =>
    match skipBlank cs with
    | [] => .ok b
    | c :: r =>
      if c = '#' || c = '\n' || c = '\r' then do readLines fuel b (← endLine (c :: r))
      else do
        let (b, r) ← readLine b (c :: r)
        readLines fuel b r

def skipMark : List Char → List Char
  | '\uFEFF' :: r => r
  | r => r

def readDocument (text : List Char) : Except Fault Entries := do
  let cs := skipMark text
  let b ← readLines (cs.length + 1) {} cs
  b.close.mapError fun cause => ⟨cause, 0⟩

end ToolRoster.Toml
