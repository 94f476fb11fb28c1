import ToolRoster.Yaml.Folded
/-!
# Plain scalars

A plain scalar ends where a colon or a number sign has a blank on its side, at an indicator of the
flow around it, or where a line is not indented enough to go on.
-/
namespace ToolRoster.Yaml

def isFlowIndicator (c : Char) : Bool :=
  c = ',' || c = '[' || c = ']' || c = '\x7b' || c = '\x7d'

def endsPlain (flow : Bool) (p : Place) : Bool :=
  (p.ahead 0 (· = ':') && p.blankOrEnd 1) || (flow && p.ahead 0 isFlowIndicator)

def tightColon (flow : Bool) (p : Place) : Bool :=
  flow && p.ahead 0 (· = ':') && p.ahead 1 fun c => isFlowIndicator c || c = '?'

def readWord (flow : Bool) : Nat → Place → Except Fault (List Char × Place)
  | 0, p => .ok ([], p)
  | fuel + 1, p =>
    match p.rest with
    | [] => .ok ([], p)
    | c :: _ =>
      if isBlank c || isBreak c then .ok ([], p)
      else if tightColon flow p then .error ⟨.badPlain, p.mark⟩
      else if endsPlain flow p then .ok ([], p)
      else do
        let (more, p) ← readWord flow fuel p.skip
        .ok (c :: more, p)

structure Plain where
  text : List Char
  place : Place
  broken : Bool

def readWords (flow : Bool) (indent : Nat) : Nat → Gap → Place → Except Fault Plain
  | 0, g, p => .ok ⟨[], p, g.broken⟩
  | fuel + 1, g, p =>
    if p.atDocumentEdge || p.ahead 0 (· = '#') then .ok ⟨[], p, g.broken⟩
    else do
      let (word, next) ← readWord flow (p.rest.length + 1) p
      let (lead, unused) := if word.isEmpty then ([], g) else (g.text ++ word, {})
      if !next.ahead 0 (fun c => isBlank c || isBreak c) then
        .ok ⟨lead, next, unused.broken⟩
      else do
        let (g, next) ← readGap indent (next.rest.length + 1) unused next
        if !flow && next.column < indent then .ok ⟨lead, next, g.broken⟩
        else do
          let more ← readWords flow indent fuel g next
          .ok { more with text := lead ++ more.text }

/-- A plain scalar. Further lines have to be indented this far, except inside a flow. -/
def readPlain (flow : Bool) (indent : Nat) (p : Place) : Except Fault Plain :=
  readWords flow indent (p.rest.length + 1) {} p

end ToolRoster.Yaml
