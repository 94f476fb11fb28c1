import ToolRoster.Yaml.Event
import ToolRoster.Yaml.Lexing
/-!
# The first document of a text

A text should hold one document. Its events may end early at a fault, which counts only when a
reader gets that far; so does whatever stands after the document.
-/
namespace ToolRoster.Yaml

/-- An event whose alias, if it is one, is known by the number of its anchor. -/
inductive Piece where
  | nothing
  | alias (number : Nat)
  | scalar (tag : Option (List Char)) (style : Style) (text : List Char)
  | list (tag : Option (List Char))
  | listEnd
  | map (tag : Option (List Char))
  | mapEnd
deriving DecidableEq, Repr

structure Spot where
  piece : Piece
  mark : Mark
deriving DecidableEq, Repr

/-- The anchors so far. A new one gets as its number how many names there are. -/
structure Anchors where
  numbers : List (List Char × Nat) := []
  positions : List (Nat × Nat) := []

namespace Anchors

def add (a : Anchors) (name : List Char) (position : Nat) : Anchors :=
  let number := a.numbers.length
  ⟨(name, number) :: a.numbers.filter fun p => p.1 ≠ name, (number, position) :: a.positions⟩

def addAny (a : Anchors) (p : Properties) (position : Nat) : Anchors :=
  match p.anchor with
  | some name => a.add name position
  | none => a

end Anchors

structure Document where
  spots : List Spot := []
  positions : List (Nat × Nat) := []
  fault : Option Fault := none

namespace Document

def ofEvents (fault : Option Fault) : Nat → Anchors → List Marked → Document
  | _, a, [] => ⟨[], a.positions, fault⟩
  | position, a, ⟨e, m⟩ :: es =>
    let go (piece : Piece) (a : Anchors) : Document :=
      let d := ofEvents fault (position + 1) a es
      { d with spots := ⟨piece, m⟩ :: d.spots }
    match e with
    | .alias name =>
      match a.numbers.lookup name with
      | some number => go (.alias number) a
      | none => ⟨[], a.positions, some ⟨.unknownAlias, m⟩⟩
    | .scalar p style text => go (.scalar p.tag style text) (a.addAny p position)
    | .sequence p => go (.list p.tag) (a.addAny p position)
    | .mapping p => go (.map p.tag) (a.addAny p position)
    | .sequenceEnd => go .listEnd a
    | .mappingEnd => go .mapEnd a

structure Directives where
  versioned : Bool := false
  handles : List (List Char × List Char) := []

def usualHandles : List (List Char × List Char) :=
  [(['!'], ['!']), (['!', '!'], "tag:yaml.org,2002:".toList)]

def readDirectives (d : Directives) : List Placed → Except Fault (Directives × List Placed)
  | ⟨.version major minor, m, _⟩ :: r =>
    if d.versioned || major ≠ 1 || (minor ≠ 1 && minor ≠ 2) then .error ⟨.badDirective, m⟩
    else readDirectives { d with versioned := true } r
  | ⟨.handle name meaning, m, _⟩ :: r =>
    if (d.handles.lookup name).isSome then .error ⟨.badDirective, m⟩
    else readDirectives { d with handles := d.handles ++ [(name, meaning)] } r
  | r => .ok (d, r)

def isOutside : Token → Bool
  | .version _ _ | .handle _ _ | .documentStart | .documentEnd | .streamEnd => true
  | _ => false

def goalLimit (ts : List Placed) : Nat := 16 * (ts.length + 1)

def walkNode (cut : Fault) (d : Directives) (ts : List Placed) : Walk :=
  let c : Context := ⟨d.handles ++ usualHandles, cut⟩
  c.walk (goalLimit ts) [.blockNode false] ts

def walkMarked (cut : Fault) (ts : List Placed) : Walk :=
  match readDirectives {} ts with
  | .error e => ⟨[], .error e⟩
  | .ok (_, []) => ⟨[], .error cut⟩
  | .ok (d, t :: r) =>
    if t.token ≠ .documentStart then ⟨[], .error ⟨.unexpectedToken, t.start⟩⟩
    else
      match r with
      | [] => ⟨[], .error cut⟩
      | u :: _ => if isOutside u.token then ⟨[emptyScalar u.start], .ok r⟩ else walkNode cut d r

def faultAfter (cut : Fault) (ts : List Placed) : Option Fault :=
  match ts.dropWhile fun t => t.token = .documentEnd with
  | [] => some cut
  | t :: _ => if t.token = .streamEnd then none else some ⟨.secondDocument, t.start⟩

def ofWalk (cut : Fault) (w : Walk) : Document :=
  match w.ending with
  | .error e => ofEvents (some e) 0 {} w.events
  | .ok rest => ofEvents (faultAfter cut rest) 0 {} w.events

def ofTokens (ts : Tokens) : Document :=
  let cut := ts.fault.getD ⟨.unexpectedToken, ⟨0, 0⟩⟩
  match ts.placed with
  | _ :: t :: r =>
    match t.token with
    | .streamEnd => { spots := [⟨.nothing, t.start⟩] }
    | .version _ _ | .handle _ _ | .documentStart => ofWalk cut (walkMarked cut (t :: r))
    | _ => ofWalk cut (walkNode cut {} (t :: r))
  | _ => { fault := some cut }

def ofText (text : List Char) : Document := ofTokens (.ofText text)

end Document
end ToolRoster.Yaml
