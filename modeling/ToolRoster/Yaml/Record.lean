import ToolRoster.Yaml.Document
import ToolRoster.Yaml.Scalar
import ToolRoster.Decode.Draft
/-!
# Records and registry files in YAML

A document is read piece by piece, and stops at the first problem. An alias is read where its anchor
stands. A problem is placed at the innermost node that places problems: every node does, except that
a word or a null that fits no field is left to the record around it.
-/
namespace ToolRoster.Yaml
open Decode (Draft Expected Field Found Problem Setting)

inductive Part where
  | key (text : String)
  | item (index : Nat)
  | unknown
deriving DecidableEq, Repr

/-- The steps to a node, the last one first. -/
abbrev Path := List Part

def Path.text : Path → String
  | [] => "."
  | .item i :: p => Path.text p ++ "[" ++ toString i ++ "]"
  | [.key k] => k
  | .key k :: p => Path.text p ++ "." ++ k
  | [.unknown] => "?"
  | .unknown :: p => Path.text p ++ ".?"

structure Site where
  path : Path
  mark : Mark

inductive Refused where
  | fault (f : Fault)
  | problem (p : Problem) (site : Option Site)

def Refused.message : Refused → String
  | fault f => f.message
  | problem p none => p.message .inPlace
  | problem p (some ⟨path, m⟩) =>
    (if path.isEmpty then "" else Path.text path ++ ": ") ++ p.message .inPlace ++ m.suffix

def Refused.at (s : Site) : Refused → Refused
  | problem p none => problem p s
  | e => e

structure Cursor where
  rest : List Spot
  jumps : Nat := 0

abbrev Read (α : Type) := Cursor → Except Refused (α × Cursor)

namespace Document

def cut (d : Document) : Fault := d.fault.getD ⟨.unexpectedToken, ⟨0, 0⟩⟩

def next (d : Document) : Read Spot := fun c =>
  match c.rest with
  | [] => .error (.fault d.cut)
  | s :: r => .ok (s, { c with rest := r })

def jumpLimit (d : Document) : Nat := d.spots.length * 100

def jump {α : Type} (d : Document) (number : Nat) (read : Read α) : Read α := fun c =>
  match d.positions.lookup number with
  | none => .error (.fault d.cut)
  | some position =>
    if d.jumpLimit < c.jumps + 1 then .error (.fault ⟨.tooManyAliases, ⟨0, 0⟩⟩)
    else do
      let (a, c') ← read ⟨d.spots.drop position, c.jumps + 1⟩
      .ok (a, { c with jumps := c'.jumps })

def node {α : Type} (d : Document) (read : Spot → Read α) : Read α := fun c => do
  let (s, c) ← d.next c
  match s.piece with
  | .alias number => d.jump number (fun c => do let (s, c) ← d.next c; read s c) c
  | _ => read s c

def wrong {α : Type} (d : Document) (path : Path) (s : Spot) (expected : Expected) :
    Except Refused α :=
  let problem (p : Problem) : Except Refused α := .error (.problem p (some ⟨path, s.mark⟩))
  match s.piece with
  | .scalar tag style text => problem (mismatch tag style text expected)
  | .list _ => problem (.type .list expected)
  | .map _ => problem (.type .map expected)
  | _ => .error (.fault d.cut)

def isBare : Piece → Bool
  | .nothing => true
  | .scalar _ style text => style = .plain && text.isEmpty
  | _ => false

def readString (d : Document) (path : Path) (expected : Expected) : Read String :=
  d.node fun s c =>
    match s.piece with
    | .scalar _ _ text => .ok (.ofList text, c)
    | _ => d.wrong path s expected

def canBeBool (tag : Option (List Char)) (style : Style) : Bool :=
  style = .plain || (style = .literal && tag = some (tagOf "bool"))

def readBool (d : Document) (path : Path) : Read Bool :=
  d.node fun s c =>
    match s.piece with
    | .scalar tag style text =>
      match if canBeBool tag style then bool? text else none with
      | some b => .ok (b, c)
      | none => d.wrong path s .bool
    | _ => d.wrong path s .bool

def isAbsent (tag : Option (List Char)) (text : List Char) : Except Refused Bool :=
  match tag with
  | none => .ok (text.isEmpty || isNull text)
  | some t =>
    if t ≠ tagOf "null" then .ok text.isEmpty
    else if isNull text then .ok true
    else .error (.problem (.value (.text (.ofList text)) .null) none)

def readOptional (d : Document) (path : Path) : Read (Option String) :=
  d.node fun s c =>
    let present : Except Refused (Option String × Cursor) := do
      let (text, c) ← d.readString path .text { c with rest := s :: c.rest }
      .ok (some text, c)
    match s.piece with
    | .nothing => .ok (none, c)
    | .scalar tag .plain text => do
      if ← isAbsent tag text then .ok (none, c) else present
    | _ => present

def variantOf? (tag : Option (List Char)) : Option (List Char) :=
  match tag with
  | some ('!' :: word) => some (if word.isEmpty then ['!'] else word)
  | _ => none

def readNothing (d : Document) (path : Path) : Read Unit := fun c => do
  let (s, c) ← d.next c
  match s.piece with
  | .scalar _ style text =>
    if style = .plain && (text.isEmpty || isNull text) then .ok ((), c)
    else .error (.problem (.value (.text (.ofList text)) .null) (some ⟨path, s.mark⟩))
  | _ => d.wrong path s .nothing

def readCapability (d : Document) (path : Path) : Read Capability :=
  d.node fun s c =>
    let site : Site := ⟨path, s.mark⟩
    let tagged (word : List Char) : Except Refused (Capability × Cursor) := do
      let capability ←
        (Decode.capability (.ofList word)).mapError fun p => Refused.problem p none
      let (_, c) ← d.readNothing path { c with rest := s :: c.rest }
      .ok (capability, c)
    let collection (tag : Option (List Char)) (found : Found) :
        Except Refused (Capability × Cursor) :=
      match variantOf? tag with
      | some word => tagged word
      | none => .error (.problem (.type found .localTag) site)
    match s.piece with
    | .scalar tag _ text =>
      match variantOf? tag with
      | some word => tagged word
      | none => do
        let capability ←
          (Decode.capability (.ofList text)).mapError fun p => Refused.problem p (some site)
        .ok (capability, c)
    | .list tag => collection tag .list
    | .map tag => collection tag .map
    | _ => .error (.fault d.cut)

def skipNodes (d : Document) : Nat → List Spot → Except Refused (List Spot)
  | _, [] => .error (.fault d.cut)
  | depth, s :: r =>
    let after (depth : Nat) : Except Refused (List Spot) :=
      if depth = 0 then .ok r else skipNodes d depth r
    match s.piece with
    | .list _ | .map _ => skipNodes d (depth + 1) r
    | .listEnd | .mapEnd => after (depth - 1)
    | _ => after depth

def skipNode (d : Document) : Read Unit := fun c => do
  .ok ((), { c with rest := ← d.skipNodes 0 c.rest })

def readItems {α : Type} (d : Document) (path : Path) (item : Path → Read α) :
    Nat → Nat → Read (List α)
  | 0, _, _ => .error (.fault d.cut)
  | fuel + 1, index, c => do
    let (s, r) ← d.next c
    match s.piece with
    | .listEnd => .ok ([], r)
    | _ => do
      let (x, c) ← item (.item index :: path) c
      let (xs, c) ← readItems d path item fuel (index + 1) c
      .ok (x :: xs, c)

def readList {α : Type} (d : Document) (path : Path) (item : Path → Read α) : Read (List α) :=
  d.node fun s c =>
    match s.piece with
    | .list _ => d.readItems path item (c.rest.length + 1) 0 c
    | p => if isBare p then .ok ([], c) else d.wrong path s .list

def readField (d : Document) (path : Path) (f : Field) : Read Setting := fun c =>
  match f with
  | .name => do
    let (s, c) ← d.readString path .text c
    .ok (.name s, c)
  | .available => do
    let (b, c) ← d.readBool path c
    .ok (.available b, c)
  | .capability => do
    let (x, c) ← d.readCapability path c
    .ok (.capability x, c)
  | .fallback => do
    let (o, c) ← d.readOptional path c
    .ok (.fallback o, c)
  | .useCases => do
    let (us, c) ← d.readList path (fun path => d.readString path .text) c
    .ok (.useCases us, c)

def readKey (d : Document) (path : Path) : Read (String × Part) := fun c => do
  let (s, _) ← d.next c
  let (key, c) ← d.readString path .field c
  match s.piece with
  | .scalar _ _ _ => .ok ((key, .key key), c)
  | _ => .ok ((key, .unknown), c)

def readEntries {α : Type} (d : Document) (path : Path)
    (entry : α → String → Path → Read α) : Nat → α → Read α
  | 0, _, _ => .error (.fault d.cut)
  | fuel + 1, a, c => do
    let (s, r) ← d.next c
    match s.piece with
    | .mapEnd => .ok (a, r)
    | _ => do
      let ((key, part), c) ← d.readKey path c
      let (a, c) ← entry a key (part :: path) c
      readEntries d path entry fuel a c

def readMapping {α β : Type} (d : Document) (path : Path) (expected : Expected)
    (entry : α → String → Path → Read α) (start : α) (finish : α → Except Problem β) : Read β :=
  d.node fun s c =>
    let result : Except Refused (β × Cursor) := do
      let (a, c) ←
        match s.piece with
        | .map _ => d.readEntries path entry (c.rest.length + 1) start c
        | p => if isBare p then .ok (start, c) else d.wrong path s expected
      .ok (← (finish a).mapError fun p => Refused.problem p none, c)
    result.mapError fun e => e.at ⟨path, s.mark⟩

def duplicate {α : Type} (key : String) : Except Refused α :=
  .error (.problem (.duplicate key) none)

def readRecordEntry (d : Document) (draft : Draft) (key : String) (path : Path) : Read Draft :=
  fun c =>
    match Field.ofKey? key with
    | none => do
      let (_, c) ← d.skipNode c
      .ok (draft, c)
    | some f =>
      if draft.holds f then duplicate key
      else do
        let (x, c) ← d.readField path f c
        .ok (draft.set x, c)

def readRecord (d : Document) (path : Path) : Read Tool :=
  d.readMapping path .record d.readRecordEntry {} Draft.finish

def readFileEntry (d : Document) (tools : Option (List Tool)) (key : String) (path : Path) :
    Read (Option (List Tool)) := fun c =>
  if key ≠ Decode.toolKey then do
    let (_, c) ← d.skipNode c
    .ok (tools, c)
  else
    match tools with
    | some _ => duplicate key
    | none => do
      let (ts, c) ← d.readList path d.readRecord c
      .ok (some ts, c)

def readFile (d : Document) (path : Path) : Read (List Tool) :=
  d.readMapping path .registryFile d.readFileEntry none fun tools => .ok (tools.getD [])

def decode {α : Type} (read : Document → Path → Read α) (d : Document) : Except Refused α := do
  let (a, _) ← read d [] ⟨d.spots, 0⟩
  match d.fault with
  | some f => .error (.fault f)
  | none => .ok a

end Document

def decode {α : Type} (read : Document → Path → Read α) (text : List Char) : Except String α :=
  ((Document.ofText text).decode read).mapError Refused.message

end ToolRoster.Yaml
