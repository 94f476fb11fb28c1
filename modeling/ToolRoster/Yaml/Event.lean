import ToolRoster.Yaml.Token
/-!
# From tokens to events

The nodes of a document as a flat list of events: a scalar is one event, and a collection is what
stands between its start and its end. What is still to be read is kept as a stack of goals, and the
next token decides how the goal on top is met. A key or value that is left out is an empty scalar.
-/
namespace ToolRoster.Yaml

structure Properties where
  anchor : Option (List Char) := none
  tag : Option (List Char) := none
deriving DecidableEq, Repr

inductive Event where
  | alias (name : List Char)
  | scalar (props : Properties) (style : Style) (text : List Char)
  | sequence (props : Properties)
  | sequenceEnd
  | mapping (props : Properties)
  | mappingEnd
deriving DecidableEq, Repr

structure Marked where
  event : Event
  mark : Mark
deriving DecidableEq, Repr

def emptyScalar (m : Mark) : Marked := ⟨.scalar {} .plain [], m⟩

inductive Goal where
  | blockNode (indentless : Bool)
  | flowNode
  | blockItems
  | indentlessItems
  | blockKey
  | blockValue
  | flowItems (first : Bool)
  | pairKey
  | pairValue
  | pairEnd
  | flowKey (first : Bool)
  | flowValue
  | flowNoValue
deriving DecidableEq, Repr

structure Context where
  handles : List (List Char × List Char)
  cut : Fault

/-- What one goal comes to: events, goals in its place and the tokens that are left. -/
structure Turn where
  events : List Marked := []
  goals : List Goal := []
  rest : List Placed

def Context.tag (c : Context) (handle suffix : List Char) (m : Mark) : Except Fault (List Char) :=
  if handle.isEmpty then .ok suffix
  else
    match c.handles.lookup handle with
    | some meaning => .ok (meaning ++ suffix)
    | none => .error ⟨.badTag, m⟩

def Context.properties (c : Context) : List Placed → Except Fault (Properties × List Placed)
  | ⟨.anchor a, _, _⟩ :: ⟨.tag h s, m, _⟩ :: r => do .ok (⟨a, ← c.tag h s m⟩, r)
  | ⟨.anchor a, _, _⟩ :: r => .ok (⟨a, none⟩, r)
  | ⟨.tag h s, m, _⟩ :: ⟨.anchor a, _, _⟩ :: r => do .ok (⟨a, ← c.tag h s m⟩, r)
  | ⟨.tag h s, m, _⟩ :: r => do .ok (⟨none, ← c.tag h s m⟩, r)
  | r => .ok ({}, r)

def scalarEvent (p : Properties) (style : Style) (text : List Char) : Event :=
  .scalar (if p.tag = some ['!'] then { p with tag := none } else p) style text

def Context.content (c : Context) (block indentless : Bool) (p : Properties) (m : Mark) :
    List Placed → Except Fault Turn
  | [] => .error c.cut
  | t :: r =>
    let first (e : Event) (goals : List Goal) (rest : List Placed) : Except Fault Turn :=
      .ok ⟨[⟨e, m⟩], goals, rest⟩
    let absent : Except Fault Turn :=
      if p.anchor.isSome || p.tag.isSome then first (.scalar p .plain []) [] (t :: r)
      else .error ⟨.unexpectedToken, t.start⟩
    match t.token with
    | .scalar style text => first (scalarEvent p style text) [] r
    | .flowSequence => first (.sequence p) [.flowItems true] r
    | .flowMapping => first (.mapping p) [.flowKey true] r
    | .blockSequence => if block then first (.sequence p) [.blockItems] r else absent
    | .blockMapping => if block then first (.mapping p) [.blockKey] r else absent
    | .blockEntry => if indentless then first (.sequence p) [.indentlessItems] (t :: r) else absent
    | _ => absent

def Context.node (c : Context) (block indentless : Bool) : List Placed → Except Fault Turn
  | [] => .error c.cut
  | ⟨.alias name, m, _⟩ :: r => .ok ⟨[⟨.alias name, m⟩], [], r⟩
  | t :: r => do
    let (p, rest) ← c.properties (t :: r)
    c.content block indentless p t.start rest

/-- A node before the next goal, or an empty scalar where one of these tokens follows. Its mark is
that of the token unless one is given. -/
def Context.orEmpty (c : Context) (stops : List Token) (node next : Goal) (m : Option Mark) :
    List Placed → Except Fault Turn
  | [] => .error c.cut
  | t :: r =>
    if stops.contains t.token then .ok ⟨[emptyScalar (m.getD t.start)], [next], t :: r⟩
    else .ok ⟨[], [node, next], t :: r⟩

def Context.item (c : Context) (first : Bool) (close : Token) :
    List Placed → Except Fault (Placed × List Placed)
  | [] => .error c.cut
  | t :: r =>
    if first || t.token = close then .ok (t, r)
    else if t.token = .flowEntry then
      match r with
      | [] => .error c.cut
      | u :: r => .ok (u, r)
    else .error ⟨.unexpectedToken, t.start⟩

def Context.meet (c : Context) (g : Goal) (t : Placed) (r : List Placed) : Except Fault Turn :=
  let fault : Except Fault Turn := .error ⟨.unexpectedToken, t.start⟩
  let close (e : Event) (rest : List Placed) : Except Fault Turn := .ok ⟨[⟨e, t.start⟩], [], rest⟩
  match g with
  | .blockNode indentless => c.node true indentless (t :: r)
  | .flowNode => c.node false false (t :: r)
  | .blockItems =>
    match t.token with
    | .blockEntry => c.orEmpty [.blockEntry, .blockEnd] (.blockNode false) .blockItems t.stop r
    | .blockEnd => close .sequenceEnd r
    | _ => fault
  | .indentlessItems =>
    match t.token with
    | .blockEntry =>
      c.orEmpty [.blockEntry, .key, .value, .blockEnd] (.blockNode false) .indentlessItems t.stop r
    | _ => close .sequenceEnd (t :: r)
  | .blockKey =>
    match t.token with
    | .key => c.orEmpty [.key, .value, .blockEnd] (.blockNode true) .blockValue t.stop r
    | .blockEnd => close .mappingEnd r
    | _ => fault
  | .blockValue =>
    match t.token with
    | .value => c.orEmpty [.key, .value, .blockEnd] (.blockNode true) .blockKey t.stop r
    | _ => .ok ⟨[emptyScalar t.start], [.blockKey], t :: r⟩
  | .flowItems first => do
    let (u, r) ← c.item first .flowSequenceEnd (t :: r)
    match u.token with
    | .flowSequenceEnd => close .sequenceEnd r
    | .key => .ok ⟨[⟨.mapping {}, u.start⟩], [.pairKey, .flowItems false], r⟩
    | _ => .ok ⟨[], [.flowNode, .flowItems false], u :: r⟩
  | .pairKey =>
    -- the token that shows the key to be left out goes with it
    match t.token with
    | .value | .flowEntry | .flowSequenceEnd => .ok ⟨[emptyScalar t.stop], [.pairValue], r⟩
    | _ => .ok ⟨[], [.flowNode, .pairValue], t :: r⟩
  | .pairValue =>
    match t.token with
    | .value => c.orEmpty [.flowEntry, .flowSequenceEnd] .flowNode .pairEnd none r
    | _ => .ok ⟨[emptyScalar t.start], [.pairEnd], t :: r⟩
  | .pairEnd => close .mappingEnd (t :: r)
  | .flowKey first => do
    let (u, r) ← c.item first .flowMappingEnd (t :: r)
    match u.token with
    | .flowMappingEnd => close .mappingEnd r
    | .key => c.orEmpty [.value, .flowEntry, .flowMappingEnd] .flowNode .flowValue none r
    | _ => .ok ⟨[], [.flowNode, .flowNoValue], u :: r⟩
  | .flowValue =>
    match t.token with
    | .value => c.orEmpty [.flowEntry, .flowMappingEnd] .flowNode (.flowKey false) none r
    | _ => .ok ⟨[emptyScalar t.start], [.flowKey false], t :: r⟩
  | .flowNoValue => .ok ⟨[emptyScalar t.start], [.flowKey false], t :: r⟩

structure Walk where
  events : List Marked
  ending : Except Fault (List Placed)

def Context.walk (c : Context) : Nat → List Goal → List Placed → Walk
  | _, [], ts => ⟨[], .ok ts⟩
  | 0, _ :: _, _ => ⟨[], .error c.cut⟩
  | _ + 1, _ :: _, [] => ⟨[], .error c.cut⟩
  | fuel + 1, g :: gs, t :: ts =>
    match c.meet g t ts with
    | .error e => ⟨[], .error e⟩
    | .ok turn =>
      let w := c.walk fuel (turn.goals ++ gs) turn.rest
      { w with events := turn.events ++ w.events }

end ToolRoster.Yaml
