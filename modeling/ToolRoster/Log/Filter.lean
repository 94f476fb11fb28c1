import ToolRoster.Log.Event
import ToolRoster.Text.Character
/-!
# Log filters

A filter is a list of directives, each with a level for the targets that start with its own. The
most specific directive for an event decides whether the event is shown.
-/
namespace ToolRoster.Log

/-- A directive shows events up to a level; level zero shows none. -/
structure Directive where
  level : Nat
  target : Option (List Char) := none
  fields : List (List Char) := []
  inSpan : Bool := false
deriving DecidableEq, Repr

abbrev Filter := List Directive

def level? (cs : List Char) : Option Nat :=
  let digits :=
    match cs with
    | '+' :: r => r
    | _ => cs
  if !digits.isEmpty && digits.all Char.isDigit then
    let n := digits.foldl (fun n c => n * 10 + (c.toNat - '0'.toNat)) 0
    if n ≤ 5 then some n else none
  else
    let folded := cs.map Char.toLower
    if folded = "off".toList then some 0
    else
      [Level.error, .warn, .info, .debug, .trace].findSome? fun l =>
        if l.name.toList.map Char.toLower = folded then some l.rank else none

def levelOrAll? (cs : List Char) : Option Nat := if cs.isEmpty then some 5 else level? cs

def afterBracket? (d : Directive) : List Char → Option Directive
  | [] => some d
  | '=' :: level => (levelOrAll? level).map fun n => { d with level := n }
  | _ => none

def bracket? (target : Option (List Char)) (cs : List Char) : Option Directive :=
  let name := cs.takeWhile fun c => c ≠ ']' && c ≠ '\x7b'
  match cs.dropWhile fun c => c ≠ ']' && c ≠ '\x7b' with
  | ']' :: rest => afterBracket? ⟨5, target, [], true⟩ rest
  | '\x7b' :: rest =>
    let field := rest.takeWhile (· ≠ '\x7d')
    match rest.dropWhile (· ≠ '\x7d') with
    | '\x7d' :: ']' :: rest =>
      if field.isEmpty then none
      else
        let hasValue := field.contains '='
        afterBracket? ⟨5, target, [field], !name.isEmpty || hasValue⟩ rest
    | _ => none
  | _ => none

def startsTarget (c : Char) : Bool :=
  c.isAlphanum || c = '-' || c = ':' || c = '_' || 0x7F < c.toNat

/-- One directive: a level, a target, a target with a level, or any of these around a bracket. -/
def directive? (text : List Char) : Option Directive :=
  match Text.trim text with
  | [] => none
  | '[' :: rest => bracket? none rest
  | c :: rest =>
    if !startsTarget c then none
    else
      let cs := c :: rest
      let target := cs.takeWhile fun c => c ≠ '=' && c ≠ '['
      match cs.dropWhile fun c => c ≠ '=' && c ≠ '[' with
      | '=' :: level => (levelOrAll? level).map fun n => { level := n, target := some target }
      | '[' :: rest => bracket? (some target) rest
      | _ =>
        match level? cs with
        | some n => some { level := n }
        | none => some { level := 5, target := some target }

def splitCommas : List Char → List (List Char)
  | [] => [[]]
  | c :: cs =>
    match splitCommas cs with
    | part :: parts => if c = ',' then [] :: part :: parts else (c :: part) :: parts
    | [] => [[c]]

def Filter.parse? (text : String) : Option Filter := do
  let ds ← ((splitCommas text.toList).filter fun p => !p.isEmpty).mapM directive?
  some (if ds.isEmpty then [{ level := Level.error.rank }] else ds)

def Directive.applies (d : Directive) (e : Event) : Bool :=
  !d.inSpan &&
  (match d.target with
   | some t => t.isPrefixOf e.target.toList
   | none => true) &&
  d.fields.all fun f => f = "message".toList || e.fields.any fun g => g.1.toList = f

def Directive.weight (d : Directive) : Nat × Nat :=
  (match d.target with
   | some t => t.length + 1
   | none => 0, d.fields.length)

def Directive.yields (d e : Directive) : Bool :=
  d.weight.1 < e.weight.1 || (d.weight.1 = e.weight.1 && d.weight.2 ≤ e.weight.2)

def Filter.deciding? (f : Filter) (e : Event) : Option Directive :=
  (f.filter fun d => d.applies e).foldl
    (fun best d =>
      match best with
      | none => some d
      | some b => if b.yields d then some d else some b)
    none

def Filter.shows (f : Filter) (e : Event) : Bool :=
  match f.deciding? e with
  | some d => e.level.rank ≤ d.level
  | none => false

/-- The filter of a run: the setting if it can be read, otherwise warnings, or all but traces when
the run is verbose. -/
def Filter.ofSetting (setting : Option String) (verbose : Bool) : Filter :=
  let usual : Filter := [{ level := (if verbose then Level.debug else Level.warn).rank }]
  match setting with
  | some text => (Filter.parse? text).getD usual
  | none => usual

end ToolRoster.Log
