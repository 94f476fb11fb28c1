import ToolRoster.Toml.Literal
/-!
# Values and tables of TOML

A document is a table of values and tables. How a table came about decides who may add to it: a
header opens a table once, a path may pass through tables that no header has opened, and an inline
table is finished where it is written.
-/
namespace ToolRoster.Toml

inductive Origin where
  | header
  | passed
  | dotted
  | inline
deriving DecidableEq, Repr

def Origin.implied : Origin → Bool
  | passed => true
  | dotted => true
  | header => false
  | inline => false

inductive Node where
  | text (value : String)
  | integer (value : Int)
  | float (value : Float)
  | bool (value : Bool)
  | moment
  | list (items : List Node)
  | table (origin : Origin) (entries : List (String × Node))
  | tables (items : List (List (String × Node)))

abbrev Entries := List (String × Node)

namespace Entries

def set (key : String) (n : Node) : Entries → Entries
  | [] => [(key, n)]
  | e :: es => if e.1 = key then (key, n) :: es else e :: set key n es

def erase (key : String) (es : Entries) : Entries := es.filter fun e => e.1 ≠ key

def add (key : String) (n : Node) (es : Entries) : Except Cause Entries :=
  match es.lookup key with
  | some _ => .error (.conflict key)
  | none => .ok (es ++ [(key, n)])

/-- Changes the entries of the table that a header's path leads to. Missing tables are made on the
way; a list of tables is entered at its last one. -/
def within (change : Entries → Except Cause Entries) :
    List String → Entries → Except Cause Entries
  | [], es => change es
  | key :: path, es =>
    match (es.lookup key).getD (.table .passed []) with
    | .table .inline _ => .error (.conflict key)
    | .table origin inner => do .ok (es.set key (.table origin (← within change path inner)))
    | .tables items => do
      let last ← within change path (items.getLastD [])
      .ok (es.set key (.tables (items.dropLast ++ [last])))
    | _ => .error (.conflict key)

/-- Adds a value below the path of a dotted key. Only tables that no header has opened are entered,
and the innermost one must be the work of dotted keys alone. -/
def addDotted (last : String) (n : Node) : Origin → List String → Entries → Except Cause Entries
  | origin, [], es => if origin = .dotted then es.add last n else .error (.conflict last)
  | _, key :: path, es =>
    match (es.lookup key).getD (.table .dotted []) with
    | .table origin inner =>
      if origin.implied then do
        .ok (es.set key (.table origin (← addDotted last n origin path inner)))
      else .error (.conflict key)
    | .tables items => do
      let inner ← addDotted last n .header path (items.getLastD [])
      .ok (es.set key (.tables (items.dropLast ++ [inner])))
    | _ => .error (.conflict key)

def addKey (k : Key) (n : Node) (es : Entries) : Except Cause Entries :=
  if k.path.isEmpty then es.add k.last n else addDotted k.last n .header k.path es

end Entries
end ToolRoster.Toml
