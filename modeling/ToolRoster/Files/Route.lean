import ToolRoster.Files.Refusal
import ToolRoster.Files.Tree
/-!
# From a path to a place

A path is followed name by name from the root or from the working directory. Every name but the last
has to lead to a directory; the last one may name what does not exist yet.
-/
namespace ToolRoster.Files

def nameLimit : Nat := 255

def pathLimit : Nat := 4096

def splitSlashes : List Char → List Name
  | [] => [[]]
  | c :: cs =>
    match splitSlashes cs with
    | part :: parts => if c = '/' then [] :: part :: parts else (c :: part) :: parts
    | [] => [[c]]

def names (path : List Char) : List Name := (splitSlashes path).filter fun n => !n.isEmpty

inductive Step where
  | stay
  | up
  | down (name : Name)
deriving DecidableEq, Repr

def Step.of (name : Name) : Step :=
  if name = ['.'] then .stay else if name = ['.', '.'] then .up else .down name

def steps (path : List Char) : List Step := (names path).map Step.of

def isAbsolute (path : List Char) : Bool := path.head? = some '/'

def endsInSlash (path : List Char) : Bool := path.getLast? = some '/'

def start (cwd : Location) (path : List Char) : Location := if isAbsolute path then [] else cwd

def Tree.enter (t : Tree) (loc : Location) : Except Refusal Unit :=
  match t.node? loc with
  | some .directory => .ok ()
  | some (.file _) => .error .notDirectory
  | none => .error .notFound

def Step.target (s : Step) (loc : Location) : Except Refusal Location :=
  match s with
  | .stay => .ok loc
  | .up => .ok loc.tail
  | .down name => if nameLimit < Text.byteCount name then .error .nameTooLong else .ok (name :: loc)

def Tree.walk (t : Tree) : Location → List Step → Except Refusal Location
  | loc, [] => .ok loc
  | loc, s :: ss => do
    t.enter loc
    t.walk (← s.target loc) ss

def checkPath (path : List Char) : Except Refusal Unit :=
  if path.contains '\x00' then .error .zeroInName
  else if path.isEmpty then .error .notFound
  else if pathLimit ≤ Text.byteCount path then .error .nameTooLong
  else .ok ()

def Tree.locate (t : Tree) (cwd : Location) (path : List Char) : Except Refusal Location := do
  checkPath path
  t.walk (start cwd path) (steps path)

/-- The directory that holds the last name of a path, with the step of that name. -/
def Tree.locateLast (t : Tree) (cwd : Location) (path : List Char) :
    Except Refusal (Location × Option Step) := do
  checkPath path
  let loc ← t.walk (start cwd path) (steps path).dropLast
  t.enter loc
  .ok (loc, (steps path).getLast?)

end ToolRoster.Files
