import ToolRoster.Files.Route
/-!
# Calls on a tree

The calls that the program makes, and what each does to a tree. Only regular files are created,
renamed and removed. A call that is refused changes nothing.
-/
namespace ToolRoster.Files

inductive Call where
  | read (path : List Char)
  /-- Opens a file for writing: a new one, or an old one with its content dropped. -/
  | create (path : List Char)
  | append (path : List Char) (chunk : ByteArray)
  | sync (path : List Char)
  | rename (source target : List Char)
  | remove (path : List Char)

abbrev Reply := Except Refusal ByteArray

namespace Tree

def read (t : Tree) (cwd : Location) (path : List Char) : Reply := do
  match t.node? (← t.locate cwd path) with
  | some (.file content) => if endsInSlash path then .error .notDirectory else .ok content
  | some .directory => .error .isDirectory
  | none => .error .notFound

def place (t : Tree) (cwd : Location) (path : List Char) : Except Refusal Location := do
  match ← t.locateLast cwd path with
  | (loc, some (.down name)) =>
    let file ← (Step.down name).target loc
    match t.node? file with
    | some .directory => .error .isDirectory
    | _ => if endsInSlash path then .error .isDirectory else .ok file
  | _ => .error .isDirectory

def create (t : Tree) (cwd : Location) (path : List Char) : Except Refusal Tree := do
  .ok (t.put (← t.place cwd path) (.file .empty))

def fileAt (t : Tree) (cwd : Location) (path : List Char) :
    Except Refusal (Location × ByteArray) := do
  let file ← t.place cwd path
  match t.node? file with
  | some (.file content) => .ok (file, content)
  | _ => .error .notFound

def append (t : Tree) (cwd : Location) (path : List Char) (chunk : ByteArray) :
    Except Refusal Tree := do
  let (file, content) ← t.fileAt cwd path
  .ok (t.put file (.file (content ++ chunk)))

def remove (t : Tree) (cwd : Location) (path : List Char) : Except Refusal Tree := do
  let (file, _) ← t.fileAt cwd path
  .ok (t.erase file)

/-- Moves a file. Both parents are found first; then both last steps have to be names; then the
target may not be a directory, nor be written as one. -/
def rename (t : Tree) (cwd : Location) (source target : List Char) : Except Refusal Tree := do
  let (_, sourceStep) ← t.locateLast cwd source
  let (loc, targetStep) ← t.locateLast cwd target
  match sourceStep, targetStep with
  | some (.down _), some (.down name) =>
    let (file, content) ← t.fileAt cwd source
    let new ← (Step.down name).target loc
    if endsInSlash target then .error .notDirectory
    else
      match t.node? new with
      | some .directory => .error .isDirectory
      | _ => .ok ((t.erase file).put new (.file content))
  | _, _ => .error .busy

def checkFile (t : Tree) (cwd : Location) (path : List Char) : Except Refusal Unit := do
  let _ ← t.fileAt cwd path
  .ok ()

def answer (t : Tree) (cwd : Location) (c : Call) : Reply × Tree :=
  let changed (result : Except Refusal Tree) : Reply × Tree :=
    match result with
    | .ok t' => (.ok .empty, t')
    | .error e => (.error e, t)
  match c with
  | .read path => (t.read cwd path, t)
  | .create path => changed (t.create cwd path)
  | .append path chunk => changed (t.append cwd path chunk)
  | .sync path => changed ((fun _ => t) <$> t.checkFile cwd path)
  | .rename source target => changed (t.rename cwd source target)
  | .remove path => changed (t.remove cwd path)

end Tree
end ToolRoster.Files
