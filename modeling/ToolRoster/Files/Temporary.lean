import ToolRoster.SlashPath
/-!
# Temporary names

New content is first written next to its target, under a name made of the target's name and the
number of the process. The name is that of the last component that is more than a slash or a dot; a
path that ends in two dots, or has no name at all, lends none, and the temporary name goes below the
path itself.
-/
namespace ToolRoster.Files

/-- Drops slashes, and dots that stand for the directory before them, from the end of a reversed
path. A dot that starts the path stays. -/
def trimEnd : List Char → List Char
  | '/' :: r => trimEnd r
  | '.' :: '/' :: r => trimEnd ('/' :: r)
  | r => r

def splitName (path : List Char) : List Char × List Char :=
  let rev := trimEnd path.reverse
  ((rev.takeWhile (· ≠ '/')).reverse, rev.dropWhile (· ≠ '/'))

def parentOf (path : List Char) : Option (List Char × List Char) :=
  let (name, before) := splitName path
  if name.isEmpty || name = ['.'] || name = ['.', '.'] then none
  else
    let parent := (trimEnd before).reverse
    some (name, if parent.isEmpty && path.head? = some '/' then ['/'] else parent)

def pushName (path name : List Char) : List Char :=
  if path.isEmpty || path.getLast? = some '/' then path ++ name else path ++ '/' :: name

def temporaryName (name : List Char) (process : Nat) : List Char :=
  '.' :: name ++ '.' :: Nat.toDigits 10 process ++ ".tmp".toList

def temporary (process : Nat) (target : List Char) : List Char :=
  match parentOf target with
  | some (name, parent) => pushName parent (temporaryName name process)
  | none => pushName target (temporaryName [] process)

end ToolRoster.Files
