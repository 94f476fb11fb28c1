import ToolRoster.Text.Position
/-!
# Trees of directories and files

A place in a tree is the list of names that leads to it, the innermost first; the empty list is the
root, which is always a directory. The tree has no links, so a place has one list.
-/
namespace ToolRoster.Files

abbrev Name := List Char

/-- Names from a place up to the root. -/
abbrev Location := List Name

inductive Node where
  | directory
  | file (content : ByteArray)

instance : DecidableEq Node
  | .directory, .directory => isTrue rfl
  | .directory, .file _ => isFalse nofun
  | .file _, .directory => isFalse nofun
  | .file x, .file y =>
    match ByteArray.instDecidableEq x y with
    | isTrue h => isTrue (congrArg _ h)
    | isFalse h => isFalse fun e => h (Node.file.inj e)

structure Tree where
  nodes : List (Location × Node) := []
deriving DecidableEq

namespace Tree

def empty : Tree := {}

def node? (t : Tree) (loc : Location) : Option Node :=
  if loc.isEmpty then some .directory else t.nodes.lookup loc

def erase (t : Tree) (loc : Location) : Tree := ⟨t.nodes.filter fun e => e.1 ≠ loc⟩

def put (t : Tree) (loc : Location) (n : Node) : Tree := ⟨(loc, n) :: (t.erase loc).nodes⟩

theorem lookup_filter_ne (loc other : Location) (nodes : List (Location × Node)) :
    (nodes.filter fun e => e.1 ≠ loc).lookup other =
      if other = loc then none else nodes.lookup other := by
  induction nodes with
  | nil => simp
  | cons e es ih =>
    obtain ⟨key, n⟩ := e
    rw [List.filter_cons]
    by_cases h : key = loc
    · rw [if_neg (by simp [h]), ih, h]
      by_cases ho : other = loc
      · simp [ho]
      · simp [ho, List.lookup_cons, beq_eq_false_iff_ne.mpr ho]
    · rw [if_pos (by simp [h]), List.lookup_cons, List.lookup_cons, ih]
      by_cases ho : other = key
      · simp [ho, h]
      · simp [beq_eq_false_iff_ne.mpr ho]

theorem node?_erase (t : Tree) (loc other : Location) :
    (t.erase loc).node? other =
      if other.isEmpty then some .directory
      else if other = loc then none else t.node? other := by
  unfold node? erase
  rw [lookup_filter_ne]
  split <;> rfl

theorem node?_put (t : Tree) (loc other : Location) (n : Node) :
    (t.put loc n).node? other =
      if other.isEmpty then some .directory
      else if other = loc then some n else t.node? other := by
  unfold node? put erase
  rw [List.lookup_cons, lookup_filter_ne]
  by_cases h : other = loc
  · simp [h]
  · simp only [beq_eq_false_iff_ne.mpr h, if_neg h]
    split <;> rfl

def makeDirectory (t : Tree) : Location → Tree
  | [] => t
  | name :: outer =>
    let t := t.makeDirectory outer
    match t.node? (name :: outer) with
    | some _ => t
    | none => t.put (name :: outer) .directory

end Tree
end ToolRoster.Files
