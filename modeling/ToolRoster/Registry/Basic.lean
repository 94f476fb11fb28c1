import ToolRoster.Tool
/-!
# Registries of tools

A registry lists records in registration order and keeps, beside them, the position of each name.
Registering a known name replaces its record where it stands.
-/
namespace ToolRoster

structure Registry where
  records : List Tool := []
  /-- The position of each registered name, newest name first. -/
  positions : List (String × Nat) := []
deriving DecidableEq, Repr

namespace Registry

def empty : Registry := {}

def position? (r : Registry) (name : String) : Option Nat := r.positions.lookup name

def register (r : Registry) (t : Tool) : Registry × Option Tool :=
  match r.position? t.name with
  | some i => ({ r with records := r.records.set i t }, r.records[i]?)
  | none => (⟨r.records ++ [t], (t.name, r.records.length) :: r.positions⟩, none)

def insert (r : Registry) (t : Tool) : Registry := (r.register t).1

theorem register_of_none {r : Registry} {t : Tool} (h : r.position? t.name = none) :
    r.register t = (⟨r.records ++ [t], (t.name, r.records.length) :: r.positions⟩, none) := by
  simp [register, h]

theorem register_of_some {r : Registry} {t : Tool} {i : Nat}
    (h : r.position? t.name = some i) :
    r.register t = ({ r with records := r.records.set i t }, r.records[i]?) := by
  simp [register, h]

def ofList (ts : List Tool) : Registry := ts.foldl insert empty

def get? (r : Registry) (name : String) : Option Tool :=
  (r.position? name).bind fun i => r.records[i]?

def contains (r : Registry) (name : String) : Bool := (r.position? name).isSome

def size (r : Registry) : Nat := r.records.length

def isEmpty (r : Registry) : Bool := r.records.isEmpty

def names (r : Registry) : List String := r.records.map Tool.name

/-- The registries that registration builds from the empty one. -/
inductive Reachable : Registry → Prop where
  | empty : Reachable empty
  | insert {r : Registry} (t : Tool) : Reachable r → Reachable (r.insert t)

theorem Reachable.foldl_insert {r : Registry} (h : Reachable r) (ts : List Tool) :
    Reachable (ts.foldl Registry.insert r) := by
  induction ts generalizing r with
  | nil => exact h
  | cons t ts ih => exact ih (h.insert t)

theorem reachable_ofList (ts : List Tool) : Reachable (ofList ts) :=
  Reachable.empty.foldl_insert ts

end Registry
end ToolRoster
