import Mathlib.Data.List.Basic
import ToolRoster.Files.Store
/-!
# What a run says aloud

A run prints, reports errors and keeps a log. The log may be switched on and off, so here is a run
without it. Reading is done quietly: it says nothing and leaves the tree as it is.
-/
namespace ToolRoster

def Output.isLog : Output → Bool
  | .log _ => true
  | _ => false

namespace Session
variable {α β : Type} {cwd : Files.Location} {s : Session α} {f : α → Session β} {t : Files.Tree}

/-- A run without its log. -/
def aloud (cwd : Files.Location) (s : Session α) (t : Files.Tree) : Outcome α :=
  { s.run cwd t with outputs := (s.run cwd t).outputs.filter fun o => !o.isLog }

theorem result_aloud (cwd : Files.Location) (s : Session α) (t : Files.Tree) :
    (s.aloud cwd t).result = (s.run cwd t).result := rfl

theorem tree_aloud (cwd : Files.Location) (s : Session α) (t : Files.Tree) :
    (s.aloud cwd t).tree = (s.run cwd t).tree := rfl

theorem result_bind (cwd : Files.Location) (s : Session α) (f : α → Session β) (t : Files.Tree) :
    ((s >>= f).run cwd t).result =
      ((f (s.run cwd t).result).run cwd (s.run cwd t).tree).result := by
  change ((s.bind f).run cwd t).result = _
  rw [run_bind]

theorem aloud_bind (cwd : Files.Location) (s : Session α) (f : α → Session β) (t : Files.Tree) :
    (s >>= f).aloud cwd t =
      let first := s.aloud cwd t
      let second := (f first.result).aloud cwd first.tree
      { second with outputs := first.outputs ++ second.outputs } := by
  change (s.bind f).aloud cwd t = _
  simp only [aloud, run_bind, List.filter_append]

theorem aloud_bind_of_aloud {a : α} {t' : Files.Tree} {outputs : List Output}
    (h : s.aloud cwd t = ⟨a, t', outputs⟩) :
    (s >>= f).aloud cwd t =
      { (f a).aloud cwd t' with outputs := outputs ++ ((f a).aloud cwd t').outputs } := by
  rw [aloud_bind, h]

/-- A session that says nothing and leaves the tree as it is. -/
def Quiet (cwd : Files.Location) (s : Session α) (t : Files.Tree) : Prop :=
  s.aloud cwd t = ⟨(s.run cwd t).result, t, []⟩

theorem Quiet.bind_eq (h : s.Quiet cwd t) :
    (s >>= f).aloud cwd t = (f (s.run cwd t).result).aloud cwd t := by
  rw [aloud_bind_of_aloud h, List.nil_append]

theorem Quiet.bind (h : s.Quiet cwd t) (hf : ∀ a, (f a).Quiet cwd t) : (s >>= f).Quiet cwd t := by
  rw [Quiet, ← result_aloud, h.bind_eq, hf]

theorem quiet_log (e : Log.Event) : (log e).Quiet cwd t := rfl

theorem quiet_read (path : List Char) : (call (.read path)).Quiet cwd t := rfl

end Session
end ToolRoster
