import ToolRoster.Files.Call
import ToolRoster.Log.Event
/-!
# Sessions

What a program does, call by call, apart from the system that answers. A session tells its output
and asks its calls; the replies decide how it goes on. It runs on a tree here, and on a real system
outside.
-/
namespace ToolRoster

inductive Output where
  | out (text : String)
  | err (text : String)
  | log (event : Log.Event)
deriving DecidableEq, Repr

def Output.printed : Output → String
  | out text => text
  | _ => ""

inductive Session (α : Type) where
  | done (result : α)
  | tell (output : Output) (rest : Session α)
  | ask (call : Files.Call) (rest : Files.Reply → Session α)

namespace Session

def bind {α β : Type} : Session α → (α → Session β) → Session β
  | done a, f => f a
  | tell o rest, f => tell o (rest.bind f)
  | ask c rest, f => ask c fun r => (rest r).bind f

instance : Monad Session where
  pure := done
  bind := bind

def call (c : Files.Call) : Session Files.Reply := ask c done

def print (text : String) : Session Unit := tell (.out text) (done ())

def printError (text : String) : Session Unit := tell (.err text) (done ())

def log (e : Log.Event) : Session Unit := tell (.log e) (done ())

structure Outcome (α : Type) where
  result : α
  tree : Files.Tree
  outputs : List Output

def run {α : Type} (cwd : Files.Location) : Session α → Files.Tree → Outcome α
  | done a, t => ⟨a, t, []⟩
  | tell o rest, t =>
    let r := rest.run cwd t
    { r with outputs := o :: r.outputs }
  | ask c rest, t =>
    let (reply, t') := t.answer cwd c
    (rest reply).run cwd t'

/-- The session after one call on a tree, with the tree after it; output passes by. -/
def step {α : Type} (cwd : Files.Location) : Session α → Files.Tree → Session α × Files.Tree
  | done a, t => (done a, t)
  | tell _ rest, t => rest.step cwd t
  | ask c rest, t =>
    let (reply, t') := t.answer cwd c
    (rest reply, t')

@[simp] theorem done_bind {α β : Type} (a : α) (f : α → Session β) : (done a).bind f = f a := rfl

theorem bind_assoc {α β γ : Type} (s : Session α) (f : α → Session β) (g : β → Session γ) :
    (s.bind f).bind g = s.bind fun a => (f a).bind g := by
  induction s with
  | done a => rfl
  | tell o rest ih => simp only [bind, ih]
  | ask c rest ih => simp only [bind, ih]

theorem bind_done {α : Type} (s : Session α) : s.bind done = s := by
  induction s with
  | done a => rfl
  | tell o rest ih => simp only [bind, ih]
  | ask c rest ih => simp only [bind, ih]

instance : LawfulMonad Session :=
  LawfulMonad.mk' Session bind_done (fun _ _ => rfl) bind_assoc

@[simp] theorem run_done {α : Type} (cwd : Files.Location) (a : α) (t : Files.Tree) :
    (done a).run cwd t = ⟨a, t, []⟩ := rfl

theorem run_bind {α β : Type} (cwd : Files.Location) (s : Session α) (f : α → Session β)
    (t : Files.Tree) :
    (s.bind f).run cwd t =
      let first := s.run cwd t
      let second := (f first.result).run cwd first.tree
      { second with outputs := first.outputs ++ second.outputs } := by
  induction s generalizing t with
  | done a => rfl
  | tell o rest ih => simp only [bind, run, ih, List.cons_append]
  | ask c rest ih => simp only [bind, run, ih]

end Session
end ToolRoster
