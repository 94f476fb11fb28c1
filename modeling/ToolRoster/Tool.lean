import ToolRoster.Text.Character
/-!
# Tools

What the roster knows of one tool. Its capability is the kind of task that it assists with.
-/
namespace ToolRoster

inductive Capability where
  | reasoning
  | research
  | planning
  | analysis
  | debug
deriving DecidableEq, Repr

namespace Capability

def all : List Capability := [.reasoning, .research, .planning, .analysis, .debug]

theorem mem_all (c : Capability) : c ∈ all := by cases c <;> decide

def word : Capability → String
  | reasoning => "reasoning"
  | research => "research"
  | planning => "planning"
  | analysis => "analysis"
  | debug => "debug"

def title : Capability → String
  | reasoning => "Reasoning"
  | research => "Research"
  | planning => "Planning"
  | analysis => "Analysis"
  | debug => "Debug"

def ofWord? (s : String) : Option Capability := all.find? fun c => c.word = s

structure Unknown where
  text : String
deriving DecidableEq, Repr

def Unknown.message (e : Unknown) : String :=
  "unknown capability '" ++ e.text ++ "', expected one of: " ++ ", ".intercalate (all.map word)

def foldCase (cs : List Char) : List Char := cs.map Char.toLower

/-- Reads a word in any ASCII case, with white space allowed around it. -/
def parse (s : String) : Except Unknown Capability :=
  let found := foldCase (Text.trim s.toList)
  match all.find? fun c => c.word.toList = found with
  | some c => .ok c
  | none => .error ⟨s⟩

theorem ofWord?_word (c : Capability) : ofWord? c.word = some c := by cases c <;> decide

theorem word_of_ofWord? {s : String} {c : Capability} (h : ofWord? s = some c) : c.word = s := by
  simpa using List.find?_some h

end Capability

structure Tool where
  name : String
  capability : Capability
  available : Bool := false
  fallback : Option String := none
  useCases : List String := []
deriving DecidableEq, Repr

end ToolRoster
