import ToolRoster.Registry.Basic
/-!
# The built-in table

Availability here is declared, not detected. The order decides the order of groups and which
available tool of a group is its primary: the planning group takes in a tool listed last.
-/
namespace ToolRoster

def builtinRecords : List Tool :=
  [{ name := "crash", capability := .reasoning, available := true
     fallback := some "sequential_thinking"
     useCases := ["Complex architectural decisions", "Multi-branch design exploration",
       "Iterative problem refinement"] },
   { name := "sequential_thinking", capability := .reasoning
     useCases := ["Linear problem breakdown", "Step-by-step analysis",
       "Fallback when crash unavailable"] },
   { name := "context7", capability := .research
     fallback := some "web_search"
     useCases := ["Library documentation lookup", "API reference retrieval",
       "Best practices research"] },
   { name := "web_search", capability := .research, available := true
     useCases := ["Latest framework updates", "Community best practices",
       "Fallback documentation lookup"] },
   { name := "zen_planner", capability := .planning
     useCases := ["Multi-phase project planning", "Migration strategy design",
       "Complex feature breakdown"] },
   { name := "zen_thinkdeep", capability := .analysis
     useCases := ["Architecture review", "Performance analysis", "Security assessment"] },
   { name := "zen_analyze", capability := .analysis
     useCases := ["Code quality analysis", "Pattern detection", "Tech debt assessment"] },
   { name := "zen_debug", capability := .debug
     useCases := ["Root cause investigation", "Bug reproduction", "Performance debugging"] },
   { name := "zen_consensus", capability := .planning
     useCases := ["Architecture decision making", "Technology selection",
       "Multi-model validation"] }]

def builtinCount : Nat := 9

theorem length_builtinRecords : builtinRecords.length = builtinCount := rfl

def Registry.builtin : Registry := .ofList builtinRecords

end ToolRoster
