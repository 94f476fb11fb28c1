import ToolRoster.Artifact.Strategy
import ToolRoster.Proofs.Registry.Grouping
/-!
# Sections and their primary tools

What a section says depends on its primary tool and on the fallback line. All that stands before
that line comes from the record of the primary tool alone.
-/
namespace ToolRoster

theorem Group.mem_of_primary?_among {ts : List Tool} {c : Capability} {p : Tool}
    (h : (among ts c).primary? = some p) : p ∈ ts :=
  List.mem_of_mem_filter (List.mem_of_find?_eq_some h)

namespace Strategy

def situationsOf (primary : Tool) : String :=
  match primary.useCases with
  | [] => ""
  | us => "Use when:\n\n" ++ String.join (us.map fun u => "- " ++ u ++ "\n") ++ "\n"

theorem useWhen_eq (p : Tool) : useWhen p.useCases = situationsOf p := by
  unfold useWhen situationsOf
  cases p.useCases <;> rfl

def untilFallback (c : Capability) (primary : Tool) : String :=
  "## " ++ c.title ++ " Tools\n\n" ++ ("**Primary**: \x60" ++ primary.name ++ "\x60\n\n") ++
    situationsOf primary

section
variable {r : Registry} {g : Group} {p : Tool}

theorem renderGroup_of_none (h : g.primary? = none) :
    renderGroup r g = "## " ++ g.capability.title ++ " Tools\n\n" ++
      ("⚠️ No tools available - manual " ++ g.capability.word ++ " required\n\n") := by
  rw [renderGroup, h]
  rfl

theorem renderGroup_of_some (h : g.primary? = some p) :
    renderGroup r g = untilFallback g.capability p ++ (Fallback.of r p).text g.capability := by
  have hsection : renderGroup r g = sectionHeading g.capability ++
      (primaryLine p.name ++ useWhen p.useCases ++ (Fallback.of r p).text g.capability) := by
    rw [renderGroup, h]
  rw [hsection, useWhen_eq, sectionHeading, primaryLine, untilFallback]
  simp only [String.append_assoc]

theorem mem_records_of_primary? (hg : g ∈ r.groups) (hp : g.primary? = some p) : p ∈ r.records := by
  obtain ⟨-, hamong⟩ := Group.eq_among_of_mem hg
  exact Group.mem_of_primary?_among (hamong ▸ hp)

theorem Fallback.of_none (h : p.fallback = none) : Fallback.of r p = .silent := by
  rw [Fallback.of, h]

theorem Fallback.of_missing {f : String} (h : p.fallback = some f) (hf : r.get? f = none) :
    Fallback.of r p = .silent := by
  simp only [Fallback.of, h, hf]

theorem Fallback.of_found {f : String} {t : Tool} (h : p.fallback = some f)
    (hf : r.get? f = some t) : Fallback.of r p = if t.available then .named f else .manual := by
  simp only [Fallback.of, h, hf]

end

end Strategy
end ToolRoster
