import ToolRoster.Proofs.Registry.Index
import ToolRoster.Proofs.Registry.Partition
import ToolRoster.Proofs.Strategy.Sections
/-!
# The strategy document of a list of records

The document can be read off the records alone: each section scans the whole list for its primary
tool, and the fallback line scans it again for a name. Neither the index nor the groups are needed.
-/
namespace ToolRoster.Strategy

def fallbackOf (ts : List Tool) (c : Capability) (primary : Tool) : String :=
  match primary.fallback with
  | none => ""
  | some f =>
    match ts.find? fun t => t.name = f with
    | none => ""
    | some t =>
      if t.available then "**Fallback**: \x60" ++ f ++ "\x60\n\n"
      else "**Fallback**: Manual " ++ c.word ++ " (no tools available)\n\n"

/-- The section of a capability: its first available tool decides. -/
def sectionOf (ts : List Tool) (c : Capability) : String :=
  "## " ++ c.title ++ " Tools\n\n" ++
    match ts.find? fun t => t.capability = c && t.available with
    | none => "⚠️ No tools available - manual " ++ c.word ++ " required\n\n"
    | some p =>
      "**Primary**: \x60" ++ p.name ++ "\x60\n\n" ++ situationsOf p ++ fallbackOf ts c p

def documentOf (ts : List Tool) : String :=
  "# MCP Tool Strategy\n\n" ++ String.join ((ts.map Tool.capability).eraseDups.map (sectionOf ts))

theorem text_fallback {r : Registry} (h : r.Coherent) (c : Capability) (p : Tool) :
    (Fallback.of r p).text c = fallbackOf r.records c p := by
  unfold Fallback.of fallbackOf
  cases p.fallback with
  | none => rfl
  | some f =>
    simp only [h.get?_eq_find?]
    cases r.records.find? fun t => t.name = f with
    | none => rfl
    | some t =>
      cases ht : t.available with
      | false => simp only [ht]; rfl
      | true => simp only [ht]; rfl

theorem primary?_among (ts : List Tool) (c : Capability) :
    (Group.among ts c).primary? = ts.find? fun t => t.capability = c && t.available := by
  rw [Group.primary?, Group.among, List.find?_filter]
  simp

theorem renderGroup_among {r : Registry} (h : r.Coherent) (c : Capability) :
    renderGroup r (Group.among r.records c) = sectionOf r.records c := by
  rw [renderGroup, sectionOf, primary?_among]
  cases r.records.find? fun t => t.capability = c && t.available with
  | none => rfl
  | some p =>
    simp only [useWhen_eq, text_fallback h]
    rfl

theorem render_eq_sections {r : Registry} (h : r.Coherent) : render r =
    heading ++ String.join ((Group.capabilities r.records).map (sectionOf r.records)) := by
  have hs : renderGroup r ∘ Group.among r.records = sectionOf r.records :=
    funext (renderGroup_among h)
  rw [render, Registry.groups, Group.ofRecords_eq, List.map_map, hs]

/-- The document of a registry is the document of its records. -/
theorem render_eq_documentOf {r : Registry} (hr : r.Reachable) :
    render r = documentOf r.records := by
  rw [render_eq_sections hr.coherent]
  rfl

theorem render_eq_documentOf_cyclic :
    let a : Tool := { name := "a", capability := .debug, available := true, fallback := some "b" }
    let b : Tool :=
      { name := "b", capability := .research, fallback := some "a", useCases := ["once"] }
    (Registry.ofList [b, a]).Reachable ∧
      render (Registry.ofList [b, a]) = documentOf (Registry.ofList [b, a]).records := by
  intro a b
  have hr := Registry.reachable_ofList [b, a]
  exact ⟨hr, render_eq_documentOf hr⟩

end ToolRoster.Strategy
