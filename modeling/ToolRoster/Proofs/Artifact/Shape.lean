import ToolRoster.Proofs.Availability.Entries
import ToolRoster.Proofs.RegistryFile.ReadBack
import ToolRoster.Proofs.Strategy.Reading
/-!
# The shape of the artifacts

A reader of an artifact expects one heading for each capability and one entry for each record. The
texts of a record are written as they are, and a registry file may declare texts of several lines.
So the shape is as expected exactly when no such text breaks a line of the listing, nor a line of a
section into one that is a heading.
-/
namespace ToolRoster
open Text (Line lines unlines)

namespace Strategy

/-- Every capability that is present has one heading, and no other has any. -/
def Headed (r : Registry) : Prop := ∀ c, (lines (render r).toList).count (headingLine c) =
  if ∃ t ∈ r.records, t.capability = c then 1 else 0

/-- No line of a section breaks into one that is a heading. -/
def HeadingFree (r : Registry) : Prop :=
  ∀ s ∈ summaries r, ∀ l ∈ s.body, ∀ c, headingLine c ∉ lines (l ++ ['\n'])

theorem headingLine_injective : Function.Injective headingLine := by
  intro c d h
  have hsame := congrArg headingOf? h
  rw [headingOf?_headingLine, headingOf?_headingLine] at hsame
  exact Option.some.inj hsame

theorem map_capability_summaries (r : Registry) :
    (summaries r).map Summary.capability = Group.capabilities r.records := by
  rw [summaries, Registry.groups, Group.ofRecords_eq, List.map_map, List.map_map]
  exact List.map_id _

theorem count_capabilities (r : Registry) (c : Capability) :
    ((summaries r).map Summary.capability).count c =
      if ∃ t ∈ r.records, t.capability = c then 1 else 0 := by
  rw [map_capability_summaries, List.Nodup.count (Group.nodup_capabilities r.records)]
  simp only [Group.mem_capabilities, List.mem_map]

theorem count_lines (ss : List Summary) (c : Capability) :
    (lines (unlines (ss.flatMap Summary.lines))).count (headingLine c) =
      (ss.map Summary.capability).count c +
        (lines (unlines (ss.flatMap Summary.body))).count (headingLine c) := by
  induction ss with
  | nil => rfl
  | cons s ss ih =>
    have hheading : lines (headingLine s.capability ++ ['\n']) = [headingLine s.capability] :=
      Text.lines_of_notMem (notMem_headingLine _)
    have hblank : lines ([] ++ ['\n']) = [[]] := Text.lines_of_notMem (by simp)
    have hne : headingLine c ≠ [] := by simp [headingLine, Text.framed]
    -- The first two lines of a section stay whole. What its other lines break into is counted apart.
    simp only [Text.lines_unlines] at ih ⊢
    rw [List.flatMap_cons, List.flatMap_cons, List.flatMap_append, List.flatMap_append,
      List.count_append, List.count_append, ih, Summary.lines, List.flatMap_cons, List.flatMap_cons,
      hheading, hblank, List.map_cons, List.count_cons]
    simp [List.count_cons, hne.symm, headingLine_injective.eq_iff]
    omega

theorem count_render (r : Registry) (c : Capability) :
    (lines (render r).toList).count (headingLine c) =
      (if ∃ t ∈ r.records, t.capability = c then 1 else 0) +
        (lines (unlines ((summaries r).flatMap Summary.body))).count (headingLine c) := by
  have htitle : lines (unlines titleLines) = titleLines := Text.lines_unlines_of_notMem (by decide)
  have hnone : titleLines.count (headingLine c) = 0 := by cases c <;> decide
  rw [← count_capabilities, ← count_lines, toList_render, documentLines, Text.lines_unlines,
    List.flatMap_append, ← Text.lines_unlines, ← Text.lines_unlines, htitle, List.count_append,
    hnone, Nat.zero_add]

theorem headed_iff (r : Registry) : Headed r ↔ HeadingFree r := by
  have hmem : ∀ c, headingLine c ∉ lines (unlines ((summaries r).flatMap Summary.body)) ↔
      ∀ s ∈ summaries r, ∀ l ∈ s.body, headingLine c ∉ lines (l ++ ['\n']) := by
    intro c
    simp only [Text.lines_unlines, List.mem_flatMap]
    grind
  have hcount : Headed r ↔
      ∀ c, headingLine c ∉ lines (unlines ((summaries r).flatMap Summary.body)) := by
    refine forall_congr' fun c => ?_
    rw [count_render, Nat.add_eq_left, List.count_eq_zero]
  rw [hcount, forall_congr' hmem]
  exact ⟨fun h s hs l hl c => h c s hs l hl, fun h c s hs l hl => h s hs l hl c⟩

theorem headingFree_of_singleLine {r : Registry} (h : r.SingleLine) : HeadingFree r := by
  intro s hs l hl c hc
  obtain ⟨g, hg, rfl⟩ := List.mem_map.mp hs
  have hwhole := notMem_sectionLines h hg l (List.mem_cons_of_mem _ (List.mem_cons_of_mem _ hl))
  rw [Text.lines_of_notMem hwhole, List.mem_singleton] at hc
  have hnone := headingOf?_body _ l (List.mem_cons_of_mem _ hl)
  rw [← hc, headingOf?_headingLine] at hnone
  contradiction

end Strategy

namespace Artifact

/-- When the artifacts have the shape that a reader expects of them. With texts of one line they
always do. -/
theorem shape_kept_iff (r : Registry) :
    (Strategy.Headed r ↔ Strategy.HeadingFree r) ∧
    (Availability.Shaped r ↔ Availability.Unbroken r) ∧
    (r.SingleLine → Strategy.Headed r ∧ Availability.Shaped r) := by
  refine ⟨Strategy.headed_iff r, Availability.shaped_iff r, fun h => ⟨?_, ?_⟩⟩
  · exact (Strategy.headed_iff r).mpr (Strategy.headingFree_of_singleLine h)
  · exact (Availability.shaped_iff r).mpr fun t ht => ⟨(h t ht).name, (h t ht).fallback⟩

/-- A name of several lines ends its own line and starts a section for a capability that no record
has. -/
theorem shape_lost_to_name :
    let path := SlashPath.ofString "tools.json"
    let tools : List Tool :=
      [{ name := "a\x60\n\n## Debug Tools\n\n**Primary**: \x60b", capability := .reasoning,
         available := true }]
    let tree := Files.Tree.empty.put [path.chars] (.file (String.ofList (Json.writeFile tools)).toUTF8)
    let r := Registry.ofList tools
    ((loadRegistry path).run [] tree).result = .ok r ∧
      (∀ t ∈ r.records, t.capability ≠ .debug) ∧
      (lines (Strategy.render r).toList).count (Strategy.headingLine .debug) = 1 ∧
      ((lines (Availability.render r).toList).drop 2).length = 5 ∧
      ¬ Strategy.Headed r ∧ ¬ Availability.Shaped r := by
  intro path tools tree r
  have hread : tree.read [] path.chars = .ok (String.ofList (Json.writeFile tools)).toUTF8 := rfl
  have hload : ((loadRegistry path).run [] tree).result = .ok r :=
    result_loadRegistry_written (by decide) (by decide) (by decide) hread
  have hdebug : ∀ t ∈ r.records, t.capability ≠ .debug := by decide
  have hheading : (lines (Strategy.render r).toList).count (Strategy.headingLine .debug) = 1 := by
    decide +kernel
  have hlines : ((lines (Availability.render r).toList).drop 2).length = 5 := by decide +kernel
  refine ⟨hload, hdebug, hheading, hlines, fun h => ?_, fun h => ?_⟩
  · have hnone : ¬ ∃ t ∈ r.records, t.capability = .debug := by decide
    have hzero := h .debug
    rw [hheading, if_neg hnone] at hzero
    exact Nat.one_ne_zero hzero
  · exact absurd (h.unbroken _ (List.mem_singleton_self _)).1 (by decide)

end Artifact
end ToolRoster
