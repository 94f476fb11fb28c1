import Mathlib.Data.List.Basic
import ToolRoster.Artifact.Availability
import ToolRoster.Proofs.Text.Lines
/-!
# The entries of the availability listing

The listing is written with a line for each tool and one more for each declared fallback. A line
feed inside a name or a fallback makes a line that is neither, or one too many, so the listing has
this shape exactly when there is none.
-/
namespace ToolRoster.Availability
open Text (Line lines unlines framed)

def topLines : List Line := ["Available MCP Tools (Auto-Detected):".toList, []]

def entryLine (t : Tool) : Line := framed "- " t.name (": " ++ status t.available)

def subLine (fallback : String) : Line := framed "  Fallback: " fallback ""

def fallbackLines : Option String → List Line
  | none => []
  | some f => [subLine f]

def entryLines (t : Tool) : List Line := entryLine t :: fallbackLines t.fallback

theorem toList_entry (t : Tool) : (entry t).toList = unlines (entryLines t) := by
  have hline : ("- " ++ t.name ++ (": " ++ status t.available ++ "\n")).toList =
      entryLine t ++ ['\n'] :=
    Text.toList_framed "- " t.name (String.toList_append ..)
  have hsub : (fallbackLine t.fallback).toList = unlines (fallbackLines t.fallback) := by
    cases t.fallback with
    | none => rfl
    | some f =>
      rw [fallbackLines, Text.unlines_cons]
      exact Text.toList_framed "  Fallback: " f rfl
  rw [entryLines, Text.unlines_cons, ← hsub, ← List.singleton_append, ← List.append_assoc, ← hline,
    ← String.toList_append, entry]
  simp only [String.append_assoc]

theorem toList_render (r : Registry) :
    (render r).toList = unlines (topLines ++ r.records.flatMap entryLines) := by
  have htop : heading.toList = unlines topLines := rfl
  rw [render, String.toList_append, String.toList_join, List.flatMap_map, htop,
    Text.unlines_append, Text.unlines_flatMap]
  congr 1
  exact List.flatMap_congr fun t _ => toList_entry t

theorem lines_render (r : Registry) :
    lines (render r).toList = topLines ++ lines (unlines (r.records.flatMap entryLines)) := by
  have htop : lines (unlines topLines) = topLines := Text.lines_unlines_of_notMem (by decide)
  rw [Text.lines_unlines] at htop
  rw [toList_render, Text.lines_unlines, List.flatMap_append, htop, ← Text.lines_unlines]

def isEntry (l : Line) : Bool := "- ".toList.isPrefixOf l

def isFallback (l : Line) : Bool := "  Fallback: ".toList.isPrefixOf l

theorem isEntry_entryLine (t : Tool) : isEntry (entryLine t) = true := rfl

theorem isFallback_entryLine (t : Tool) : isFallback (entryLine t) = false := rfl

theorem isEntry_subLine (f : String) : isEntry (subLine f) = false := rfl

theorem isFallback_subLine (f : String) : isFallback (subLine f) = true := rfl

theorem isFallback_eq_not {l : Line} (h : isEntry l = true ∨ isFallback l = true) :
    isFallback l = !isEntry l := by
  rcases h with h | h
  · obtain ⟨rest, rfl⟩ := List.isPrefixOf_iff_prefix.mp h
    rfl
  · obtain ⟨rest, rfl⟩ := List.isPrefixOf_iff_prefix.mp h
    rfl

theorem countP_isEntry (ts : List Tool) : (ts.flatMap entryLines).countP isEntry = ts.length := by
  induction ts with
  | nil => rfl
  | cons t ts ih =>
    rw [List.flatMap_cons, List.countP_append, ih, entryLines, List.countP_cons, isEntry_entryLine]
    cases t.fallback with
    | none => simp [fallbackLines, Nat.add_comm]
    | some f => simp [fallbackLines, isEntry_subLine, Nat.add_comm]

theorem countP_isFallback (ts : List Tool) : (ts.flatMap entryLines).countP isFallback =
    ts.countP fun t => t.fallback.isSome := by
  induction ts with
  | nil => rfl
  | cons t ts ih =>
    rw [List.flatMap_cons, List.countP_append, ih, entryLines, List.countP_cons, List.countP_cons,
      isFallback_entryLine]
    cases t.fallback with
    | none => simp [fallbackLines]
    | some f => simp [fallbackLines, isFallback_subLine, Nat.add_comm]

theorem length_entryLines (ts : List Tool) : (ts.flatMap entryLines).length =
    ts.length + ts.countP fun t => t.fallback.isSome := by
  induction ts with
  | nil => rfl
  | cons t ts ih =>
    rw [List.flatMap_cons, List.length_append, ih, List.countP_cons, entryLines]
    cases t.fallback with
    | none => simp [fallbackLines]; omega
    | some f => simp [fallbackLines]; omega

/-- Below its top the listing has a line for each record and one for each declared fallback, and no
other line. -/
structure Shaped (r : Registry) : Prop where
  take_two : (lines (render r).toList).take 2 = topLines
  entries : ((lines (render r).toList).drop 2).countP isEntry = r.records.length
  fallbacks : ((lines (render r).toList).drop 2).countP isFallback =
    r.records.countP fun t => t.fallback.isSome
  no_other : ∀ l ∈ (lines (render r).toList).drop 2, isEntry l = true ∨ isFallback l = true

theorem drop_two_lines (r : Registry) :
    (lines (render r).toList).drop 2 = lines (unlines (r.records.flatMap entryLines)) := by
  rw [lines_render]
  rfl

/-- No line is broken if there is no line feed in the names and the fallbacks. -/
def Unbroken (r : Registry) : Prop :=
  ∀ t ∈ r.records, '\n' ∉ t.name.toList ∧ ∀ f ∈ t.fallback, '\n' ∉ f.toList

theorem notMem_entryLine_iff (t : Tool) : '\n' ∉ entryLine t ↔ '\n' ∉ t.name.toList := by
  have hstatus : '\n' ∉ (": " ++ status t.available).toList := by
    cases t.available <;> decide
  exact Text.notMem_framed_iff (by decide) hstatus _

theorem notMem_subLine_iff (f : String) : '\n' ∉ subLine f ↔ '\n' ∉ f.toList :=
  Text.notMem_framed_iff (by decide) (by decide) _

theorem notMem_entryLines_iff (t : Tool) : (∀ l ∈ entryLines t, '\n' ∉ l) ↔
    '\n' ∉ t.name.toList ∧ ∀ f ∈ t.fallback, '\n' ∉ f.toList := by
  rw [entryLines, List.forall_mem_cons, notMem_entryLine_iff]
  cases t.fallback with
  | none => simp [fallbackLines]
  | some f => simp [fallbackLines, notMem_subLine_iff]

theorem unbroken_iff (r : Registry) :
    Unbroken r ↔ ∀ l ∈ r.records.flatMap entryLines, '\n' ∉ l := by
  simp only [Unbroken, List.forall_mem_flatMap, notMem_entryLines_iff]

theorem Shaped.unbroken {r : Registry} (h : Shaped r) : Unbroken r := by
  have hlength : ((lines (render r).toList).drop 2).length = (r.records.flatMap entryLines).length := by
    -- No line is of a third kind, so the two counts make up the length.
    rw [List.length_eq_countP_add_countP isEntry, h.entries, length_entryLines, ← h.fallbacks]
    congr 1
    apply List.countP_congr
    intro l hl
    rw [isFallback_eq_not (h.no_other l hl)]
    simp
  rw [drop_two_lines] at hlength
  exact (unbroken_iff r).mpr (Text.notMem_of_length_lines_le (Nat.le_of_eq hlength))

theorem shaped_iff (r : Registry) : Shaped r ↔ Unbroken r := by
  refine ⟨Shaped.unbroken, fun h => ?_⟩
  have hbody : (lines (render r).toList).drop 2 = r.records.flatMap entryLines := by
    rw [drop_two_lines, Text.lines_unlines_of_notMem ((unbroken_iff r).mp h)]
  constructor
  · rw [lines_render]
    rfl
  · rw [hbody, countP_isEntry]
  · rw [hbody, countP_isFallback]
  · rw [hbody]
    simp only [List.forall_mem_flatMap]
    intro t _ l hl
    rcases List.mem_cons.mp hl with rfl | hl
    · exact Or.inl (isEntry_entryLine t)
    · cases hf : t.fallback with
      | none => simp [hf, fallbackLines] at hl
      | some f =>
        rw [hf, fallbackLines, List.mem_singleton] at hl
        exact Or.inr (hl ▸ isFallback_subLine f)

end ToolRoster.Availability
