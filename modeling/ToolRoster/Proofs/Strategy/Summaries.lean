import Mathlib.Data.List.Basic
import ToolRoster.Proofs.Strategy.Document
import ToolRoster.Proofs.Text.Lines
/-!
# What the strategy document says, line by line

A section says of its group no more than its summary does: the capability and, if a tool is
available, what there is to say about the primary. The document is written from the summaries, a few
lines for each. As long as no text of a record has a line feed these are the lines of the document.
-/
namespace ToolRoster

/-- No text of the record has a line feed. -/
structure Tool.SingleLine (t : Tool) : Prop where
  name : '\n' ∉ t.name.toList
  fallback : ∀ f ∈ t.fallback, '\n' ∉ f.toList
  useCases : ∀ u ∈ t.useCases, '\n' ∉ u.toList

theorem Tool.singleLine_iff (t : Tool) : t.SingleLine ↔ '\n' ∉ t.name.toList ∧
    (∀ f ∈ t.fallback, '\n' ∉ f.toList) ∧ ∀ u ∈ t.useCases, '\n' ∉ u.toList :=
  ⟨fun h => ⟨h.name, h.fallback, h.useCases⟩, fun ⟨hn, hf, hu⟩ => ⟨hn, hf, hu⟩⟩

instance (t : Tool) : Decidable t.SingleLine := decidable_of_iff _ t.singleLine_iff.symm

def Registry.SingleLine (r : Registry) : Prop := ∀ t ∈ r.records, t.SingleLine

instance (r : Registry) : Decidable r.SingleLine :=
  inferInstanceAs (Decidable (∀ t ∈ r.records, t.SingleLine))

namespace Strategy
open Text (Line unlines unlines_cons unlines_append unlines_flatMap framed toList_framed
  notMem_framed_iff)

structure Advice where
  tool : String
  useCases : List String
  fallback : Fallback
deriving DecidableEq

/-- What a section says: there is no advice in a group without an available tool. -/
structure Summary where
  capability : Capability
  advice : Option Advice
deriving DecidableEq

/-- Nothing is said of a fallback that is not declared or that no tool answers to. -/
def Fallback.status (find : String → Option Tool) (primary : Tool) : Fallback :=
  match primary.fallback, primary.fallback.bind find with
  | some f, some t => if t.available then .named f else .manual
  | _, _ => .silent

def Advice.of (find : String → Option Tool) (primary : Tool) : Advice :=
  ⟨primary.name, primary.useCases, Fallback.status find primary⟩

def Summary.of (find : String → Option Tool) (g : Group) : Summary :=
  ⟨g.capability, g.primary?.map (Advice.of find)⟩

def summaries (r : Registry) : List Summary := r.groups.map (Summary.of r.get?)

/-- The summaries by scans of the records: neither the groups nor the index are needed. -/
def summariesOf (ts : List Tool) : List Summary :=
  (ts.map Tool.capability).eraseDups.map fun c =>
    ⟨c, (ts.find? fun t => t.capability = c && t.available).map
      (Advice.of fun f => ts.find? fun t => t.name = f)⟩

theorem summaries_eq {r : Registry} (h : r.Coherent) : summaries r = summariesOf r.records := by
  have hget : r.get? = fun f => r.records.find? fun t => t.name = f := funext h.get?_eq_find?
  rw [summaries, summariesOf, Registry.groups, Group.ofRecords_eq, List.map_map, hget]
  apply List.map_congr_left
  intro c _
  rw [Function.comp_apply, Summary.of, primary?_among]
  rfl

theorem Fallback.of_eq (r : Registry) (p : Tool) : Fallback.of r p = Fallback.status r.get? p := by
  unfold Fallback.of Fallback.status
  cases p.fallback with
  | none => rfl
  | some f => cases hf : r.get? f <;> simp [hf]

def titleLines : List Line := ["# MCP Tool Strategy".toList, []]

def headingLine (c : Capability) : Line := framed "## " c.title " Tools"

def noticeLine (c : Capability) : Line :=
  framed "⚠️ No tools available - manual " c.word " required"

def primaryOpening : String := "**Primary**: \x60"

def fallbackOpening : String := "**Fallback**: \x60"

def quotedLine (opening name : String) : Line := framed opening name "\x60"

def manualLine (c : Capability) : Line :=
  framed "**Fallback**: Manual " c.word " (no tools available)"

def useWhenLine : Line := "Use when:".toList

def useLine (useCase : String) : Line := '-' :: ' ' :: useCase.toList

def useLines (useCases : List String) : List Line :=
  if useCases.isEmpty then [] else useWhenLine :: [] :: (useCases.map useLine ++ [[]])

def Fallback.lines (c : Capability) : Fallback → List Line
  | silent => []
  | manual => [manualLine c, []]
  | named tool => [quotedLine fallbackOpening tool, []]

def Advice.lines (c : Capability) (a : Advice) : List Line :=
  quotedLine primaryOpening a.tool :: [] :: (useLines a.useCases ++ a.fallback.lines c)

def Summary.body (s : Summary) : List Line :=
  match s.advice with
  | none => [noticeLine s.capability, []]
  | some a => a.lines s.capability

def Summary.lines (s : Summary) : List Line := headingLine s.capability :: [] :: s.body

def documentLines (ss : List Summary) : List Line := titleLines ++ ss.flatMap Summary.lines

theorem unlines_paragraph (l : Line) : unlines [l, []] = l ++ ['\n', '\n'] := by
  simp [unlines]

theorem toList_sectionHeading (c : Capability) :
    (sectionHeading c).toList = unlines [headingLine c, []] := by
  rw [unlines_paragraph]
  exact toList_framed "## " c.title rfl

theorem toList_notice (c : Capability) : (notice c).toList = unlines [noticeLine c, []] := by
  rw [unlines_paragraph]
  exact toList_framed _ c.word rfl

theorem toList_primaryLine (name : String) :
    (primaryLine name).toList = unlines [quotedLine primaryOpening name, []] := by
  rw [unlines_paragraph]
  exact toList_framed primaryOpening name rfl

theorem toList_fallback (c : Capability) (f : Fallback) :
    (f.text c).toList = unlines (f.lines c) := by
  cases f with
  | silent => rfl
  | manual =>
    rw [Fallback.lines, unlines_paragraph]
    exact toList_framed _ c.word rfl
  | named tool =>
    rw [Fallback.lines, unlines_paragraph]
    exact toList_framed fallbackOpening tool rfl

theorem toList_useCase (u : String) : ("- " ++ u ++ "\n").toList = useLine u ++ ['\n'] := by
  simp [useLine]

theorem toList_useWhen (us : List String) : (useWhen us).toList = unlines (useLines us) := by
  unfold useWhen useLines
  split
  · rfl
  · have hcases : (String.join (us.map fun u => "- " ++ u ++ "\n")).toList =
        unlines (us.map useLine) := by
      rw [String.toList_join, List.flatMap_map, unlines, List.flatMap_map]
      exact List.flatMap_congr fun u _ => toList_useCase u
    rw [String.toList_append, String.toList_append, hcases, unlines_cons, unlines_cons,
      unlines_append]
    rfl

theorem toList_renderGroup (r : Registry) (g : Group) :
    (renderGroup r g).toList = unlines (Summary.of r.get? g).lines := by
  have hlines : (Summary.of r.get? g).lines =
      [headingLine g.capability, []] ++ (Summary.of r.get? g).body := rfl
  rw [renderGroup, String.toList_append, toList_sectionHeading, hlines, unlines_append]
  congr 1
  unfold Summary.body Summary.of
  cases g.primary? with
  | none => exact toList_notice g.capability
  | some p =>
    have hadvice : (Advice.of r.get? p).lines g.capability =
        [quotedLine primaryOpening p.name, []] ++ useLines p.useCases ++
          (Fallback.status r.get? p).lines g.capability := rfl
    simp only [Option.map_some, hadvice, unlines_append, String.toList_append, toList_primaryLine,
      toList_useWhen, toList_fallback, Fallback.of_eq]

theorem toList_render (r : Registry) :
    (render r).toList = unlines (documentLines (summaries r)) := by
  have htitle : heading.toList = unlines titleLines := rfl
  rw [render, String.toList_append, String.toList_join, documentLines, unlines_append,
    unlines_flatMap, summaries, List.flatMap_map, List.flatMap_map, htitle]
  congr 1
  exact List.flatMap_congr fun g _ => toList_renderGroup r g

theorem notMem_title (c : Capability) : '\n' ∉ c.title.toList := by cases c <;> decide

theorem notMem_word (c : Capability) : '\n' ∉ c.word.toList := by cases c <;> decide

theorem notMem_headingLine (c : Capability) : '\n' ∉ headingLine c :=
  (notMem_framed_iff (by decide) (by decide) _).mpr (notMem_title c)

theorem notMem_noticeLine (c : Capability) : '\n' ∉ noticeLine c :=
  (notMem_framed_iff (by decide) (by decide) _).mpr (notMem_word c)

theorem notMem_manualLine (c : Capability) : '\n' ∉ manualLine c :=
  (notMem_framed_iff (by decide) (by decide) _).mpr (notMem_word c)

theorem notMem_quotedLine {opening name : String} (ho : '\n' ∉ opening.toList)
    (hn : '\n' ∉ name.toList) : '\n' ∉ quotedLine opening name :=
  (notMem_framed_iff ho (by decide) _).mpr hn

theorem notMem_useLines {us : List String} (h : ∀ u ∈ us, '\n' ∉ u.toList) :
    ∀ l ∈ useLines us, '\n' ∉ l := by
  unfold useLines
  split
  · simp
  · simp only [List.forall_mem_cons, List.forall_mem_append, List.forall_mem_map]
    refine ⟨by decide, by simp, fun u hu => ?_, by simp⟩
    simpa [useLine] using h u hu

theorem notMem_fallback {c : Capability} {f : Fallback}
    (h : ∀ tool, f = .named tool → '\n' ∉ tool.toList) : ∀ l ∈ f.lines c, '\n' ∉ l := by
  cases f with
  | silent => simp [Fallback.lines]
  | manual => simp [Fallback.lines, notMem_manualLine]
  | named tool =>
    have hline : '\n' ∉ quotedLine fallbackOpening tool := notMem_quotedLine (by decide) (h tool rfl)
    simp [Fallback.lines, hline]

theorem fallback_eq_of_named {find : String → Option Tool} {p : Tool} {f : String}
    (h : Fallback.status find p = .named f) : p.fallback = some f := by
  unfold Fallback.status at h
  split at h
  · rename_i declared _ hdeclared _
    split_ifs at h
    cases h
    exact hdeclared
  · contradiction

theorem notMem_advice (find : String → Option Tool) {p : Tool} (h : p.SingleLine) (c : Capability) :
    ∀ l ∈ (Advice.of find p).lines c, '\n' ∉ l := by
  simp only [Advice.lines, Advice.of, List.forall_mem_cons, List.forall_mem_append]
  refine ⟨notMem_quotedLine (by decide) h.name, by simp, notMem_useLines h.useCases, ?_⟩
  exact notMem_fallback fun tool ht => h.fallback tool (fallback_eq_of_named ht)

theorem notMem_sectionLines {r : Registry} (h : r.SingleLine) {g : Group} (hg : g ∈ r.groups) :
    ∀ l ∈ (Summary.of r.get? g).lines, '\n' ∉ l := by
  simp only [Summary.lines, List.forall_mem_cons]
  refine ⟨notMem_headingLine _, by simp, ?_⟩
  cases hp : g.primary? with
  | none => simp [Summary.body, Summary.of, hp, notMem_noticeLine]
  | some p =>
    have hadvice := notMem_advice r.get? (h p (mem_records_of_primary? hg hp)) g.capability
    simpa only [Summary.body, Summary.of, hp, Option.map_some] using hadvice

theorem notMem_documentLines {r : Registry} (h : r.SingleLine) :
    ∀ l ∈ documentLines (summaries r), '\n' ∉ l := by
  simp only [documentLines, List.forall_mem_append, List.forall_mem_flatMap]
  refine ⟨by decide, fun s hs => ?_⟩
  obtain ⟨g, hg, rfl⟩ := List.mem_map.mp hs
  exact notMem_sectionLines h hg

theorem lines_render {r : Registry} (h : r.SingleLine) :
    Text.lines (render r).toList = documentLines (summaries r) := by
  rw [toList_render, Text.lines_unlines_of_notMem (notMem_documentLines h)]

end Strategy
end ToolRoster
