import Mathlib.Data.List.Basic
import ToolRoster.Proofs.Strategy.Summaries
/-!
# Reading a strategy document

The headings cut a document into its sections, and the blank lines a section into its parts. So the
summaries are read back from the document, whatever single-line texts it quotes, and two documents
are equal only if they say the same.
-/
namespace ToolRoster.Strategy
open Text (Line framed)

def headingOf? (l : Line) : Option Capability := Capability.all.find? fun c => headingLine c = l

/-- Lines cut at the headings: those before the first one, and those below each. -/
def sections : List Line → List Line × List (Capability × List Line)
  | [] => ([], [])
  | l :: ls =>
    let (before, found) := sections ls
    match headingOf? l with
    | some c => ([], (c, before) :: found)
    | none => (l :: before, found)

def quoted (opening : String) (l : Line) : String := .ofList (l.drop opening.toList.length).dropLast

def readFallback (c : Capability) : List Line → Fallback
  | [] => .silent
  | l :: _ => if l = manualLine c then .manual else .named (quoted fallbackOpening l)

def readUseCases : List Line → List String × List Line
  | [] => ([], [])
  | l :: ls =>
    if l = useWhenLine then
      ((ls.tail.takeWhile (· ≠ [])).map fun u => .ofList (u.drop 2),
        (ls.tail.dropWhile (· ≠ [])).tail)
    else ([], l :: ls)

def readBody (c : Capability) : List Line → Option Advice
  | l :: _ :: ls =>
    if l = noticeLine c then none
    else
      let (useCases, rest) := readUseCases ls
      some ⟨quoted primaryOpening l, useCases, readFallback c rest⟩
  | _ => none

def readDocument (text : String) : List Summary :=
  (sections (Text.lines text.toList)).2.map fun (c, ls) => ⟨c, readBody c ls.tail⟩

theorem headingOf?_headingLine (c : Capability) : headingOf? (headingLine c) = some c := by
  cases c <;> decide

theorem headingOf?_of_head? {l : Line} (h : l.head? ≠ some '#') : headingOf? l = none := by
  rw [headingOf?, List.find?_eq_none]
  intro c _ hl
  have hhead : (headingLine c).head? = some '#' := rfl
  rw [of_decide_eq_true hl] at hhead
  exact h hhead

theorem sections_heading (c : Capability) (ls : List Line) :
    sections (headingLine c :: ls) = ([], (c, (sections ls).1) :: (sections ls).2) := by
  simp [sections, headingOf?_headingLine]

theorem sections_append {ls : List Line} (h : ∀ l ∈ ls, headingOf? l = none) (rest : List Line) :
    sections (ls ++ rest) = (ls ++ (sections rest).1, (sections rest).2) := by
  induction ls with
  | nil => rfl
  | cons l ls ih =>
    obtain ⟨hl, hls⟩ := List.forall_mem_cons.mp h
    simp [sections, hl, ih hls]

theorem headingOf?_useLines (us : List String) : ∀ l ∈ useLines us, headingOf? l = none := by
  unfold useLines
  split
  · simp
  · simp only [List.forall_mem_cons, List.forall_mem_append, List.forall_mem_map]
    exact ⟨rfl, rfl, fun u _ => headingOf?_of_head? (by simp [useLine]), by simp; rfl⟩

theorem headingOf?_fallback (c : Capability) (f : Fallback) :
    ∀ l ∈ f.lines c, headingOf? l = none := by
  have hblank : headingOf? [] = none := rfl
  cases f with
  | silent => simp [Fallback.lines]
  | manual =>
    have hline : headingOf? (manualLine c) = none := headingOf?_of_head? (by simp [manualLine, framed])
    simp [Fallback.lines, hline, hblank]
  | named tool =>
    have hline : headingOf? (quotedLine fallbackOpening tool) = none :=
      headingOf?_of_head? (by simp [quotedLine, framed, fallbackOpening])
    simp [Fallback.lines, hline, hblank]

theorem headingOf?_body (s : Summary) : ∀ l ∈ [] :: s.body, headingOf? l = none := by
  have hblank : headingOf? [] = none := rfl
  unfold Summary.body
  cases s.advice with
  | none =>
    have hline : headingOf? (noticeLine s.capability) = none :=
      headingOf?_of_head? (by simp [noticeLine, framed])
    simp [hline, hblank]
  | some a =>
    have hline : headingOf? (quotedLine primaryOpening a.tool) = none :=
      headingOf?_of_head? (by simp [quotedLine, framed, primaryOpening])
    simp only [Advice.lines, List.forall_mem_cons, List.forall_mem_append]
    exact ⟨hblank, hline, hblank, headingOf?_useLines _, headingOf?_fallback _ _⟩

theorem sections_lines (ss : List Summary) :
    sections (ss.flatMap Summary.lines) = ([], ss.map fun s => (s.capability, [] :: s.body)) := by
  induction ss with
  | nil => rfl
  | cons s ss ih =>
    have hlines : s.lines = headingLine s.capability :: ([] :: s.body) := rfl
    rw [List.flatMap_cons, hlines, List.cons_append, sections_heading,
      sections_append (headingOf?_body s), ih]
    simp

theorem sections_documentLines (ss : List Summary) :
    (sections (documentLines ss)).2 = ss.map fun s => (s.capability, [] :: s.body) := by
  have htitle : ∀ l ∈ titleLines, headingOf? l = none := by decide
  rw [documentLines, sections_append htitle, sections_lines]

theorem quoted_quotedLine (opening name : String) : quoted opening (quotedLine opening name) = name := by
  simp [quoted, quotedLine, framed]

theorem named_ne_manual (c : Capability) (tool : String) :
    quotedLine fallbackOpening tool ≠ manualLine c := by
  intro h
  have htake := congrArg (List.take 15) h
  have hquoted : (quotedLine fallbackOpening tool).take 15 = fallbackOpening.toList := rfl
  rw [hquoted] at htake
  revert htake
  cases c <;> decide

theorem readFallback_lines (c : Capability) (f : Fallback) : readFallback c (f.lines c) = f := by
  cases f with
  | silent => rfl
  | manual => simp [Fallback.lines, readFallback]
  | named tool => simp [Fallback.lines, readFallback, named_ne_manual, quoted_quotedLine]

theorem readUseCases_of_head? {rest : List Line} (h : rest.head? ≠ some useWhenLine) :
    readUseCases rest = ([], rest) := by
  cases rest with
  | nil => rfl
  | cons l ls => rw [readUseCases, if_neg (by simpa using h)]

theorem readUseCases_useLines (us : List String) {rest : List Line}
    (h : rest.head? ≠ some useWhenLine) : readUseCases (useLines us ++ rest) = (us, rest) := by
  unfold useLines
  split
  · rename_i hus
    rw [List.isEmpty_iff.mp hus, List.nil_append, readUseCases_of_head? h]
  · -- A use case has its dash, so the blank line after the last one is the first that is empty.
    have hdash : ∀ l ∈ us.map useLine, decide (l ≠ []) = true := by
      simp [useLine]
    have htake : (us.map useLine ++ [] :: rest).takeWhile (· ≠ []) = us.map useLine := by
      rw [List.takeWhile_append_of_pos hdash, List.takeWhile_cons_of_neg (by simp), List.append_nil]
    have hdrop : (us.map useLine ++ [] :: rest).dropWhile (· ≠ []) = [] :: rest := by
      rw [List.dropWhile_append_of_pos hdash, List.dropWhile_cons_of_neg (by simp)]
    have htext : (us.map useLine).map (fun l => String.ofList (l.drop 2)) = us := by
      simp [useLine, Function.comp_def]
    simp only [List.cons_append, List.append_assoc, List.nil_append, readUseCases, if_true,
      List.tail_cons, htake, hdrop, htext]

theorem head?_fallback (c : Capability) (f : Fallback) : (f.lines c).head? ≠ some useWhenLine := by
  intro h
  have hletter : (f.lines c).head?.bind List.head? = some 'U' := by
    rw [h]
    rfl
  cases f with
  | silent => contradiction
  | manual => exact absurd (Option.some.inj hletter) (by decide)
  | named tool => exact absurd (Option.some.inj hletter) (by decide)

theorem primary_ne_notice (c : Capability) (tool : String) :
    quotedLine primaryOpening tool ≠ noticeLine c := by
  simp [quotedLine, noticeLine, framed, primaryOpening]

theorem readBody_body (s : Summary) : readBody s.capability s.body = s.advice := by
  unfold Summary.body
  cases s.advice with
  | none => simp [readBody]
  | some a =>
    simp [readBody, Advice.lines, primary_ne_notice, readUseCases_useLines _ (head?_fallback _ _),
      readFallback_lines, quoted_quotedLine]

theorem readDocument_render {r : Registry} (h : r.SingleLine) :
    readDocument (render r) = summaries r := by
  rw [readDocument, lines_render h, sections_documentLines, List.map_map]
  refine (List.map_congr_left fun s _ => ?_).trans (List.map_id _)
  simp [readBody_body]

/-- The document tells the summaries, which can be read off the records, and nothing else. -/
theorem render_unambiguous {r s : Registry} (hr : r.SingleLine) (hs : s.SingleLine) :
    readDocument (render r) = summaries r ∧ (render r = render s ↔ summaries r = summaries s) ∧
    ∀ u : Registry, u.Reachable → summaries u = summariesOf u.records := by
  refine ⟨readDocument_render hr, ⟨fun h => ?_, fun h => ?_⟩, fun u hu => summaries_eq hu.coherent⟩
  · rw [← readDocument_render hr, h, readDocument_render hs]
  · apply String.toList_injective
    rw [toList_render, toList_render, h]

theorem render_unambiguous_lookalike :
    let crash : Tool :=
      { name := "\x60 ## Debug Tools", capability := .debug, available := true,
        fallback := some "**Primary**", useCases := ["", "**Fallback**: \x60**Primary**\x60"] }
    let primary : Tool := { name := "**Primary**", capability := .research, available := true }
    let r := Registry.ofList [crash, primary]
    let s := Registry.ofList [{ crash with useCases := [""] }, primary]
    r.SingleLine ∧ s.SingleLine ∧ render r ≠ render s ∧ readDocument (render r) =
      [⟨.debug, some ⟨"\x60 ## Debug Tools", ["", "**Fallback**: \x60**Primary**\x60"],
          .named "**Primary**"⟩⟩,
        ⟨.research, some ⟨"**Primary**", [], .silent⟩⟩] := by
  intro crash primary r s
  have hr : r.SingleLine := by decide
  have hs : s.SingleLine := by decide
  obtain ⟨hread, hiff, -⟩ := render_unambiguous hr hs
  have hne : summaries r ≠ summaries s := by decide
  exact ⟨hr, hs, mt hiff.mp hne, hread.trans (by decide)⟩

end ToolRoster.Strategy
