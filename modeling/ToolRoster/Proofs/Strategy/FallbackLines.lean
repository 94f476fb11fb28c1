import ToolRoster.Proofs.Registry.Fallbacks
import ToolRoster.Proofs.Strategy.Summaries
/-!
# Fallback lines

A section has one fallback line at most, and it has none when the primary tool declares a fallback
that is not registered. Validation rejects such registries, and the sections that they leave short
are those of tools it can list.
-/
namespace ToolRoster.Strategy
open Text (Line)

def opensFallback (l : Line) : Bool := "**Fallback**: ".toList.isPrefixOf l

/-- The fallback lines among the lines that a section is written with. -/
def fallbackLines (r : Registry) (g : Group) : List Line :=
  (Summary.of r.get? g).lines.filter opensFallback

theorem filter_headingLine (c : Capability) (ls : List Line) :
    (headingLine c :: [] :: ls).filter opensFallback = ls.filter opensFallback := rfl

theorem filter_useLines (us : List String) : (useLines us).filter opensFallback = [] := by
  have hdash : ∀ u ∈ us, opensFallback (useLine u) = false := fun _ _ => rfl
  have hopening : opensFallback useWhenLine = false := rfl
  have hblank : opensFallback [] = false := rfl
  unfold useLines
  split
  · rfl
  · simpa [hopening, hblank, List.filter_eq_nil_iff] using hdash

theorem filter_fallback (c : Capability) (f : Fallback) :
    (f.lines c).filter opensFallback = (f.lines c).take 1 := by
  cases f <;> rfl

section
variable {r : Registry} {g : Group} {p : Tool}

theorem fallbackLines_of_some (hp : g.primary? = some p) :
    fallbackLines r g = ((Fallback.of r p).lines g.capability).take 1 := by
  have hlines : (Summary.of r.get? g).lines = headingLine g.capability :: [] ::
      quotedLine primaryOpening p.name :: [] ::
        (useLines p.useCases ++ (Fallback.of r p).lines g.capability) := by
    simp only [Summary.lines, Summary.body, Summary.of, hp, Option.map_some, Advice.lines, Advice.of,
      Fallback.of_eq]
  have hprimary : ∀ ls : List Line, (quotedLine primaryOpening p.name :: [] :: ls).filter
      opensFallback = ls.filter opensFallback := fun _ => rfl
  rw [fallbackLines, hlines, filter_headingLine, hprimary, List.filter_append, filter_useLines,
    List.nil_append, filter_fallback]

theorem filter_lines (h : r.SingleLine) (hg : g ∈ r.groups) :
    (Text.lines (renderGroup r g).toList).filter opensFallback = fallbackLines r g := by
  rw [toList_renderGroup, Text.lines_unlines_of_notMem (notMem_sectionLines h hg), fallbackLines]

end

/-- A section with the advice that its primary tool asks for. The line on the fallback ends it, and
there is no other such line. -/
structure Complete (r : Registry) (g : Group) (p : Tool) (f : String) : Prop where
  ends : ∃ t ∈ r.records, t.name = f ∧ renderGroup r g = untilFallback g.capability p ++
    if t.available then "**Fallback**: \x60" ++ f ++ "\x60\n\n"
    else "**Fallback**: Manual " ++ g.capability.word ++ " (no tools available)\n\n"
  single : fallbackLines r g = [quotedLine fallbackOpening f] ∨
    fallbackLines r g = [manualLine g.capability]

section
variable {r : Registry} (h : r.Coherent) {g : Group} {p : Tool} (hp : g.primary? = some p)
  {f : String} (hf : p.fallback = some f)
include hp hf

theorem fallbackLines_of_missing (hmissing : r.get? f = none) : fallbackLines r g = [] := by
  rw [fallbackLines_of_some hp, Fallback.of_missing hf hmissing]
  rfl

include h

theorem complete_of_found {t : Tool} (hfound : r.get? f = some t) : Complete r g p f := by
  obtain ⟨ht, he⟩ := (h.get?_eq_some_iff f t).mp hfound
  have hof := Fallback.of_found hf hfound
  refine ⟨⟨t, ht, he, ?_⟩, ?_⟩
  · rw [renderGroup_of_some hp, hof]
    cases t.available <;> rfl
  · rw [fallbackLines_of_some hp, hof]
    cases t.available with
    | true => exact Or.inl rfl
    | false => exact Or.inr rfl

theorem fallbackLines_eq_nil_iff (hg : g ∈ r.groups) :
    fallbackLines r g = [] ↔ ⟨p.name, f⟩ ∈ r.dangling := by
  rw [h.mem_dangling_iff (mem_records_of_primary? hg hp) hf]
  cases hfound : r.get? f with
  | none => simp [fallbackLines_of_missing hp hf hfound]
  | some t => rcases (complete_of_found h hp hf hfound).single with hs | hs <;> simp [hs]

end

theorem mem_omissions_iff {r : Registry} (h : r.Coherent) (o : Omission) :
    o ∈ omissions r ↔ ∃ g ∈ r.groups, ∃ p, g.primary? = some p ∧ p.name = o.tool ∧
      p.fallback = some o.fallback ∧ ⟨o.tool, o.fallback⟩ ∈ r.dangling := by
  rw [omissions, List.mem_filterMap]
  refine exists_congr fun g => and_congr_right fun hg => ?_
  unfold omission?
  cases hp : g.primary? with
  | none => simp
  | some p =>
    have hmem := mem_records_of_primary? hg hp
    cases hf : p.fallback with
    | none => simp [hf]
    | some f =>
      have hdangling := h.mem_dangling_iff hmem hf
      cases o
      simp only [Option.isNone_iff_eq_none]
      grind

theorem omissions_eq_nil {r : Registry} (h : r.Coherent) (hresolves : r.Resolves) :
    omissions r = [] := by
  rw [List.eq_nil_iff_forall_not_mem]
  intro o ho
  obtain ⟨_, -, _, -, -, -, hd⟩ := (mem_omissions_iff h o).mp ho
  rw [h.dangling_eq_nil_iff.mpr hresolves] at hd
  exact List.not_mem_nil hd

/-- Validation makes the document complete. A registry is valid when every declared fallback names a
record; then no line is omitted, and the section of every primary tool with a fallback ends with one
line on it. Else the error names the first record whose fallback names none, and only the sections
of dangling primary tools lack the line. Texts of one line add no line that looks like it. -/
theorem validate_completes {r : Registry} (hr : r.Reachable) :
    (r.validate = .ok () ↔ ∀ t ∈ r.records, ∀ f, t.fallback = some f → ∃ u ∈ r.records, u.name = f) ∧
    (r.validate = .ok () → omissions r = [] ∧
      ∀ g ∈ r.groups, ∀ p f, g.primary? = some p → p.fallback = some f → Complete r g p f) ∧
    (∀ d, r.validate = .error d ↔ r.FirstUnresolved d) ∧
    (∀ g ∈ r.groups, ∀ p f, g.primary? = some p → p.fallback = some f →
      (⟨p.name, f⟩ ∉ r.dangling → Complete r g p f) ∧
      (fallbackLines r g = [] ↔ ⟨p.name, f⟩ ∈ r.dangling)) ∧
    (r.SingleLine → ∀ g ∈ r.groups,
      (Text.lines (renderGroup r g).toList).filter opensFallback = fallbackLines r g) := by
  have h := hr.coherent
  have hsections : ∀ g ∈ r.groups, ∀ p f, g.primary? = some p → p.fallback = some f →
      ⟨p.name, f⟩ ∉ r.dangling → Complete r g p f := by
    intro g hg p f hp hf hd
    rw [h.mem_dangling_iff (mem_records_of_primary? hg hp) hf] at hd
    obtain ⟨t, ht⟩ := Option.ne_none_iff_exists'.mp hd
    exact complete_of_found h hp hf ht
  refine ⟨h.validate_eq_ok_iff, fun hvalid => ?_, h.validate_eq_error_iff,
    fun g hg p f hp hf => ⟨hsections g hg p f hp hf, fallbackLines_eq_nil_iff h hp hf hg⟩,
    fun hlines g hg => filter_lines hlines hg⟩
  have hresolves := h.validate_eq_ok_iff.mp hvalid
  refine ⟨omissions_eq_nil h hresolves, fun g hg p f hp hf => hsections g hg p f hp hf ?_⟩
  rw [h.dangling_eq_nil_iff.mpr hresolves]
  exact List.not_mem_nil

theorem validate_completes_ghost :
    let loop : Tool :=
      { name := "loop", capability := .debug, available := true, fallback := some "loop" }
    let zen : Tool :=
      { name := "zen", capability := .planning, available := true, fallback := some "ghost" }
    let spare : Tool := { name := "spare", capability := .debug, fallback := some "lost" }
    let r := Registry.ofList [loop, zen, spare]
    let valid := Registry.ofList [loop]
    r.Reachable ∧ valid.Reachable ∧ r.FirstUnresolved ⟨"zen", "ghost"⟩ ∧
      fallbackLines r ⟨.planning, [zen]⟩ = [] ∧ Complete r ⟨.debug, [loop, spare]⟩ loop "loop" ∧
      valid.validate = .ok () ∧ omissions valid = [] := by
  intro loop zen spare r valid
  have hr : r.Reachable := Registry.reachable_ofList _
  have hvalid : valid.Reachable := Registry.reachable_ofList _
  obtain ⟨-, -, herror, hsections, -⟩ := validate_completes hr
  obtain ⟨hok, hcomplete, -⟩ := validate_completes hvalid
  have hresolves : valid.validate = .ok () := hok.mpr (by decide)
  refine ⟨hr, hvalid, (herror _).mp (by decide), ?_, ?_, hresolves, (hcomplete hresolves).1⟩
  · exact (hsections ⟨.planning, [zen]⟩ (by decide) zen "ghost" rfl rfl).2.mpr (by decide)
  · exact (hsections ⟨.debug, [loop, spare]⟩ (by decide) loop "loop" rfl rfl).1 (by decide)

end ToolRoster.Strategy
