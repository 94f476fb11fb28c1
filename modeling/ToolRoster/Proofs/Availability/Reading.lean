import Mathlib.Data.List.DropRight
import ToolRoster.Proofs.Availability.Entries
/-!
# Reading an availability listing

The end of an entry line tells the status, whatever the name is, and how a line starts tells whether
it belongs to the entry before it. So the entries are read back from the listing in their order, and
two listings are equal only if their entries are.
-/
namespace ToolRoster.Availability
open Text (Line framed)

structure Entry where
  name : String
  available : Bool
  fallback : Option String
deriving DecidableEq

def Entry.of (t : Tool) : Entry := ⟨t.name, t.available, t.fallback⟩

def Entry.text (e : Entry) : String :=
  "- " ++ e.name ++ ": " ++ status e.available ++ "\n" ++ fallbackLine e.fallback

def entries (r : Registry) : List Entry := r.records.map Entry.of

def statusEnd (available : Bool) : List Char := (": " ++ status available).toList

def readEntryLine (l : Line) : String × Bool :=
  let available := (statusEnd true).isSuffixOf l
  (.ofList ((l.drop 2).rdrop (statusEnd available).length), available)

def readSubLine (l : Line) : String := .ofList (l.drop 12)

def readEntries : List Line → List Entry
  | [] => []
  | [l] => [⟨(readEntryLine l).1, (readEntryLine l).2, none⟩]
  | l :: m :: ls =>
    if isFallback m then
      ⟨(readEntryLine l).1, (readEntryLine l).2, some (readSubLine m)⟩ :: readEntries ls
    else ⟨(readEntryLine l).1, (readEntryLine l).2, none⟩ :: readEntries (m :: ls)

def readListing (text : String) : List Entry := readEntries ((Text.lines text.toList).drop 2)

theorem isSuffixOf_entryLine (t : Tool) :
    (statusEnd true).isSuffixOf (entryLine t) = t.available := by
  have hline : entryLine t = ("- ".toList ++ t.name.toList) ++ statusEnd t.available := rfl
  rw [hline, Bool.eq_iff_iff, List.isSuffixOf_iff_suffix]
  constructor
  · intro h
    -- Both ends are suffixes of the line, and they differ before the shorter one is used up.
    rcases List.suffix_or_suffix_of_suffix h (List.suffix_append _ _) with h | h
    · revert h
      cases t.available <;> decide
    · revert h
      cases t.available <;> decide
  · intro h
    rw [h]
    exact List.suffix_append _ _

theorem readEntryLine_entryLine (t : Tool) : readEntryLine (entryLine t) = (t.name, t.available) := by
  have hdrop : (entryLine t).drop 2 = t.name.toList ++ statusEnd t.available := by
    simp [entryLine, framed, statusEnd]
  simp only [readEntryLine, isSuffixOf_entryLine, hdrop, List.rdrop_append_length,
    String.ofList_toList]

theorem readSubLine_subLine (f : String) : readSubLine (subLine f) = f := by
  simp [readSubLine, subLine, framed]

theorem readEntries_entryLines (t : Tool) {ls : List Line} (h : ∀ l ∈ ls.head?, isFallback l = false) :
    readEntries (entryLines t ++ ls) = Entry.of t :: readEntries ls := by
  rw [entryLines]
  cases hf : t.fallback with
  | some f =>
    simp [fallbackLines, readEntries, readEntryLine_entryLine, isFallback_subLine,
      readSubLine_subLine, Entry.of, hf]
  | none =>
    cases ls with
    | nil => simp [fallbackLines, readEntries, readEntryLine_entryLine, Entry.of, hf]
    | cons l ls =>
      have hl : isFallback l = false := h l rfl
      simp [fallbackLines, readEntries, readEntryLine_entryLine, Entry.of, hf, hl]

theorem readEntries_flatMap (ts : List Tool) :
    readEntries (ts.flatMap entryLines) = ts.map Entry.of := by
  induction ts with
  | nil => rfl
  | cons t ts ih =>
    have hhead : ∀ l ∈ (ts.flatMap entryLines).head?, isFallback l = false := by
      cases ts with
      | nil => simp
      | cons u us => simp [entryLines, isFallback_entryLine]
    rw [List.flatMap_cons, readEntries_entryLines t hhead, ih, List.map_cons]

theorem readListing_render {r : Registry} (h : Unbroken r) : readListing (render r) = entries r := by
  rw [readListing, drop_two_lines, Text.lines_unlines_of_notMem ((unbroken_iff r).mp h),
    readEntries_flatMap, entries]

theorem render_eq_entries (r : Registry) :
    render r = heading ++ String.join ((entries r).map Entry.text) := by
  rw [entries, List.map_map]
  rfl

theorem render_eq_of_entries_eq {r s : Registry} (h : entries r = entries s) :
    render r = render s := by
  rw [render_eq_entries, render_eq_entries, h]

instance (r : Registry) : Decidable (Unbroken r) :=
  inferInstanceAs (Decidable (∀ t ∈ r.records,
    '\n' ∉ t.name.toList ∧ ∀ f ∈ t.fallback, '\n' ∉ f.toList))

/-- The listing tells the name, the status and the declared fallback of every record in their order,
and nothing else. -/
theorem listing_unambiguous {r s : Registry} (hr : Unbroken r) (hs : Unbroken s) :
    readListing (render r) = entries r ∧ (render r = render s ↔ entries r = entries s) := by
  refine ⟨readListing_render hr, fun h => ?_, render_eq_of_entries_eq⟩
  rw [← readListing_render hr, h, readListing_render hs]

theorem listing_unambiguous_lookalike :
    let tools : List Tool :=
      [{ name := "crash: ✓ Available", capability := .debug, fallback := some "" },
        { name := "  Fallback: zen", capability := .debug, available := true }]
    let r := Registry.ofList tools
    let s := Registry.ofList (tools.map fun t => { t with fallback := none })
    Unbroken r ∧ Unbroken s ∧ readListing (render r) = entries r ∧ render r ≠ render s ∧
      render r ≠ render (Registry.ofList tools.reverse) := by
  intro tools r s
  have hr : Unbroken r := by decide
  have hs : Unbroken s := by decide
  have hreverse : Unbroken (Registry.ofList tools.reverse) := by decide
  obtain ⟨hread, hiff⟩ := listing_unambiguous hr hs
  have hne : entries r ≠ entries s := by decide
  refine ⟨hr, hs, hread, mt hiff.mp hne, fun h => ?_⟩
  have horder := (listing_unambiguous hr hreverse).2.mp h
  exact absurd horder (by decide)

end ToolRoster.Availability
