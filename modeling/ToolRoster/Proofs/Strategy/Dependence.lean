import ToolRoster.Proofs.Strategy.Document
/-!
# What the strategy document depends on

Of most records the document depends on the outline alone: the name, the capability and the status.
The use cases and the fallback count only where a record is the first available one of its
capability, and elsewhere they may be anything.
-/
namespace ToolRoster

structure Outline where
  name : String
  capability : Capability
  available : Bool
deriving DecidableEq

def Tool.outline (t : Tool) : Outline := ⟨t.name, t.capability, t.available⟩

namespace Strategy

/-- At this position stands the first available record of its capability. -/
def LeadsAt (ts : List Tool) (i : Nat) : Prop := ∃ t ∈ ts[i]?, t.available = true ∧
  ∀ j < i, ∀ u ∈ ts[j]?, u.capability = t.capability → u.available = false

instance (ts : List Tool) (i : Nat) : Decidable (LeadsAt ts i) :=
  inferInstanceAs (Decidable (∃ t ∈ ts[i]?, t.available = true ∧
    ∀ j < i, ∀ u ∈ ts[j]?, u.capability = t.capability → u.available = false))

/-- Records that differ only in what the document leaves out. -/
structure Alike (xs ys : List Tool) : Prop where
  outline_eq : xs.map Tool.outline = ys.map Tool.outline
  leads_eq : ∀ i, LeadsAt xs i → xs[i]? = ys[i]?

section
variable {xs ys : List Tool} (h : Alike xs ys)
include h

theorem Alike.capabilities_eq : Group.capabilities xs = Group.capabilities ys := by
  have hmap : ∀ ts : List Tool, Group.capabilities ts =
      ((ts.map Tool.outline).map Outline.capability).eraseDups := by
    intro ts
    rw [List.map_map]
    rfl
  rw [hmap, hmap, h.outline_eq]

theorem Alike.find?_primary (c : Capability) :
    (xs.find? fun t => t.capability = c && t.available) =
      ys.find? fun t => t.capability = c && t.available := by
  -- The outlines tell where the primary tool stands, and there both lists hold the same record.
  have hindex : (xs.findIdx? fun t => t.capability = c && t.available) =
      ys.findIdx? fun t => t.capability = c && t.available := by
    have hmap : ∀ ts : List Tool, (ts.findIdx? fun t => t.capability = c && t.available) =
        (ts.map Tool.outline).findIdx? fun o => o.capability = c && o.available := by
      intro ts
      rw [List.findIdx?_map]
      rfl
    rw [hmap, hmap, h.outline_eq]
  rw [List.find?_eq_bind_findIdx?_getElem?, List.find?_eq_bind_findIdx?_getElem?, ← hindex]
  cases hi : xs.findIdx? fun t => t.capability = c && t.available with
  | none => rfl
  | some i =>
    obtain ⟨hlt, htrue, hbefore⟩ := List.findIdx?_eq_some_iff_getElem.mp hi
    apply h.leads_eq
    simp only [Bool.and_eq_true, decide_eq_true_eq] at htrue hbefore
    refine ⟨xs[i], List.getElem?_eq_getElem hlt, htrue.2, fun j hj u hu hcu => ?_⟩
    obtain ⟨hjlt, rfl⟩ := List.getElem?_eq_some_iff.mp hu
    exact Bool.eq_false_of_not_eq_true fun ha => hbefore j hj ⟨hcu.trans htrue.1, ha⟩

theorem Alike.available_of_name (f : String) : (xs.find? fun t => t.name = f).map Tool.available =
    (ys.find? fun t => t.name = f).map Tool.available := by
  have hmap : ∀ ts : List Tool, (ts.find? fun t => t.name = f).map Tool.available =
      ((ts.map Tool.outline).find? fun o => o.name = f).map Outline.available := by
    intro ts
    rw [List.find?_map, Option.map_map]
    rfl
  rw [hmap, hmap, h.outline_eq]

theorem Alike.fallbackOf_eq (c : Capability) (p : Tool) : fallbackOf xs c p = fallbackOf ys c p := by
  unfold fallbackOf
  cases p.fallback with
  | none => rfl
  | some f =>
    have hstatus := h.available_of_name f
    cases hx : xs.find? fun t => t.name = f with
    | none =>
      rw [hx, Option.map_none] at hstatus
      simp only [hx, Option.map_eq_none_iff.mp hstatus.symm]
    | some t =>
      rw [hx, Option.map_some] at hstatus
      obtain ⟨u, hu, ha⟩ := Option.map_eq_some_iff.mp hstatus.symm
      simp only [hx, hu, ha]

theorem Alike.sectionOf_eq (c : Capability) : sectionOf xs c = sectionOf ys c := by
  unfold sectionOf
  rw [h.find?_primary c]
  cases ys.find? fun t => t.capability = c && t.available with
  | none => rfl
  | some p => simp only [h.fallbackOf_eq]

end

theorem Alike.render_eq {r s : Registry} (h : Alike r.records s.records) (hr : r.Coherent)
    (hs : s.Coherent) : render r = render s := by
  have hsections : sectionOf r.records = sectionOf s.records := funext h.sectionOf_eq
  rw [render_eq_sections hr, render_eq_sections hs, h.capabilities_eq, hsections]

theorem alike_of_positions {xs ys : List Tool} (hlength : xs.length = ys.length)
    (houtline : ∀ i < xs.length, ∀ t ∈ xs[i]?, ∀ u ∈ ys[i]?,
      t.name = u.name ∧ t.capability = u.capability ∧ t.available = u.available)
    (hleads : ∀ i < xs.length, LeadsAt xs i → ∀ t ∈ xs[i]?, ∀ u ∈ ys[i]?,
      t.useCases = u.useCases ∧ t.fallback = u.fallback) : Alike xs ys := by
  constructor
  · apply List.ext_getElem
    · rw [List.length_map, List.length_map, hlength]
    · intro i hi hj
      rw [List.length_map] at hi hj
      obtain ⟨hname, hcapability, havailable⟩ := houtline i hi _ (List.getElem?_eq_getElem hi) _
        (List.getElem?_eq_getElem hj)
      simp only [List.getElem_map, Tool.outline, hname, hcapability, havailable]
  · intro i hlead
    have ⟨t, ht, _⟩ := hlead
    have hi := (List.getElem?_eq_some_iff.mp ht).1
    have hu := List.getElem?_eq_getElem (hlength ▸ hi)
    obtain ⟨hname, hcapability, havailable⟩ := houtline i hi t ht _ hu
    obtain ⟨huseCases, hfallback⟩ := hleads i hi hlead t ht _ hu
    rw [ht, hu]
    cases t
    simp only at hname hcapability havailable huseCases hfallback
    rw [hname, hcapability, havailable, huseCases, hfallback]

/-- Details of other records than the primary ones do not leak into the document: two registries have
the same one if they agree on the outline of every record and on every detail of the first available
record of each capability. -/
theorem render_depends {r s : Registry} (hr : r.Reachable) (hs : s.Reachable)
    (hsize : r.size = s.size)
    (houtline : ∀ i < r.size, ∀ t ∈ r.records[i]?, ∀ u ∈ s.records[i]?,
      t.name = u.name ∧ t.capability = u.capability ∧ t.available = u.available)
    (hleads : ∀ i < r.size, LeadsAt r.records i → ∀ t ∈ r.records[i]?, ∀ u ∈ s.records[i]?,
      t.useCases = u.useCases ∧ t.fallback = u.fallback) : render r = render s := by
  have halike : Alike r.records s.records := alike_of_positions hsize houtline hleads
  exact halike.render_eq hr.coherent hs.coherent

theorem render_depends_behind :
    let crash : Tool :=
      { name := "crash", capability := .debug, available := true,
        fallback := some "zen", useCases := ["any"] }
    let zen : Tool := { name := "zen", capability := .planning }
    let spare : Tool := { name := "spare", capability := .debug, available := true }
    let r := Registry.ofList [crash, zen, spare]
    let s := Registry.ofList [crash, { zen with fallback := some "ghost" },
      { spare with fallback := some "crash", useCases := ["other"] }]
    r.Reachable ∧ s.Reachable ∧ r.size = s.size ∧ r ≠ s ∧ render r = render s := by
  intro crash zen spare r s
  have hr : r.Reachable := Registry.reachable_ofList _
  have hs : s.Reachable := Registry.reachable_ofList _
  exact ⟨hr, hs, rfl, by decide, render_depends hr hs rfl (by decide) (by decide)⟩

end Strategy
end ToolRoster
