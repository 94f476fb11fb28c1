import Mathlib.Data.List.Forall2
import ToolRoster.Proofs.Registry.Order
import ToolRoster.Proofs.Strategy.Document
import ToolRoster.Proofs.Strategy.Sections
/-!
# A tool that can be called from now on

Whether a tool is available counts in two ways. In its own group it may make the tool the primary
one, and it decides what any group says of the tool as a fallback. Nothing else of the document
depends on it.
-/
namespace ToolRoster

def Tool.enabled (t : Tool) : Tool := { t with available := true }

theorem Tool.name_enabled (t : Tool) : t.enabled.name = t.name := rfl

theorem Tool.capability_enabled (t : Tool) : t.enabled.capability = t.capability := rfl

namespace Group

theorem primary?_append (xs ys : List Tool) (c : Capability) :
    (among (xs ++ ys) c).primary? = ((among xs c).primary?).or (among ys c).primary? := by
  simp only [Strategy.primary?_among, List.find?_append]

theorem primary?_cons (t : Tool) (ts : List Tool) (c : Capability) : (among (t :: ts) c).primary? =
    if t.capability = c ∧ t.available = true then some t else (among ts c).primary? := by
  simp only [Strategy.primary?_among, List.find?_cons]
  split_ifs with h <;> grind

section
variable (before after : List Tool) {t : Tool}

theorem primary?_enabled_of_ne {c : Capability} (hc : t.capability ≠ c) :
    (among (before ++ t.enabled :: after) c).primary? =
      (among (before ++ t :: after) c).primary? := by
  simp [primary?_append, primary?_cons, Tool.capability_enabled, hc]

theorem primary?_enabled (t : Tool) : (among (before ++ t.enabled :: after) t.capability).primary? =
    ((among before t.capability).primary?).or (some t.enabled) := by
  simp [primary?_append, primary?_cons, Tool.enabled]

theorem primary?_disabled (hoff : t.available = false) (c : Capability) :
    (among (before ++ t :: after) c).primary? =
      ((among before c).primary?).or (among after c).primary? := by
  simp [primary?_append, primary?_cons, hoff]

theorem capabilities_enabled (t : Tool) :
    capabilities (before ++ t.enabled :: after) = capabilities (before ++ t :: after) := by
  simp only [capabilities, List.map_append, List.map_cons, Tool.capability_enabled]

end

section
variable {before after : List Tool} {t p : Tool} (hn : (before ++ t :: after).Nodup)
include hn

theorem idxOf_middle : (before ++ t :: after).idxOf t = before.length := by
  have ht : t ∉ before := fun hmem => hn.disjoint hmem List.mem_cons_self
  rw [List.idxOf_append_of_notMem ht, List.idxOf_cons_self, Nat.add_zero]

theorem idxOf_lt_of_mem_before (hp : p ∈ before) :
    (before ++ t :: after).idxOf p < (before ++ t :: after).idxOf t := by
  rw [idxOf_middle hn, List.idxOf_append_of_mem hp]
  exact List.idxOf_lt_length_of_mem hp

theorem idxOf_lt_of_mem_after (hp : p ∈ after) :
    (before ++ t :: after).idxOf t < (before ++ t :: after).idxOf p := by
  have hbefore : p ∉ before := fun hmem => hn.disjoint hmem (List.mem_cons_of_mem _ hp)
  have hne : t ≠ p := fun he => (List.nodup_cons.mp hn.of_append_right).1 (he ▸ hp)
  rw [idxOf_middle hn, List.idxOf_append_of_notMem hbefore, List.idxOf_cons_ne _ hne]
  omega

end

/-- What becomes of a group when the tool `t` of these records can be called. -/
structure Admits (ts : List Tool) (t : Tool) (g g' : Group) : Prop where
  capability_eq : g'.capability = g.capability
  leads_iff : g.capability = t.capability → (g'.primary? = some t.enabled ↔
    g.primary? = none ∨ ∃ p, g.primary? = some p ∧ ts.idxOf t < ts.idxOf p)
  keeps : g'.primary? ≠ some t.enabled → g'.primary? = g.primary?
  others : g.capability ≠ t.capability → g'.primary? = g.primary?

theorem admits_among {before after : List Tool} {t : Tool} (hoff : t.available = false)
    (hn : ((before ++ t :: after).map Tool.name).Nodup) (c : Capability) :
    Admits (before ++ t :: after) t (among (before ++ t :: after) c)
      (among (before ++ t.enabled :: after) c) := by
  have hnodup := List.Nodup.of_map _ hn
  have hold := primary?_disabled before after hoff c
  by_cases hc : t.capability = c
  · subst hc
    have hnew := primary?_enabled before after t
    -- What stands before the tool leads the group as ever, and only what stands after it gives way.
    cases hb : (among before t.capability).primary? with
    | some p =>
      rw [hb, Option.some_or] at hold hnew
      have hp : p ∈ before := mem_of_primary?_among hb
      have hne : p ≠ t.enabled := by
        rintro rfl
        rw [List.map_append, List.map_cons] at hn
        exact hn.disjoint (List.mem_map_of_mem hp) List.mem_cons_self
      have hprecedes := idxOf_lt_of_mem_before hnodup hp
      refine ⟨rfl, fun _ => ?_, fun _ => hnew.trans hold.symm, fun he => absurd rfl he⟩
      rw [hnew, hold]
      grind
    | none =>
      rw [hb, Option.none_or] at hold hnew
      refine ⟨rfl, fun _ => ⟨fun _ => ?_, fun _ => hnew⟩, fun he => absurd hnew he,
        fun he => absurd rfl he⟩
      rw [hold]
      cases ha : (among after t.capability).primary? with
      | none => exact Or.inl rfl
      | some p => exact Or.inr ⟨p, rfl, idxOf_lt_of_mem_after hnodup (mem_of_primary?_among ha)⟩
  · have hsame := primary?_enabled_of_ne before after hc
    exact ⟨rfl, fun he => absurd he.symm hc, fun _ => hsame, fun _ => hsame⟩

end Group

namespace Strategy

/-- What becomes of a section when `t` can be called. With the same primary tool it changes only if
`t` is the fallback: the line that names it takes the place of the one on manual work. -/
structure Enables (r : Registry) (t : Tool) (g g' : Group) : Prop
    extends Group.Admits r.records t g g' where
  stays : g'.primary? = g.primary? → (∀ p, g.primary? = some p → p.fallback ≠ some t.name) →
    renderGroup (r.insert t.enabled) g' = renderGroup r g
  named : ∀ p, g.primary? = some p → g'.primary? = some p → p.fallback = some t.name →
    renderGroup r g = untilFallback g.capability p ++
      ("**Fallback**: Manual " ++ g.capability.word ++ " (no tools available)\n\n") ∧
    renderGroup (r.insert t.enabled) g' = untilFallback g.capability p ++
      ("**Fallback**: \x60" ++ t.name ++ "\x60\n\n")

section
variable {r : Registry} (h : r.Coherent) {t : Tool}
include h

theorem Fallback.of_enabled (p : Tool) : Fallback.of (r.insert t.enabled) p =
    if p.fallback = some t.name then .named t.name else Fallback.of r p := by
  have hget := h.get?_insert t.enabled
  cases hf : p.fallback with
  | none => simp [Fallback.of_none hf]
  | some f =>
    by_cases he : f = t.name
    · subst he
      rw [Fallback.of_found hf (by rw [hget, Tool.name_enabled, if_pos rfl])]
      simp [Tool.enabled]
    · simp [Fallback.of, hf, hget, Tool.name_enabled, he]

theorem Fallback.of_disabled (ht : t ∈ r.records) (hoff : t.available = false) {p : Tool}
    (hf : p.fallback = some t.name) : Fallback.of r p = .manual := by
  rw [Fallback.of_found hf ((h.get?_eq_some_iff t.name t).mpr ⟨ht, rfl⟩), hoff]
  rfl

theorem enables_of_admits (ht : t ∈ r.records) (hoff : t.available = false) {g g' : Group}
    (ha : Group.Admits r.records t g g') : Enables r t g g' := by
  have hc := ha.capability_eq
  refine ⟨ha, fun hsame hne => ?_, fun p hp hp' hf => ⟨?_, ?_⟩⟩
  · cases hp : g.primary? with
    | none => rw [renderGroup_of_none (hsame.trans hp), renderGroup_of_none hp, hc]
    | some p =>
      rw [renderGroup_of_some (hsame.trans hp), renderGroup_of_some hp, hc, Fallback.of_enabled h,
        if_neg (hne p hp)]
  · rw [renderGroup_of_some hp, Fallback.of_disabled h ht hoff hf]
    rfl
  · rw [renderGroup_of_some hp', hc, Fallback.of_enabled h, if_pos hf]
    rfl

end

/-- Making a tool available changes what it should and no more. The headings stay. The tool becomes
the primary one of its group if there was none or if it comes first, and no other group gets another
primary tool. A section that keeps its primary tool stays as it is, but for a fallback line that now
names the tool. -/
theorem enabling_confined {r : Registry} (hr : r.Reachable) {t : Tool} (ht : t ∈ r.records)
    (hoff : t.available = false) :
    let r' := (r.register t.enabled).1
    (r.register t.enabled).2 = some t ∧
    (r'.groups.map fun g => "## " ++ g.capability.title ++ " Tools\n\n") =
      r.groups.map (fun g => "## " ++ g.capability.title ++ " Tools\n\n") ∧
    List.Forall₂ (Enables r t) r.groups r'.groups := by
  intro r'
  have h := hr.coherent
  obtain ⟨before, after, hrecords⟩ := List.append_of_mem ht
  have hrecords' : r'.records = before ++ t.enabled :: after :=
    h.records_insert_of_append hrecords rfl
  have hgroups : List.Forall₂ (Enables r t) r.groups r'.groups := by
    rw [Registry.groups, Registry.groups, Group.ofRecords_eq, Group.ofRecords_eq, hrecords',
      Group.capabilities_enabled, ← hrecords, List.forall₂_map_left_iff, List.forall₂_map_right_iff,
      List.forall₂_same]
    intro c _
    apply enables_of_admits h ht hoff
    have hn : ((before ++ t :: after).map Tool.name).Nodup := hrecords ▸ h.nodup
    exact hrecords ▸ Group.admits_among hoff hn c
  have hcaps : r'.groups.map Group.capability = r.groups.map Group.capability := by
    rw [Registry.groups, Registry.groups, Group.map_capability_ofRecords,
      Group.map_capability_ofRecords, hrecords', Group.capabilities_enabled, ← hrecords]
  refine ⟨?_, ?_, hgroups⟩
  · rw [Registry.snd_register]
    exact (h.get?_eq_some_iff _ _).mpr ⟨ht, rfl⟩
  · have hheadings := congrArg (List.map fun c => "## " ++ c.title ++ " Tools\n\n") hcaps
    rwa [List.map_map, List.map_map] at hheadings

theorem enabling_confined_spare :
    let spare : Tool := { name := "spare", capability := .debug }
    let crash : Tool :=
      { name := "crash", capability := .debug, available := true, fallback := some "spare" }
    let zen : Tool :=
      { name := "zen", capability := .planning, available := true, fallback := some "spare" }
    let r := Registry.ofList [zen, spare, crash]
    let r' := (r.register spare.enabled).1
    r.Reachable ∧ spare ∈ r.records ∧ spare.available = false ∧
      r'.groups.map Group.primary? = [some zen, some spare.enabled] ∧
      renderGroup r' ⟨.planning, [zen]⟩ =
        "## Planning Tools\n\n**Primary**: \x60zen\x60\n\n**Fallback**: \x60spare\x60\n\n" := by
  intro spare crash zen r r'
  have hr : r.Reachable := Registry.reachable_ofList _
  have ht : spare ∈ r.records := by decide
  obtain ⟨-, -, hgroups⟩ := enabling_confined hr ht rfl
  have hold : r.groups = [⟨.planning, [zen]⟩, ⟨.debug, [spare, crash]⟩] := by decide
  have hnew : r'.groups = [⟨.planning, [zen]⟩, ⟨.debug, [spare.enabled, crash]⟩] := by decide
  change List.Forall₂ _ r.groups r'.groups at hgroups
  rw [hold, hnew, List.forall₂_cons] at hgroups
  have hsection := (hgroups.1.named zen rfl rfl rfl).2
  exact ⟨hr, ht, rfl, by decide, hsection.trans (by decide +kernel)⟩

end Strategy
end ToolRoster
