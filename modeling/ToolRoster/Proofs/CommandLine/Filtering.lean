import ToolRoster.CommandLine.Run
import ToolRoster.Proofs.Availability.Reading
import ToolRoster.Proofs.Registry.Grouping
import ToolRoster.Proofs.Registry.Order
import ToolRoster.Proofs.Strategy.Document
/-!
# Listing the tools of one capability

A filtered listing is made of a registry that is collected anew from some of the records. Names are
unique, so collecting replaces nothing, and what is listed is one group of the registry with the
entries that the full listing has.
-/
namespace ToolRoster.CommandLine
open Availability (Entry entries)

/-- What a filtered registry `s` keeps of a registry `r`. -/
structure Narrows (r : Registry) (c : Capability) (s : Registry) : Prop where
  tools : ∀ g ∈ r.groups, g.capability = c → s.records = g.tools
  no_tools : (∀ g ∈ r.groups, g.capability ≠ c) → s.records = []
  sublist : (entries s).Sublist (entries r)
  fallback_line : ∀ t ∈ s.records, ∀ f, t.fallback = some f → (Entry.of t).text =
    "- " ++ t.name ++ ": " ++ Availability.status t.available ++ "\n" ++ ("  Fallback: " ++ f ++ "\n")
  leads : ∀ g ∈ r.groups, g.capability = c →
    match (entries s).find? Entry.available with
    | none => Strategy.renderGroup r g = "## " ++ c.title ++ " Tools\n\n" ++
        ("⚠️ No tools available - manual " ++ c.word ++ " required\n\n")
    | some e => ∃ p, g.primary? = some p ∧ e = Entry.of p ∧ Strategy.renderGroup r g =
        "## " ++ c.title ++ " Tools\n\n" ++ ("**Primary**: \x60" ++ p.name ++ "\x60\n\n") ++
          Strategy.situationsOf p ++ Strategy.fallbackOf r.records c p

section
variable {r : Registry} (h : r.Coherent)
include h

theorem nodup_filter (c : Capability) :
    ((r.records.filter fun t => t.capability = c).map Tool.name).Nodup :=
  h.nodup.sublist (List.filter_sublist.map Tool.name)

theorem records_filtered (c : Capability) :
    (filtered r (some c)).records = (Group.among r.records c).tools :=
  Registry.records_ofList_of_nodup (nodup_filter h c)

theorem register_filter {c : Capability} {before after : List Tool} {t : Tool}
    (hsplit : (r.records.filter fun t => t.capability = c) = before ++ t :: after) :
    ((Registry.ofList before).register t).2 = none := by
  have hnodup := nodup_filter h c
  rw [hsplit, List.map_append, List.map_cons] at hnodup
  rw [Registry.snd_register, (Registry.coherent_ofList before).get?_eq_none_iff,
    Registry.mem_names_ofList]
  exact fun hmem => hnodup.disjoint hmem List.mem_cons_self

theorem records_filtered_of_mem {g : Group} (hg : g ∈ r.groups) :
    (filtered r (some g.capability)).records = g.tools := by
  obtain ⟨-, hamong⟩ := Group.eq_among_of_mem hg
  rw [records_filtered h, ← hamong]

theorem records_filtered_of_forall_ne {c : Capability} (hc : ∀ g ∈ r.groups, g.capability ≠ c) :
    (filtered r (some c)).records = [] := by
  rw [records_filtered h, Group.among, List.filter_eq_nil_iff]
  intro t ht he
  exact hc _ (Group.among_mem_ofRecords ht) (of_decide_eq_true he)

theorem find?_entries_filtered {g : Group} (hg : g ∈ r.groups) :
    (entries (filtered r (some g.capability))).find? Entry.available = g.primary?.map Entry.of := by
  rw [entries, records_filtered_of_mem h hg, List.find?_map]
  rfl

theorem narrows_filtered (c : Capability) : Narrows r c (filtered r (some c)) := by
  refine ⟨fun g hg hc => hc ▸ records_filtered_of_mem h hg, records_filtered_of_forall_ne h, ?_,
    fun t _ f hf => ?_, fun g hg hc => ?_⟩
  · rw [entries, records_filtered h]
    exact List.filter_sublist.map Entry.of
  · simp only [Entry.text, Entry.of, hf, Availability.fallbackLine]
  · subst hc
    rw [find?_entries_filtered h hg]
    cases hp : g.primary? with
    | none => exact Strategy.renderGroup_of_none hp
    | some p =>
      have hsection := Strategy.renderGroup_of_some (r := r) hp
      rw [Strategy.text_fallback h] at hsection
      exact ⟨p, rfl, rfl, hsection⟩

theorem perm_entries_filtered :
    (Capability.all.flatMap fun c => entries (filtered r (some c))).Perm (entries r) := by
  have hentries : (Capability.all.flatMap fun c => entries (filtered r (some c))) =
      (Capability.all.flatMap fun c => (Group.among r.records c).tools).map Entry.of := by
    rw [List.map_flatMap]
    exact List.flatMap_congr fun c _ => by rw [entries, records_filtered h]
  rw [hentries]
  exact (Group.perm_flatMap_among (by decide) fun t _ => t.capability.mem_all).map Entry.of

theorem count_entries_filtered {t : Tool} (ht : t ∈ r.records) (c : Capability) :
    (entries (filtered r (some c))).count (Entry.of t) = if c = t.capability then 1 else 0 := by
  -- An entry shows the name of its record, so no other record has the same one.
  have hname : (Entry.name ∘ Entry.of) = Tool.name := rfl
  have hnodup : (entries (filtered r (some c))).Nodup := by
    apply List.Nodup.of_map Entry.name
    rw [entries, List.map_map, hname, records_filtered h]
    exact nodup_filter h c
  rw [hnodup.count]
  refine if_congr ?_ rfl rfl
  rw [entries, records_filtered h, List.mem_map]
  constructor
  · rintro ⟨u, hu, he⟩
    obtain ⟨hmem, hc⟩ := List.mem_filter.mp hu
    obtain rfl := List.inj_on_of_nodup_map h.nodup hmem ht (congrArg Entry.name he)
    exact (of_decide_eq_true hc).symm
  · rintro rfl
    exact ⟨t, List.mem_filter.mpr ⟨ht, decide_eq_true rfl⟩, rfl⟩

theorem unbroken_filtered (hunbroken : Availability.Unbroken r) (c : Capability) :
    Availability.Unbroken (filtered r (some c)) := by
  intro t ht
  rw [records_filtered h] at ht
  exact hunbroken t (List.mem_of_mem_filter ht)

end

/-- The filter agrees with the groups and loses nothing. It keeps the tools of one group, none of
which replaces another, with the entries that they have in the full listing. The first available one
is the primary tool. Over all capabilities every record has its entry in one filtered listing, and
unless texts break the lines it is read back from there. -/
theorem filter_agrees {r : Registry} (hr : r.Reachable) :
    (∀ s, Availability.render s = Availability.heading ++ String.join ((entries s).map Entry.text)) ∧
    (∀ c, Narrows r c (filtered r (some c))) ∧
    (∀ c before t after, (r.records.filter fun t => t.capability = c) = before ++ t :: after →
      ((Registry.ofList before).register t).2 = none) ∧
    (Capability.all.flatMap fun c => entries (filtered r (some c))).Perm (entries r) ∧
    (∀ t ∈ r.records, ∀ c,
      (entries (filtered r (some c))).count (Entry.of t) = if c = t.capability then 1 else 0) ∧
    (Availability.Unbroken r → ∀ c, Availability.readListing
      (Availability.render (filtered r (some c))) = entries (filtered r (some c))) := by
  have h := hr.coherent
  refine ⟨Availability.render_eq_entries, narrows_filtered h, fun c before t after hsplit => ?_,
    perm_entries_filtered h, fun t ht c => count_entries_filtered h ht c, fun hunbroken c => ?_⟩
  · exact register_filter h hsplit
  · exact Availability.readListing_render (unbroken_filtered h hunbroken c)

theorem filter_agrees_elsewhere :
    let crash : Tool :=
      { name := "crash", capability := .debug, available := true, fallback := some "zen" }
    let zen : Tool := { name := "zen", capability := .planning }
    let spare : Tool := { name := "spare", capability := .debug, available := true }
    let r := Registry.ofList [crash, zen, spare]
    let s := filtered r (some .debug)
    r.Reachable ∧ Availability.Unbroken r ∧ s.records = [crash, spare] ∧
      s.contains "zen" = false ∧ (entries s).count (Entry.of zen) = 0 ∧
      Availability.readListing (Availability.render s) = [Entry.of crash, Entry.of spare] := by
  intro crash zen spare r s
  have hr : r.Reachable := Registry.reachable_ofList _
  have hunbroken : Availability.Unbroken r := by decide
  obtain ⟨-, hnarrows, -, -, hcount, hread⟩ := filter_agrees hr
  have hrecords : s.records = [crash, spare] :=
    (hnarrows .debug).tools ⟨.debug, [crash, spare]⟩ (by decide) rfl
  refine ⟨hr, hunbroken, hrecords, by decide, hcount zen (by decide) .debug, ?_⟩
  rw [hread hunbroken, entries, hrecords]
  rfl

end ToolRoster.CommandLine
