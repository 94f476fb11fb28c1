import ToolRoster.Proofs.Registry.Index
import ToolRoster.Proofs.Registry.Partition
/-!
# The groups of a registry

Grouping takes a registry apart and loses nothing of it. Names are unique, so no record comes twice,
and each one is found in one place of one group.
-/
namespace ToolRoster
namespace Group

/-- Groups that take a list of records apart by capability and keep its order. -/
structure Partition (ts : List Tool) (gs : List Group) : Prop where
  nodup : (gs.map Group.capability).Nodup
  ordered : gs.Pairwise fun g h =>
    (ts.map Tool.capability).idxOf g.capability < (ts.map Tool.capability).idxOf h.capability
  nonempty : ∀ g ∈ gs, g.tools ≠ []
  tools_eq : ∀ g ∈ gs, g.tools = ts.filter fun t => t.capability = g.capability
  once : ∀ t ∈ ts, ∃ g ∈ gs, g.tools.count t = 1 ∧ ∀ h ∈ gs, t ∈ h.tools → h = g
  perm : (gs.flatMap Group.tools).Perm ts

theorem map_capability_ofRecords (ts : List Tool) :
    (ofRecords ts).map Group.capability = capabilities ts := by
  rw [ofRecords_eq, List.map_map]
  exact List.map_id _

theorem eq_among_of_mem {ts : List Tool} {g : Group} (hg : g ∈ ofRecords ts) :
    g.capability ∈ ts.map Tool.capability ∧ g = among ts g.capability := by
  rw [ofRecords_eq] at hg
  obtain ⟨c, hc, rfl⟩ := List.mem_map.mp hg
  exact ⟨(mem_capabilities ts c).mp hc, rfl⟩

theorem among_mem_ofRecords {ts : List Tool} {t : Tool} (ht : t ∈ ts) :
    among ts t.capability ∈ ofRecords ts := by
  rw [ofRecords_eq]
  exact List.mem_map_of_mem ((mem_capabilities ts _).mpr (List.mem_map_of_mem ht))

theorem perm_flatMap_among {cs : List Capability} (hcs : cs.Nodup) {ts : List Tool}
    (hall : ∀ t ∈ ts, t.capability ∈ cs) : (cs.flatMap fun c => (among ts c).tools).Perm ts := by
  induction cs generalizing ts with
  | nil =>
    obtain rfl : ts = [] :=
      List.eq_nil_iff_forall_not_mem.mpr fun t ht => List.not_mem_nil (hall t ht)
    rfl
  | cons c cs ih =>
    obtain ⟨hc, hcs⟩ := List.nodup_cons.mp hcs
    let others := ts.filter fun t => t.capability ≠ c
    have hothers : ∀ t ∈ others, t.capability ∈ cs := by
      intro t ht
      obtain ⟨hmem, hne⟩ := List.mem_filter.mp ht
      exact (List.mem_cons.mp (hall t hmem)).resolve_left (of_decide_eq_true hne)
    -- The groups to come hold nothing of this one, so they can be taken from the others alone.
    have hlater : (cs.flatMap fun d => (among ts d).tools) =
        cs.flatMap fun d => (among others d).tools := by
      refine List.flatMap_congr fun d hd => ?_
      have hdc : d ≠ c := fun he => hc (he ▸ hd)
      simp only [among, others, List.filter_filter]
      refine List.filter_congr fun t _ => ?_
      by_cases ht : t.capability = d
      · simp [ht, hdc]
      · simp [ht]
    have hsplit : ((among ts c).tools ++ others).Perm ts := by
      simpa [among, others] using List.filter_append_perm (fun t : Tool => t.capability = c) ts
    rw [List.flatMap_cons, hlater]
    exact ((ih hcs hothers).append_left _).trans hsplit

theorem perm_ofRecords (ts : List Tool) : ((ofRecords ts).flatMap Group.tools).Perm ts := by
  rw [ofRecords_eq, List.flatMap_map]
  exact perm_flatMap_among (nodup_capabilities ts) fun t ht =>
    (mem_capabilities ts _).mpr (List.mem_map_of_mem ht)

end Group

namespace Registry

theorem Coherent.nodup_records {r : Registry} (h : r.Coherent) : r.records.Nodup :=
  List.Nodup.of_map _ h.nodup

/-- The groups of a registry are the stable partition of its records by capability. -/
theorem Reachable.partition_groups {r : Registry} (hr : r.Reachable) :
    Group.Partition r.records r.groups := by
  have hcaps := Group.map_capability_ofRecords r.records
  refine ⟨?_, ?_, fun g hg => ?_, fun g hg => ?_, fun t ht => ?_, Group.perm_ofRecords r.records⟩
  · rw [groups, hcaps]
    exact Group.nodup_capabilities r.records
  · have hordered := FirstOccurrence.pairwise_idxOf_eraseDups (r.records.map Tool.capability)
    change (Group.capabilities r.records).Pairwise _ at hordered
    rw [← hcaps, List.pairwise_map] at hordered
    exact hordered
  · obtain ⟨hmem, hg⟩ := Group.eq_among_of_mem hg
    obtain ⟨t, ht, hc⟩ := List.mem_map.mp hmem
    rw [hg]
    exact List.ne_nil_of_mem (List.mem_filter.mpr ⟨ht, decide_eq_true hc⟩)
  · obtain ⟨-, hg⟩ := Group.eq_among_of_mem hg
    rw [hg]
    rfl
  · refine ⟨_, Group.among_mem_ofRecords ht, ?_, fun g hg hmem => ?_⟩
    · exact List.count_eq_one_of_mem (hr.coherent.nodup_records.filter _)
        (List.mem_filter.mpr ⟨ht, decide_eq_true rfl⟩)
    · obtain ⟨-, hg⟩ := Group.eq_among_of_mem hg
      rw [hg] at hmem
      have hc : t.capability = g.capability := of_decide_eq_true (List.mem_filter.mp hmem).2
      rw [hg, hc]

theorem partition_groups_builtin :
    builtin.Reachable ∧ Group.Partition builtin.records builtin.groups ∧
      builtin.groups.map Group.capability = Capability.all ∧
      builtin.groups.map (fun g => g.tools.length) = [2, 2, 2, 2, 1] := by
  have hr := reachable_ofList builtinRecords
  exact ⟨hr, hr.partition_groups, by decide, by decide⟩

end Registry
end ToolRoster
