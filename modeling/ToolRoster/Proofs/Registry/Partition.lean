import ToolRoster.Registry.Group
import ToolRoster.Proofs.FirstOccurrence
/-!
# Groups as a partition

Records are placed one by one, each at the end of its group. The outcome needs no placing: it is the
list of capabilities in order of first occurrence, each with all of its records.
-/
namespace ToolRoster.Group

def capabilities (ts : List Tool) : List Capability := (ts.map Tool.capability).eraseDups

def among (ts : List Tool) (c : Capability) : Group := ⟨c, ts.filter fun t => t.capability = c⟩

theorem capability_among (ts : List Tool) (c : Capability) : (among ts c).capability = c := rfl

theorem among_concat_self (ts : List Tool) (t : Tool) :
    among (ts ++ [t]) t.capability = ⟨t.capability, (among ts t.capability).tools ++ [t]⟩ := by
  simp [among]

theorem among_concat_of_ne {t : Tool} {c : Capability} (hc : t.capability ≠ c) (ts : List Tool) :
    among (ts ++ [t]) c = among ts c := by
  simp [among, hc]

theorem mem_capabilities (ts : List Tool) (c : Capability) :
    c ∈ capabilities ts ↔ c ∈ ts.map Tool.capability :=
  List.mem_eraseDups

theorem nodup_capabilities (ts : List Tool) : (capabilities ts).Nodup :=
  FirstOccurrence.nodup_eraseDups _

theorem place_of_forall_ne {t : Tool} {gs : List Group}
    (h : ∀ g ∈ gs, g.capability ≠ t.capability) : place t gs = gs ++ [⟨t.capability, [t]⟩] := by
  induction gs with
  | nil => rfl
  | cons g gs ih =>
    obtain ⟨hg, hgs⟩ := List.forall_mem_cons.mp h
    rw [place, if_neg hg, ih hgs, List.cons_append]

theorem place_map_among {t : Tool} (ts : List Tool) {cs : List Capability} (hcs : cs.Nodup)
    (ht : t.capability ∈ cs) : place t (cs.map (among ts)) = cs.map (among (ts ++ [t])) := by
  induction cs with
  | nil => exact absurd ht List.not_mem_nil
  | cons c cs ih =>
    obtain ⟨hc, hcs⟩ := List.nodup_cons.mp hcs
    rw [List.map_cons, List.map_cons, place, capability_among]
    by_cases he : c = t.capability
    · subst he
      have hrest : cs.map (among (ts ++ [t])) = cs.map (among ts) :=
        List.map_congr_left fun d hd => among_concat_of_ne (fun he => hc (he ▸ hd)) ts
      rw [if_pos rfl, hrest, among_concat_self]
    · rw [if_neg he, among_concat_of_ne (Ne.symm he),
        ih hcs ((List.mem_cons.mp ht).resolve_left (Ne.symm he))]

theorem ofRecords_eq (ts : List Tool) : ofRecords ts = (capabilities ts).map (among ts) := by
  induction ts using List.reverseRecOn with
  | nil => rfl
  | append_singleton ts t ih =>
    have hstep : ofRecords (ts ++ [t]) = place t (ofRecords ts) := by
      simp only [ofRecords, List.foldl_append, List.foldl_cons, List.foldl_nil]
    have hcaps : capabilities (ts ++ [t]) = if t.capability ∈ ts.map Tool.capability
        then capabilities ts else capabilities ts ++ [t.capability] := by
      rw [capabilities, List.map_append, List.map_singleton, FirstOccurrence.eraseDups_concat]
      rfl
    rw [hstep, ih, hcaps]
    -- Either the record joins a group that is there, or all groups stay and it starts a new one.
    split_ifs with ht
    · exact place_map_among ts (nodup_capabilities ts) ((mem_capabilities ts _).mpr ht)
    · have hne : ∀ c ∈ capabilities ts, t.capability ≠ c := fun c hc he =>
        ht (he ▸ (mem_capabilities ts c).mp hc)
      have hold : (capabilities ts).map (among (ts ++ [t])) = (capabilities ts).map (among ts) :=
        List.map_congr_left fun c hc => among_concat_of_ne (hne c hc) ts
      have hnone : (among ts t.capability).tools = [] := by
        rw [among, List.filter_eq_nil_iff]
        intro u hu he
        exact ht (List.mem_map.mpr ⟨u, hu, of_decide_eq_true he⟩)
      rw [place_of_forall_ne, List.map_append, List.map_singleton, hold, among_concat_self, hnone,
        List.nil_append]
      intro g hg
      obtain ⟨c, hc, rfl⟩ := List.mem_map.mp hg
      exact Ne.symm (hne c hc)

end ToolRoster.Group
