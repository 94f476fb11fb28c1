import Mathlib.Data.List.Nodup
import ToolRoster.Proofs.FirstOccurrence
import ToolRoster.Proofs.Registry.Index
/-!
# The order of a registry

A collected registry stands for an ordered map: a name keeps the place of its first record, and the
place holds the last one. The place and the content come from different ends of the list, and
nothing else of the list matters.
-/
namespace ToolRoster.Registry

def firstNames (ts : List Tool) : List String := (ts.map Tool.name).eraseDups

def last? (ts : List Tool) (n : String) : Option Tool := ts.reverse.find? fun t => t.name = n

theorem last?_concat (ts : List Tool) (t : Tool) :
    last? (ts ++ [t]) = Function.update (last? ts) t.name (some t) := by
  funext n
  rw [last?, List.reverse_append, List.reverse_singleton, List.singleton_append, List.find?_cons]
  by_cases hn : t.name = n
  · subst hn
    simp
  · rw [Function.update_of_ne (Ne.symm hn)]
    simp [hn, last?]

theorem last?_eq_none_iff (ts : List Tool) (n : String) :
    last? ts n = none ↔ n ∉ firstNames ts := by
  simp [last?, firstNames]

theorem names_ofList (ts : List Tool) : (ofList ts).names = firstNames ts := by
  induction ts using List.reverseRecOn with
  | nil => rfl
  | append_singleton ts t ih =>
    have h := coherent_ofList ts
    have hmem := mem_names_ofList ts t.name
    rw [ofList_concat, firstNames, List.map_append, List.map_singleton,
      FirstOccurrence.eraseDups_concat]
    split_ifs with ht
    · rw [h.names_insert_of_mem (hmem.mpr ht), ih, firstNames]
    · rw [h.names_insert_of_not_mem (fun hn => ht (hmem.mp hn)), ih, firstNames]

section
variable {r : Registry} (h : r.Coherent)
include h

theorem Coherent.records_insert_of_not_mem {t : Tool} (ht : t.name ∉ r.names) :
    (r.insert t).records = r.records ++ [t] := by
  rw [insert, register_of_none ((h.position?_eq_none_iff _).mpr ht)]

theorem Coherent.records_insert_of_getElem? {t : Tool} {i : Nat} (hi : r.names[i]? = some t.name) :
    (r.insert t).records = r.records.set i t := by
  rw [insert, register_of_some ((h.position?_eq_some_iff _ _).mpr hi)]

theorem Coherent.records_insert_of_append {before after : List Tool} {old t : Tool}
    (hr : r.records = before ++ old :: after) (he : old.name = t.name) :
    (r.insert t).records = before ++ t :: after := by
  have hi : r.names[before.length]? = some t.name := by simp [names, hr, he]
  rw [h.records_insert_of_getElem? hi, hr]
  simp

theorem Coherent.mem_records_insert (t u : Tool) :
    u ∈ (r.insert t).records ↔ u = t ∨ u ∈ r.records ∧ u.name ≠ t.name := by
  by_cases ht : t.name ∈ r.names
  · obtain ⟨old, hold, he⟩ := List.mem_map.mp ht
    obtain ⟨before, after, hr⟩ := List.append_of_mem hold
    have hothers : ∀ v ∈ before ++ after, v.name ≠ t.name := by
      have hnodup := h.nodup
      rw [names, hr, List.map_append, List.map_cons, List.nodup_middle, List.nodup_cons] at hnodup
      intro v hv hname
      apply hnodup.1
      rw [he, ← hname, ← List.map_append]
      exact List.mem_map_of_mem hv
    rw [h.records_insert_of_append hr he, hr]
    grind
  · have hothers : ∀ v ∈ r.records, v.name ≠ t.name := fun v hv hname =>
      ht (hname ▸ List.mem_map_of_mem hv)
    rw [h.records_insert_of_not_mem ht]
    grind

theorem Coherent.get?_insert (t : Tool) (n : String) :
    (r.insert t).get? n = if n = t.name then some t else r.get? n := by
  have h' := coherent_insert h t
  split_ifs with hn
  · exact (h'.get?_eq_some_iff n t).mpr ⟨(h.mem_records_insert t t).mpr (Or.inl rfl), hn.symm⟩
  · ext u
    rw [h'.get?_eq_some_iff, h.get?_eq_some_iff, h.mem_records_insert]
    grind

theorem Coherent.eq_of_records {s : Registry} (hs : s.Coherent) (he : r.records = s.records) :
    r = s := by
  have hp : r.positions = s.positions := by
    rw [h.positions_eq, hs.positions_eq, names, names, he]
  cases r
  cases s
  simp only at he hp
  rw [he, hp]

theorem Coherent.fresh_cons {t : Tool} {ts : List Tool}
    (hn : (r.names ++ (t :: ts).map Tool.name).Nodup) :
    t.name ∉ r.names ∧ ((r.insert t).names ++ ts.map Tool.name).Nodup := by
  have ht : t.name ∉ r.names := fun hmem => hn.disjoint hmem List.mem_cons_self
  refine ⟨ht, ?_⟩
  rw [h.names_insert_of_not_mem ht]
  simpa using hn

theorem Coherent.records_foldl_insert {ts : List Tool}
    (hn : (r.names ++ ts.map Tool.name).Nodup) :
    (ts.foldl insert r).records = r.records ++ ts := by
  induction ts generalizing r with
  | nil => rw [List.foldl_nil, List.append_nil]
  | cons t ts ih =>
    obtain ⟨ht, hts⟩ := h.fresh_cons hn
    rw [List.foldl_cons, ih (coherent_insert h t) hts, h.records_insert_of_not_mem ht,
      List.append_assoc, List.singleton_append]

end

theorem records_ofList_of_nodup {ts : List Tool} (h : (ts.map Tool.name).Nodup) :
    (ofList ts).records = ts := by
  rw [ofList, coherent_empty.records_foldl_insert h]
  rfl

theorem records_ofList (ts : List Tool) :
    (ofList ts).records.map some = (firstNames ts).map (last? ts) := by
  induction ts using List.reverseRecOn with
  | nil => rfl
  | append_singleton ts t ih =>
    have h := coherent_ofList ts
    rw [← names_ofList] at ih ⊢
    -- The names have no repeats, so updating the map by one name sets one place.
    rw [ofList_concat, last?_concat]
    by_cases ht : t.name ∈ (ofList ts).names
    · have hi : (ofList ts).names[(ofList ts).names.idxOf t.name]? = some t.name := by
        rw [List.getElem?_eq_getElem (List.idxOf_lt_length_of_mem ht), List.getElem_idxOf]
      rw [h.names_insert_of_mem ht, h.nodup.map_update, if_pos ht, ← ih, ← List.map_set,
        h.records_insert_of_getElem? hi]
    · rw [h.names_insert_of_not_mem ht, h.records_insert_of_not_mem ht, List.map_append,
        List.map_append, h.nodup.map_update, if_neg ht, ih]
      simp

theorem records_ofList_eq_iff (xs ys : List Tool) :
    (ofList xs).records = (ofList ys).records ↔
      firstNames xs = firstNames ys ∧ ∀ n, last? xs n = last? ys n := by
  constructor
  · intro he
    have hn : firstNames xs = firstNames ys := by
      rw [← names_ofList, ← names_ofList, names, names, he]
    refine ⟨hn, fun n => ?_⟩
    have hmap : (firstNames xs).map (last? xs) = (firstNames xs).map (last? ys) := by
      rw [← records_ofList, he, records_ofList, hn]
    by_cases hmem : n ∈ firstNames xs
    · exact List.map_inj_left.mp hmap n hmem
    · rw [(last?_eq_none_iff xs n).mpr hmem, (last?_eq_none_iff ys n).mpr (hn ▸ hmem)]
  · rintro ⟨hn, hl⟩
    apply (List.map_injective_iff.mpr (Option.some_injective Tool))
    rw [records_ofList, records_ofList, hn, funext hl]

theorem ofList_append_self (xs : List Tool) : ofList (xs ++ xs) = ofList xs := by
  apply (coherent_ofList _).eq_of_records (coherent_ofList _)
  rw [records_ofList_eq_iff]
  constructor
  · have hnone : (xs.map Tool.name).removeAll (xs.map Tool.name) = [] := by
      simp only [List.removeAll, List.filter_eq_nil_iff, Bool.not_eq_true', Bool.not_eq_false,
        List.elem_eq_mem, decide_eq_true_eq]
      exact fun n hn => hn
    rw [firstNames, List.map_append, List.eraseDups_append, hnone, List.eraseDups_nil,
      List.append_nil, firstNames]
  · intro n
    simp [last?]

theorem Reachable.ofList_records {r : Registry} (hr : r.Reachable) : ofList r.records = r := by
  apply (coherent_ofList _).eq_of_records hr.coherent
  exact records_ofList_of_nodup hr.coherent.nodup

/-- A registry is an ordered map. Collecting gives each name the place of its first record and the
content of its last, and registering one more record changes one place at most. -/
theorem first_place_last_content (xs ys : List Tool) {r : Registry} (hr : r.Reachable) (t : Tool) :
    ((ofList xs).names = firstNames xs ∧
      (ofList xs).records.map some = (firstNames xs).map (last? xs)) ∧
    ((r.register t).2 = r.get? t.name ∧
      (t.name ∉ r.names →
        r.get? t.name = none ∧ (r.register t).1.records = r.records ++ [t]) ∧
      ∀ i (hi : i < r.records.length), r.records[i].name = t.name →
        r.get? t.name = some r.records[i] ∧ (r.register t).1.records = r.records.set i t) ∧
    ((ofList xs).records = (ofList ys).records ↔
      firstNames xs = firstNames ys ∧ ∀ n, last? xs n = last? ys n) ∧
    ofList (xs ++ xs) = ofList xs ∧
    ofList r.records = r := by
  have h := hr.coherent
  refine ⟨⟨names_ofList xs, records_ofList xs⟩, ⟨snd_register r t, fun ht => ?_, fun i hi he => ?_⟩,
    records_ofList_eq_iff xs ys, ofList_append_self xs, hr.ofList_records⟩
  · exact ⟨(h.get?_eq_none_iff _).mpr ht, h.records_insert_of_not_mem ht⟩
  · have hn : r.names[i]? = some t.name := by
      rw [names, List.getElem?_map, List.getElem?_eq_getElem hi, Option.map_some, he]
    exact ⟨(h.get?_eq_some_iff _ _).mpr ⟨List.getElem_mem hi, he⟩,
      h.records_insert_of_getElem? hn⟩

theorem first_place_last_content_crash :
    let crash : Tool := { name := "crash", capability := .reasoning }
    let backup : Tool := { name := "backup", capability := .debug, fallback := some "crash" }
    let better : Tool := { crash with available := true, useCases := ["any"] }
    (ofList [crash, backup]).Reachable ∧
      (ofList [crash, backup, better]).records.map some = [some better, some backup] ∧
      ((ofList [crash, backup]).register better).2 = some crash ∧
      ((ofList [crash, backup]).register better).1.records = [better, backup] := by
  intro crash backup better
  have hr := reachable_ofList [crash, backup]
  obtain ⟨⟨-, hrecords⟩, ⟨hold, -, hset⟩, -⟩ :=
    first_place_last_content [crash, backup, better] [] hr better
  obtain ⟨hget, hplace⟩ := hset 0 (by decide) rfl
  exact ⟨hr, hrecords, hold.trans hget, hplace⟩

end ToolRoster.Registry
