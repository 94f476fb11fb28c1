import Mathlib.Data.Finset.Dedup
import Mathlib.Data.Finset.Card
import Mathlib.Data.List.Induction
import ToolRoster.Registry.Builtin
/-!
# The index of a registry

A registry keeps every name twice, in its record and in the index, and registration changes the two
on different branches: a known name changes the record alone, a new one extends both. They agree all
along, so a position in the index never misses and leads to the only record of its name.
-/
namespace ToolRoster.Registry

/-- A registry with all the records that ever went into it, whatever it started from. -/
inductive BuiltFrom : List Tool → Registry → Prop where
  | new : BuiltFrom [] empty
  | builtin : BuiltFrom builtinRecords builtin
  | collect (ts : List Tool) : BuiltFrom ts (ofList ts)
  | register {ts : List Tool} {r : Registry} (t : Tool) :
      BuiltFrom ts r → BuiltFrom (ts ++ [t]) (r.register t).1

theorem ofList_concat (ts : List Tool) (t : Tool) : ofList (ts ++ [t]) = (ofList ts).insert t := by
  simp only [ofList, List.foldl_append, List.foldl_cons, List.foldl_nil]

theorem BuiltFrom.eq_ofList {ts : List Tool} {r : Registry} (h : BuiltFrom ts r) :
    r = ofList ts := by
  induction h with
  | new => rfl
  | builtin => rfl
  | collect ts => rfl
  | register t _ ih => rw [ofList_concat, ← ih]; rfl

/-- The index lists the names of the records with their positions, and no name twice. -/
structure Coherent (r : Registry) : Prop where
  nodup : r.names.Nodup
  positions_eq : r.positions = r.names.zipIdx.reverse

theorem lookup_reverse_zipIdx {ns : List String} (h : ns.Nodup) (n : String) (i : Nat) :
    ns.zipIdx.reverse.lookup n = some i ↔ ns[i]? = some n := by
  -- From the right, since the newest name heads the reversed index.
  induction ns using List.reverseRecOn with
  | nil => simp
  | append_singleton ns m ih =>
    obtain ⟨hns, -, hm⟩ := List.nodup_append.mp h
    have hlast : m ∉ ns := fun hmem => hm m hmem m (by simp) rfl
    rw [List.zipIdx_append, List.reverse_append]
    simp only [List.zipIdx_singleton, List.reverse_singleton, List.singleton_append,
      List.lookup_cons, Nat.zero_add]
    by_cases hn : n = m
    · subst hn
      have hlen : ∀ hi : i < ns.length, ns[i] ≠ n := fun hi he => hlast (he ▸ List.getElem_mem hi)
      simp only [beq_self_eq_true, Option.some.injEq, List.getElem?_append]
      split_ifs with hi
      · simp only [List.getElem?_eq_getElem hi, Option.some.injEq, hlen hi, iff_false]
        omega
      · rw [List.getElem?_singleton]
        split_ifs <;> simp <;> omega
    · rw [beq_eq_false_iff_ne.mpr hn]
      simp only [ih hns, List.getElem?_append]
      split_ifs with hi
      · rfl
      · rw [List.getElem?_eq_none (by omega), List.getElem?_singleton]
        split_ifs <;> simp [Ne.symm hn]

theorem coherent_empty : Coherent empty := ⟨List.nodup_nil, rfl⟩

section
variable {r : Registry} (h : r.Coherent)
include h

theorem Coherent.position?_eq_some_iff (n : String) (i : Nat) :
    r.position? n = some i ↔ r.names[i]? = some n := by
  rw [position?, h.positions_eq, lookup_reverse_zipIdx h.nodup]

theorem Coherent.position?_eq_none_iff (n : String) : r.position? n = none ↔ n ∉ r.names := by
  rw [Option.eq_none_iff_forall_ne_some, List.mem_iff_getElem?]
  simp only [ne_eq, h.position?_eq_some_iff, not_exists]

theorem Coherent.getElem?_of_position? {n : String} {i : Nat} (hi : r.position? n = some i) :
    ∃ t, r.records[i]? = some t ∧ t.name = n := by
  have hn := (h.position?_eq_some_iff n i).mp hi
  rw [names, List.getElem?_map, Option.map_eq_some_iff] at hn
  exact hn

theorem Coherent.names_insert_of_mem {t : Tool} (ht : t.name ∈ r.names) :
    (r.insert t).names = r.names := by
  cases hp : r.position? t.name with
  | none => exact absurd ht ((h.position?_eq_none_iff _).mp hp)
  | some i =>
    obtain ⟨hi, hn⟩ := List.getElem?_eq_some_iff.mp ((h.position?_eq_some_iff _ _).mp hp)
    rw [insert, register_of_some hp]
    simp only [names, List.map_set] at hi hn ⊢
    rw [← hn, List.set_getElem_self]

theorem Coherent.names_insert_of_not_mem {t : Tool} (ht : t.name ∉ r.names) :
    (r.insert t).names = r.names ++ [t.name] := by
  rw [insert, register_of_none ((h.position?_eq_none_iff _).mpr ht)]
  simp only [names, List.map_append, List.map_cons, List.map_nil]

theorem coherent_insert (t : Tool) : (r.insert t).Coherent := by
  -- A record of a known name may differ in all else, but the index holds nothing else.
  by_cases ht : t.name ∈ r.names
  · have hnames := h.names_insert_of_mem ht
    obtain ⟨i, hi⟩ := Option.ne_none_iff_exists'.mp
      (fun hp => (h.position?_eq_none_iff _).mp hp ht)
    refine ⟨hnames ▸ h.nodup, ?_⟩
    rw [hnames, ← h.positions_eq, insert, register_of_some hi]
  · have hnames := h.names_insert_of_not_mem ht
    refine ⟨?_, ?_⟩
    · rw [hnames, ← List.concat_eq_append]
      exact h.nodup.concat ht
    · rw [hnames, insert, register_of_none ((h.position?_eq_none_iff _).mpr ht),
        h.positions_eq, List.zipIdx_append, List.reverse_append]
      simp [names]

theorem Coherent.mem_names_insert (t : Tool) (n : String) :
    n ∈ (r.insert t).names ↔ n ∈ r.names ∨ n = t.name := by
  by_cases ht : t.name ∈ r.names
  · rw [h.names_insert_of_mem ht]
    exact ⟨Or.inl, fun hn => hn.elim id fun he => he ▸ ht⟩
  · rw [h.names_insert_of_not_mem ht, List.mem_append, List.mem_singleton]

theorem Coherent.contains_iff (n : String) : r.contains n = true ↔ n ∈ r.names := by
  rw [contains, Option.isSome_iff_ne_none, ne_eq, h.position?_eq_none_iff, not_not]

theorem Coherent.get?_of_contains {n : String} (hn : r.contains n = true) :
    ∃ i t, r.position? n = some i ∧ r.records[i]? = some t ∧ t.name = n := by
  obtain ⟨i, hi⟩ := Option.isSome_iff_exists.mp hn
  obtain ⟨t, ht, he⟩ := h.getElem?_of_position? hi
  exact ⟨i, t, hi, ht, he⟩

theorem Coherent.isSome_get? (n : String) : (r.get? n).isSome = r.contains n := by
  rw [Bool.eq_iff_iff]
  constructor
  · intro hs
    obtain ⟨t, ht⟩ := Option.isSome_iff_exists.mp hs
    obtain ⟨i, hi, -⟩ := Option.bind_eq_some_iff.mp ht
    exact Option.isSome_iff_exists.mpr ⟨i, hi⟩
  · intro hc
    obtain ⟨i, t, hi, ht, -⟩ := h.get?_of_contains hc
    rw [get?, hi, Option.bind_some, ht, Option.isSome_some]

theorem Coherent.get?_eq_some_iff (n : String) (t : Tool) :
    r.get? n = some t ↔ t ∈ r.records ∧ t.name = n := by
  constructor
  · intro hg
    obtain ⟨i, hi, ht⟩ := Option.bind_eq_some_iff.mp hg
    obtain ⟨u, hu, he⟩ := h.getElem?_of_position? hi
    obtain rfl : t = u := Option.some.inj (ht.symm.trans hu)
    exact ⟨List.mem_of_getElem? ht, he⟩
  · rintro ⟨hmem, rfl⟩
    obtain ⟨i, hi⟩ := List.mem_iff_getElem?.mp hmem
    have hp : r.position? t.name = some i := by
      rw [h.position?_eq_some_iff, names, List.getElem?_map, hi, Option.map_some]
    rw [get?, hp, Option.bind_some, hi]

theorem Coherent.get?_eq_none_iff (n : String) : r.get? n = none ↔ n ∉ r.names := by
  rw [← h.contains_iff, ← h.isSome_get?]
  cases r.get? n <;> simp

theorem Coherent.get?_eq_find? (n : String) :
    r.get? n = r.records.find? fun t => t.name = n := by
  cases hf : r.records.find? fun t => t.name = n with
  | none =>
    rw [h.get?_eq_none_iff, names, List.mem_map]
    rintro ⟨t, ht, he⟩
    exact List.find?_eq_none.mp hf t ht (decide_eq_true he)
  | some t =>
    have he : t.name = n := by simpa using List.find?_some hf
    exact (h.get?_eq_some_iff n t).mpr ⟨List.mem_of_find?_eq_some hf, he⟩

end

theorem snd_register (r : Registry) (t : Tool) : (r.register t).2 = r.get? t.name := by
  cases hp : r.position? t.name with
  | none => rw [register_of_none hp, get?, hp, Option.bind_none]
  | some i => rw [register_of_some hp, get?, hp, Option.bind_some]

theorem Reachable.coherent {r : Registry} (h : r.Reachable) : r.Coherent := by
  induction h with
  | empty => exact coherent_empty
  | insert t _ ih => exact coherent_insert ih t

theorem reachable_iff_builtFrom (r : Registry) : r.Reachable ↔ ∃ ts, BuiltFrom ts r := by
  constructor
  · intro hr
    induction hr with
    | empty => exact ⟨[], .new⟩
    | insert t _ ih =>
      obtain ⟨ts, hb⟩ := ih
      exact ⟨ts ++ [t], .register t hb⟩
  · rintro ⟨ts, hb⟩
    rw [hb.eq_ofList]
    exact reachable_ofList ts

theorem coherent_ofList (ts : List Tool) : (ofList ts).Coherent := (reachable_ofList ts).coherent

theorem mem_names_ofList (ts : List Tool) (n : String) :
    n ∈ (ofList ts).names ↔ n ∈ ts.map Tool.name := by
  induction ts using List.reverseRecOn with
  | nil => rfl
  | append_singleton ts t ih =>
    rw [ofList_concat, (coherent_ofList ts).mem_names_insert, ih]
    simp only [List.map_append, List.map_cons, List.map_nil, List.mem_append, List.mem_singleton]

/-- What the index promises about a registry made of these records. -/
structure Agrees (ts : List Tool) (r : Registry) : Prop where
  position?_eq : ∀ n i, r.position? n = some i ↔ ∃ hi : i < r.records.length, r.records[i].name = n
  nodup_names : r.names.Nodup
  get?_isSome : ∀ n, (r.get? n).isSome = (r.position? n).isSome
  replaced_isSome : ∀ t, (r.register t).2.isSome = (r.position? t.name).isSome
  contains_iff : ∀ n, r.contains n = true ↔ ∃ t ∈ r.records, t.name = n
  get?_iff : ∀ n t, r.get? n = some t ↔ t ∈ r.records ∧ t.name = n
  unique : ∀ t ∈ r.records, ∀ u ∈ r.records, t.name = u.name → t = u
  size_eq : r.size = (ts.map Tool.name).toFinset.card

theorem BuiltFrom.agrees {ts : List Tool} {r : Registry} (hb : BuiltFrom ts r) : Agrees ts r := by
  obtain rfl := hb.eq_ofList
  have h := coherent_ofList ts
  refine ⟨fun n i => ?_, h.nodup, h.isSome_get?, fun t => ?_, fun n => ?_, h.get?_eq_some_iff,
    fun t ht u hu he => ?_, ?_⟩
  · rw [h.position?_eq_some_iff, List.getElem?_eq_some_iff]
    simp only [names, List.length_map, List.getElem_map]
  · rw [snd_register, h.isSome_get?, contains]
  · rw [h.contains_iff, names, List.mem_map]
  · have hg := (h.get?_eq_some_iff u.name t).mpr ⟨ht, he⟩
    rw [(h.get?_eq_some_iff u.name u).mpr ⟨hu, rfl⟩] at hg
    exact (Option.some.inj hg).symm
  · have hset : (ts.map Tool.name).toFinset = (ofList ts).names.toFinset := by
      ext n
      rw [List.mem_toFinset, List.mem_toFinset, mem_names_ofList]
    rw [hset, List.toFinset_card_of_nodup h.nodup, names, List.length_map, size]

theorem agrees_replaced_and_nameless :
    let crash : Tool := { name := "crash", capability := .debug, fallback := some "" }
    let nameless : Tool := { name := "", capability := .planning, available := true }
    let r := ((builtin.register crash).1.register nameless).1
    BuiltFrom (builtinRecords ++ [crash] ++ [nameless]) r ∧
      Agrees (builtinRecords ++ [crash] ++ [nameless]) r := by
  intro crash nameless r
  have hb := BuiltFrom.register nameless (.register crash .builtin)
  exact ⟨hb, hb.agrees⟩

end ToolRoster.Registry
