import ToolRoster.Registry.Fallback
import ToolRoster.Proofs.Registry.Index
/-!
# Fallbacks by a scan

Whether a fallback is registered is looked up in the index. A scan of the records finds the same.
-/
namespace ToolRoster.Registry

/-- Every declared fallback names a record. -/
def Resolves (r : Registry) : Prop :=
  ∀ t ∈ r.records, ∀ f, t.fallback = some f → ∃ u ∈ r.records, u.name = f

/-- The records whose fallback names no record, with that fallback. -/
def unresolved (r : Registry) : List Dangling :=
  r.records.filterMap fun t =>
    (t.fallback.filter fun f => r.records.all fun u => u.name ≠ f).map fun f => ⟨t.name, f⟩

theorem Coherent.contains_iff_exists {r : Registry} (h : r.Coherent) (n : String) :
    r.contains n = true ↔ ∃ u ∈ r.records, u.name = n := by
  rw [h.contains_iff, names, List.mem_map]

theorem Coherent.dangling_eq {r : Registry} (h : r.Coherent) : r.dangling = r.unresolved := by
  apply List.filterMap_congr
  intro t _
  cases hf : t.fallback with
  | none => simp [danglingOf?, hf]
  | some f =>
    have hall : (r.records.all fun u => u.name ≠ f) = !r.contains f := by
      rw [Bool.eq_iff_iff, Bool.not_eq_true', ← Bool.not_eq_true, h.contains_iff_exists]
      simp
    simp only [danglingOf?, hf, Option.filter_some, hall]
    cases r.contains f <;> rfl

section
variable {r : Registry} (h : r.Coherent)
include h

theorem Coherent.danglingOf?_eq_none_iff (t : Tool) :
    r.danglingOf? t = none ↔ ∀ f, t.fallback = some f → ∃ u ∈ r.records, u.name = f := by
  unfold danglingOf?
  cases t.fallback with
  | none => simp
  | some f => simp [← h.contains_iff_exists]

theorem Coherent.danglingOf?_eq_some_iff (t : Tool) (d : Dangling) : r.danglingOf? t = some d ↔
    t.name = d.tool ∧ t.fallback = some d.fallback ∧ ∀ u ∈ r.records, u.name ≠ d.fallback := by
  have hnone : ∀ f, (∀ u ∈ r.records, u.name ≠ f) ↔ r.contains f = false := by
    intro f
    rw [← Bool.not_eq_true, h.contains_iff_exists]
    simp
  rw [hnone]
  unfold danglingOf?
  cases t.fallback with
  | none => simp
  | some f =>
    cases hf : r.contains f with
    | true => grind
    | false => cases d; grind

theorem Coherent.dangling_eq_nil_iff : r.dangling = [] ↔ r.Resolves := by
  rw [dangling, List.filterMap_eq_nil_iff]
  exact forall₂_congr fun t _ => h.danglingOf?_eq_none_iff t

theorem Coherent.mem_dangling_iff {t : Tool} (ht : t ∈ r.records) {f : String}
    (hf : t.fallback = some f) : ⟨t.name, f⟩ ∈ r.dangling ↔ r.get? f = none := by
  rw [h.get?_eq_none_iff, names, List.mem_map, dangling, List.mem_filterMap]
  simp only [h.danglingOf?_eq_some_iff]
  constructor
  · rintro ⟨u, -, -, -, hnone⟩ ⟨v, hv, he⟩
    exact hnone v hv he
  · intro hnone
    exact ⟨t, ht, rfl, hf, fun u hu he => hnone ⟨u, hu, he⟩⟩

end

/-- The first record whose fallback names no record, with that fallback. -/
def FirstUnresolved (r : Registry) (d : Dangling) : Prop :=
  ∃ before t after, r.records = before ++ t :: after ∧
    (∀ u ∈ before, ∀ f, u.fallback = some f → ∃ v ∈ r.records, v.name = f) ∧
    t.name = d.tool ∧ t.fallback = some d.fallback ∧ ∀ v ∈ r.records, v.name ≠ d.fallback

theorem validate_eq (r : Registry) :
    r.validate = match r.dangling.head? with
      | none => .ok ()
      | some d => .error d := by
  unfold validate
  cases r.dangling <;> rfl

theorem Coherent.validate_eq_ok_iff {r : Registry} (h : r.Coherent) :
    r.validate = .ok () ↔ r.Resolves := by
  rw [← h.dangling_eq_nil_iff, validate_eq]
  cases r.dangling <;> simp

theorem Coherent.validate_eq_error_iff {r : Registry} (h : r.Coherent) (d : Dangling) :
    r.validate = .error d ↔ r.FirstUnresolved d := by
  have hhead : r.validate = .error d ↔ r.dangling.head? = some d := by
    rw [validate_eq]
    cases r.dangling <;> simp
  rw [hhead, dangling, List.head?_filterMap, List.findSome?_eq_some_iff]
  simp only [h.danglingOf?_eq_some_iff, h.danglingOf?_eq_none_iff, FirstUnresolved]
  exact exists₃_congr fun before t after => and_congr_right fun _ => and_comm

end ToolRoster.Registry
