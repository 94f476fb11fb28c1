import ToolRoster.Proofs.Json.Members
/-!
# Objects that hold a record

Which objects hold a record, and which record that is, follows from the values of each field alone.
Neither the order of the members nor the members of other keys have a say in it.
-/
namespace ToolRoster
namespace Decode

def Setting.kept : Setting → Setting
  | fallback f => fallback (f.filter fun s => !s.isEmpty)
  | x => x

def Draft.get (d : Draft) : Field → Option Setting
  | .name => d.name.map .name
  | .available => d.available.map .available
  | .capability => d.capability.map .capability
  | .fallback => d.fallback.map .fallback
  | .useCases => d.useCases.map .useCases

theorem Draft.isSome_get (d : Draft) (f : Field) : (d.get f).isSome = d.holds f := by
  cases f <;> simp [get, holds]

theorem Draft.get_set (d : Draft) (x : Setting) (f : Field) :
    (d.set x).get f = if f = x.field then some x.kept else d.get f := by
  cases x <;> cases f <;> simp [set, get, Setting.field, Setting.kept]

end Decode

namespace Json
open Decode (Draft Field Setting)

namespace Value

theorem string?_eq_some_iff {v : Value} {s : String} : v.string? = some s ↔ v = .text (some s) := by
  cases v <;> simp [string?]

theorem bool?_eq_some_iff {v : Value} {b : Bool} : v.bool? = some b ↔ v = .bool b := by
  cases v <;> simp [bool?]

theorem optionalString?_eq_some_iff {v : Value} {o : Option String} :
    v.optionalString? = some o ↔
      (v = .null ∧ o = none) ∨ ∃ s, v = .text (some s) ∧ o = some s := by
  cases v with
  | text content => cases content <;> simp [optionalString?, string?, eq_comm]
  | _ => simp [optionalString?, string?, eq_comm]

theorem capability?_eq_some_iff {v : Value} {c : Capability} :
    v.capability? = some c ↔
      v = .text (some c.word) ∨ v = .object [(some c.word, .null)] := by
  have hword : ∀ {word}, Capability.ofWord? word = some c ↔ word = c.word := by
    intro word
    constructor
    · exact fun h => (Capability.word_of_ofWord? h).symm
    · rintro rfl
      exact Capability.ofWord?_word c
  unfold capability?
  split
  · simp [hword]
  · simp [hword]
  · rename_i htext hobject
    simp only [reduceCtorEq, false_iff, not_or]
    exact ⟨htext _, hobject _⟩

theorem list?_eq_some_iff {v : Value} {us : List String} :
    v.list? string? = some us ↔ v = .list (us.map fun u => .text (some u)) := by
  have hitems : ∀ {vs : List Value},
      vs.mapM string? = some us ↔ vs = us.map fun u => .text (some u) := by
    intro vs
    induction vs generalizing us with
    | nil => cases us <;> simp
    | cons v vs ih =>
      cases us with
      | nil => simp [Option.bind_eq_some_iff]
      | cons u us => simp [Option.bind_eq_some_iff, string?_eq_some_iff, ih]
  cases v <;> simp [list?, hitems]

end Value

def values (f : Field) (ms : List Member) : List Value :=
  ms.filterMap fun m => if m.1 = some f.key then some m.2 else none

def isKnown (m : Member) : Bool := (m.1.bind Field.ofKey?).isSome

section
variable {ms ms' : List Member} {key : String} {v : Value} {f : Field}

theorem values_of_key (f : Field) (v : Value) (ms : List Member) :
    values f ((some f.key, v) :: ms) = v :: values f ms := by
  simp [values]

theorem values_of_key_ne (h : f.key ≠ key) : values f ((some key, v) :: ms) = values f ms := by
  simp [values, Ne.symm h]

theorem values_filter (f : Field) (ms : List Member) :
    values f (ms.filter isKnown) = values f ms := by
  rw [values, List.filterMap_filter]
  refine List.filterMap_congr fun m _ => ?_
  by_cases h : m.1 = some f.key
  · simp [isKnown, h, Field.ofKey?_key]
  · simp [h]

theorem values_perm (h : (ms.filter isKnown).Perm (ms'.filter isKnown)) (f : Field) :
    (values f ms).Perm (values f ms') := by
  rw [← values_filter f ms, ← values_filter f ms']
  exact h.filterMap _

end

/-- What a field holds after these values. A second value is refused, whatever it is. -/
def fill (f : Field) (held : Option Setting) : List Value → Option (Option Setting)
  | [] => some held
  | v :: vs =>
    if held.isSome then none else (v.setting? f).bind fun x => fill f (some x.kept) vs

theorem fill_none {f : Field} {vs : List Value} {held : Option Setting}
    (h : fill f none vs = some held) : (vs = [] ∧ held = none) ∨
      ∃ v x, vs = [v] ∧ v.setting? f = some x ∧ held = some x.kept := by
  match vs with
  | [] => exact Or.inl ⟨rfl, (Option.some.inj h).symm⟩
  | [v] =>
    obtain ⟨x, hx, hheld⟩ := Option.bind_eq_some_iff.mp h
    exact Or.inr ⟨v, x, rfl, hx, (Option.some.inj hheld).symm⟩
  | v :: w :: vs =>
    obtain ⟨x, -, hheld⟩ := Option.bind_eq_some_iff.mp h
    contradiction

theorem field_of_setting? {v : Value} {f : Field} {x : Setting} (h : v.setting? f = some x) :
    x.field = f := by
  cases f <;> obtain ⟨y, -, rfl⟩ := Option.map_eq_some_iff.mp h <;> rfl

theorem takeMember_key (d : Draft) (g : Field) (v : Value) :
    takeMember d (some g.key, v) = if d.holds g then none else (v.setting? g).map d.set := by
  simp [takeMember, Field.ofKey?_key]

section
variable {d : Draft} {g : Field} {v : Value} {ms : List Member}

theorem fill_of_refused (h : takeMember d (some g.key, v) = none) :
    fill g (d.get g) (values g ((some g.key, v) :: ms)) = none := by
  rw [takeMember_key] at h
  rw [values_of_key, fill, Draft.isSome_get]
  split_ifs at h ⊢ with hholds
  · rfl
  · rw [Option.map_eq_none_iff.mp h]
    rfl

theorem fill_of_taken {d' : Draft} (h : takeMember d (some g.key, v) = some d') (f : Field) :
    fill f (d.get f) (values f ((some g.key, v) :: ms)) = fill f (d'.get f) (values f ms) := by
  rw [takeMember_key] at h
  split_ifs at h with hholds
  obtain ⟨x, hx, rfl⟩ := Option.map_eq_some_iff.mp h
  obtain rfl := field_of_setting? hx
  rw [Draft.get_set]
  by_cases hf : f = x.field
  · subst hf
    rw [values_of_key, fill, Draft.isSome_get, if_neg hholds, hx, if_pos rfl]
    rfl
  · rw [values_of_key_ne (fun he => hf (Field.key_injective he)), if_neg hf]

end

theorem foldlM_takeMember {ms : List Member} (hkeys : ∀ m ∈ ms, m.1.isSome) (d : Draft) :
    (∃ d', ms.foldlM takeMember d = some d' ∧
      ∀ f, fill f (d.get f) (values f ms) = some (d'.get f)) ∨
    (ms.foldlM takeMember d = none ∧ ∃ f, fill f (d.get f) (values f ms) = none) := by
  induction ms generalizing d with
  | nil => exact Or.inl ⟨d, rfl, fun f => rfl⟩
  | cons m ms ih =>
    obtain ⟨hkey, hlater⟩ := List.forall_mem_cons.mp hkeys
    obtain ⟨_ | key, v⟩ := m
    · contradiction
    rw [List.foldlM_cons]
    cases hfield : Field.ofKey? key with
    | none =>
      have hne : ∀ f : Field, f.key ≠ key := by
        rintro f rfl
        rw [Field.ofKey?_key] at hfield
        contradiction
      have htake : takeMember d (some key, v) = some d := by simp [takeMember, hfield]
      simp only [htake, values_of_key_ne (hne _)]
      exact ih hlater d
    | some g =>
      obtain rfl := Field.key_of_ofKey? hfield
      cases hresult : takeMember d (some g.key, v) with
      | none => exact Or.inr ⟨rfl, g, fill_of_refused hresult⟩
      | some d' =>
        simp only [fill_of_taken hresult]
        exact ih hlater d'

/-- The members give a value of its type to every field that has no default, and at most one such
value to every other field. -/
structure Accepts (ms : List Member) : Prop where
  name : ∃ s, values .name ms = [.text (some s)]
  capability : ∃ c : Capability, values .capability ms = [.text (some c.word)] ∨
    values .capability ms = [.object [(some c.word, .null)]]
  available : values .available ms = [] ∨ ∃ b, values .available ms = [.bool b]
  fallback : values .fallback ms = [] ∨ values .fallback ms = [.null] ∨
    ∃ s, values .fallback ms = [.text (some s)]
  useCases : values .useCases ms = [] ∨
    ∃ us : List String, values .useCases ms = [.list (us.map fun u => .text (some u))]

/-- The members give these values to the fields of the record, or no value to a field that has its
default. -/
structure Shows (ms : List Member) (t : Tool) : Prop where
  name : values .name ms = [.text (some t.name)]
  capability : values .capability ms = [.text (some t.capability.word)] ∨
    values .capability ms = [.object [(some t.capability.word, .null)]]
  available : values .available ms = [.bool t.available] ∨
    (values .available ms = [] ∧ t.available = false)
  fallback : (∃ s, s ≠ "" ∧ values .fallback ms = [.text (some s)] ∧ t.fallback = some s) ∨
    ((values .fallback ms = [] ∨ values .fallback ms = [.null] ∨
      values .fallback ms = [.text (some "")]) ∧ t.fallback = none)
  useCases : values .useCases ms = [.list (t.useCases.map fun u => .text (some u))] ∨
    (values .useCases ms = [] ∧ t.useCases = [])

section
variable {ms ms' : List Member} {d : Draft}

theorem name_of_fill (h : fill .name none (values .name ms) = some (d.get .name)) (s : String) :
    d.name = some s ↔ values .name ms = [.text (some s)] := by
  rcases fill_none h with ⟨hvs, hd⟩ | ⟨v, x, hvs, hx, hd⟩
  · have hnone : d.name = none := Option.map_eq_none_iff.mp hd
    simp [hvs, hnone]
  · obtain ⟨y, hy, rfl⟩ := Option.map_eq_some_iff.mp hx
    obtain rfl := Value.string?_eq_some_iff.mp hy
    have hsome : d.name = some y := by simpa [Draft.get, Setting.kept] using hd
    simp [hvs, hsome]

theorem capability_of_fill
    (h : fill .capability none (values .capability ms) = some (d.get .capability))
    (c : Capability) : d.capability = some c ↔
      values .capability ms = [.text (some c.word)] ∨
        values .capability ms = [.object [(some c.word, .null)]] := by
  rcases fill_none h with ⟨hvs, hd⟩ | ⟨v, x, hvs, hx, hd⟩
  · have hnone : d.capability = none := Option.map_eq_none_iff.mp hd
    simp [hvs, hnone]
  · obtain ⟨y, hy, rfl⟩ := Option.map_eq_some_iff.mp hx
    have hsome : d.capability = some y := by simpa [Draft.get, Setting.kept] using hd
    simp only [hvs, hsome, List.cons.injEq, and_true]
    rw [← Value.capability?_eq_some_iff, hy]

theorem available_of_fill
    (h : fill .available none (values .available ms) = some (d.get .available)) (a : Bool) :
    a = d.available.getD false ↔
      values .available ms = [.bool a] ∨ (values .available ms = [] ∧ a = false) := by
  rcases fill_none h with ⟨hvs, hd⟩ | ⟨v, x, hvs, hx, hd⟩
  · have hnone : d.available = none := Option.map_eq_none_iff.mp hd
    simp [hvs, hnone]
  · obtain ⟨y, hy, rfl⟩ := Option.map_eq_some_iff.mp hx
    obtain rfl := Value.bool?_eq_some_iff.mp hy
    have hsome : d.available = some y := by simpa [Draft.get, Setting.kept] using hd
    simp [hvs, hsome, eq_comm]

theorem fallback_of_fill
    (h : fill .fallback none (values .fallback ms) = some (d.get .fallback))
    (o : Option String) : o = d.fallback.getD none ↔
      (∃ s, s ≠ "" ∧ values .fallback ms = [.text (some s)] ∧ o = some s) ∨
        ((values .fallback ms = [] ∨ values .fallback ms = [.null] ∨
          values .fallback ms = [.text (some "")]) ∧ o = none) := by
  rcases fill_none h with ⟨hvs, hd⟩ | ⟨v, x, hvs, hx, hd⟩
  · have hnone : d.fallback = none := Option.map_eq_none_iff.mp hd
    simp [hvs, hnone]
  · obtain ⟨y, hy, rfl⟩ := Option.map_eq_some_iff.mp hx
    have hsome : d.fallback = some (y.filter fun s => !s.isEmpty) := by
      simpa [Draft.get, Setting.kept] using hd
    rcases Value.optionalString?_eq_some_iff.mp hy with ⟨rfl, rfl⟩ | ⟨s, rfl, rfl⟩
    · simp [hvs, hsome]
    · by_cases hempty : s = ""
      · simp [hvs, hsome, hempty, Option.filter]
      · simp [hvs, hsome, hempty, Option.filter]

theorem useCases_of_fill
    (h : fill .useCases none (values .useCases ms) = some (d.get .useCases))
    (us : List String) : us = d.useCases.getD [] ↔
      values .useCases ms = [.list (us.map fun u => .text (some u))] ∨
        (values .useCases ms = [] ∧ us = []) := by
  rcases fill_none h with ⟨hvs, hd⟩ | ⟨v, x, hvs, hx, hd⟩
  · have hnone : d.useCases = none := Option.map_eq_none_iff.mp hd
    simp [hvs, hnone]
  · obtain ⟨y, hy, rfl⟩ := Option.map_eq_some_iff.mp hx
    have hsome : d.useCases = some y := by simpa [Draft.get, Setting.kept] using hd
    simp only [hvs, hsome, Option.getD_some, List.cons.injEq, and_true, List.cons_ne_nil, false_and,
      or_false]
    rw [← Value.list?_eq_some_iff, hy, Option.some_inj, eq_comm]

end

theorem Shows.fills {ms : List Member} {t : Tool} (h : Shows ms t) (f : Field) :
    (fill f none (values f ms)).isSome := by
  have hone : ∀ {v : Value} {x : Setting}, values f ms = [v] → v.setting? f = some x →
      (fill f none (values f ms)).isSome := by
    intro v x hvs hx
    rw [hvs, fill, hx]
    rfl
  have hempty : values f ms = [] → (fill f none (values f ms)).isSome := by
    intro hvs
    rw [hvs]
    rfl
  cases f with
  | name => exact hone h.name rfl
  | available =>
    rcases h.available with ha | ⟨ha, -⟩
    · exact hone ha rfl
    · exact hempty ha
  | capability =>
    have hsetting : ∀ v : Value, v.capability? = some t.capability →
        v.setting? .capability = some (.capability t.capability) :=
      fun v hv => Option.map_eq_some_iff.mpr ⟨_, hv, rfl⟩
    rcases h.capability with hword | hobject
    · exact hone hword (hsetting _ (Value.capability?_eq_some_iff.mpr (Or.inl rfl)))
    · exact hone hobject (hsetting _ (Value.capability?_eq_some_iff.mpr (Or.inr rfl)))
  | fallback =>
    rcases h.fallback with ⟨s, -, hs, -⟩ | ⟨hf | hf | hf, -⟩
    · exact hone hs rfl
    · exact hempty hf
    · exact hone hf rfl
    · exact hone hf rfl
  | useCases =>
    rcases h.useCases with hu | ⟨hu, -⟩
    · exact hone hu (Option.map_eq_some_iff.mpr ⟨_, Value.list?_eq_some_iff.mpr rfl, rfl⟩)
    · exact hempty hu

theorem recordOf?_eq_some_iff {ms : List Member} (hkeys : ∀ m ∈ ms, m.1.isSome) {t : Tool} :
    recordOf? ms = some t ↔ Shows ms t := by
  rcases foldlM_takeMember hkeys {} with ⟨d, hd, hfill⟩ | ⟨hnone, f, hf⟩
  · rw [recordOf?, hd, Option.bind_some, toOption_eq_some_iff, Draft.finish_eq_ok_iff,
      name_of_fill (hfill .name), capability_of_fill (hfill .capability),
      available_of_fill (hfill .available), fallback_of_fill (hfill .fallback),
      useCases_of_fill (hfill .useCases)]
    constructor
    · rintro ⟨hn, hc, ha, hf, hu⟩
      exact ⟨hn, hc, ha, hf, hu⟩
    · rintro ⟨hn, hc, ha, hf, hu⟩
      exact ⟨hn, hc, ha, hf, hu⟩
  · have hrefused : recordOf? ms = none := by rw [recordOf?, hnone]; rfl
    rw [hrefused]
    have hstart : ({} : Draft).get f = none := by cases f <;> rfl
    rw [hstart] at hf
    refine ⟨fun h => by contradiction, fun h => ?_⟩
    exact absurd hf (Option.isSome_iff_ne_none.mp (h.fills f))

theorem accepts_iff {ms : List Member} : Accepts ms ↔ ∃ t, Shows ms t := by
  constructor
  · rintro ⟨⟨n, hn⟩, ⟨c, hc⟩, ha, hf, hu⟩
    have ha : ∃ a, values .available ms = [.bool a] ∨ (values .available ms = [] ∧ a = false) := by
      rcases ha with ha | ⟨b, hb⟩
      · exact ⟨false, Or.inr ⟨ha, rfl⟩⟩
      · exact ⟨b, Or.inl hb⟩
    have hf : ∃ f : Option String,
        (∃ s, s ≠ "" ∧ values .fallback ms = [.text (some s)] ∧ f = some s) ∨
        ((values .fallback ms = [] ∨ values .fallback ms = [.null] ∨
          values .fallback ms = [.text (some "")]) ∧ f = none) := by
      rcases hf with hf | hf | ⟨s, hs⟩
      · exact ⟨none, Or.inr ⟨Or.inl hf, rfl⟩⟩
      · exact ⟨none, Or.inr ⟨Or.inr (Or.inl hf), rfl⟩⟩
      · by_cases hempty : s = ""
        · exact ⟨none, Or.inr ⟨Or.inr (Or.inr (hempty ▸ hs)), rfl⟩⟩
        · exact ⟨some s, Or.inl ⟨s, hempty, hs, rfl⟩⟩
    have hu : ∃ us : List String, values .useCases ms = [.list (us.map fun u => .text (some u))] ∨
        (values .useCases ms = [] ∧ us = []) := by
      rcases hu with hu | ⟨us, hus⟩
      · exact ⟨[], Or.inr ⟨hu, rfl⟩⟩
      · exact ⟨us, Or.inl hus⟩
    obtain ⟨a, ha⟩ := ha
    obtain ⟨f, hf⟩ := hf
    obtain ⟨us, hu⟩ := hu
    exact ⟨⟨n, c, a, f, us⟩, hn, hc, ha, hf, hu⟩
  · rintro ⟨t, hn, hc, ha, hf, hu⟩
    refine ⟨⟨_, hn⟩, ⟨_, hc⟩, ?_, ?_, ?_⟩
    · rcases ha with ha | ⟨ha, -⟩
      · exact Or.inr ⟨_, ha⟩
      · exact Or.inl ha
    · rcases hf with ⟨s, -, hs, -⟩ | ⟨hf | hf | hf, -⟩
      · exact Or.inr (Or.inr ⟨s, hs⟩)
      · exact Or.inl hf
      · exact Or.inr (Or.inl hf)
      · exact Or.inr (Or.inr ⟨"", hf⟩)
    · rcases hu with hu | ⟨hu, -⟩
      · exact Or.inr ⟨_, hu⟩
      · exact Or.inl hu

theorem Shows.of_perm {ms ms' : List Member} {t : Tool}
    (hperm : (ms.filter isKnown).Perm (ms'.filter isKnown)) (h : Shows ms t) : Shows ms' t := by
  have hone : ∀ {f : Field} {v : Value}, values f ms = [v] → values f ms' = [v] := by
    intro f v hv
    exact List.perm_singleton.mp (hv ▸ (values_perm hperm f).symm)
  have hempty : ∀ {f : Field}, values f ms = [] → values f ms' = [] := by
    intro f hf
    exact List.perm_nil.mp (hf ▸ (values_perm hperm f).symm)
  refine ⟨hone h.name, h.capability.imp hone hone, ?_, ?_, ?_⟩
  · exact h.available.imp hone (And.imp_left hempty)
  · refine h.fallback.imp ?_ (And.imp_left (Or.imp hempty (Or.imp hone hone)))
    exact fun ⟨s, hs, hvs, ht⟩ => ⟨s, hs, hone hvs, ht⟩
  · exact h.useCases.imp hone (And.imp_left hempty)

theorem decode_eq_ok_iff {ms : List Member} {text : List Char}
    (h : Spells (.item (.object ms)) text) (hkeys : ∀ m ∈ ms, m.1.isSome) {t : Tool} :
    decode readRecord text = .ok t ↔ Shows ms t := by
  rw [← toOption_eq_some_iff, decode_members h, recordOf?_eq_some_iff hkeys]

/-- The text of an object decodes to a record if and only if the members of its fields are right, and
then to the record that they show. Other texts with the same members of fields decode alike, however
these are ordered and whatever else there is. -/
theorem decode_object {ms : List Member} {text : List Char}
    (h : Spells (.item (.object ms)) text) (hkeys : ∀ m ∈ ms, m.1.isSome) :
    ((∃ t, decode readRecord text = .ok t) ↔ Accepts ms) ∧
      (∀ t, decode readRecord text = .ok t ↔ Shows ms t) ∧
      ∀ (ms' : List Member) (text' : List Char), Spells (.item (.object ms')) text' →
        (∀ m ∈ ms', m.1.isSome) → (ms.filter isKnown).Perm (ms'.filter isKnown) →
        ∀ t, decode readRecord text' = .ok t ↔ decode readRecord text = .ok t := by
  have hshows : ∀ t, decode readRecord text = .ok t ↔ Shows ms t :=
    fun t => decode_eq_ok_iff h hkeys
  refine ⟨?_, hshows, fun ms' text' h' hkeys' hperm t => ?_⟩
  · rw [accepts_iff]
    exact exists_congr hshows
  · rw [hshows, decode_eq_ok_iff h' hkeys']
    exact ⟨Shows.of_perm hperm.symm, Shows.of_perm hperm⟩

theorem decode_object_escaped : ∃ ms : List Member, Spells (.item (.object ms))
      " \x7b\"x\":[\"\\ud800\",-1.5e3],\"na\\u006De\":\"rg\", \"capability\":\x7b\"debug\":null\x7d\x7d".toList ∧
    (∀ m ∈ ms, m.1.isSome) ∧ decode readRecord
      " \x7b\"x\":[\"\\ud800\",-1.5e3],\"na\\u006De\":\"rg\", \"capability\":\x7b\"debug\":null\x7d\x7d".toList =
        .ok { name := "rg", capability := .debug } := by
  have hnone : Blank [] := List.forall_mem_nil _
  have hspace : Blank [' '] := List.forall_mem_singleton.mpr (by decide)
  have hitem : ∀ {v : Value} {cs : List Char}, Spells (.value v) cs → Spells (.item v) (cs ++ []) :=
    fun h => .item hnone h hnone
  have hdigit : ∀ {d : Char}, d.isDigit → IsDigits [d] :=
    fun h => ⟨List.cons_ne_nil _ _, List.forall_mem_singleton.mpr h⟩
  have hplain : ∀ {cs : List Char}, (cs.all fun c => c ≠ '"' && c ≠ '\\' && 0x20 ≤ c.toNat) →
      ∀ c ∈ cs, c ≠ '"' ∧ c ≠ '\\' ∧ 0x20 ≤ c.toNat := by
    simp [and_assoc]
  have hnumber : IsNumber "-1.5e3".toList :=
    .parts (Or.inr rfl) (.digits (hdigit rfl) (by decide)) (.digits (hdigit rfl))
      (.digits (Or.inl rfl) (Or.inl rfl) (hdigit rfl))
  have hhalf := Spells.text [.unit ⟨⟨'d', 13, rfl⟩, ⟨'8', 8, rfl⟩, ⟨'0', 0, rfl⟩, ⟨'0', 0, rfl⟩⟩]
  have hother := Spells.member ("x".toList.pmap .plain (hplain (by decide))) hnone hnone
    (hitem (.list (.moreItems (hitem hhalf) (.lastItem (hitem (.number hnumber))))))
  have hname := Spells.member [.plain 'n' (by decide), .plain 'a' (by decide),
      .unit ⟨⟨'0', 0, rfl⟩, ⟨'0', 0, rfl⟩, ⟨'6', 6, rfl⟩, ⟨'D', 13, rfl⟩⟩, .plain 'e' (by decide)]
    hnone hnone (hitem (.text ("rg".toList.pmap .plain (hplain (by decide)))))
  have hword := Spells.member ("debug".toList.pmap .plain (hplain (by decide))) hnone hnone (hitem .null)
  have hcapability := Spells.member ("capability".toList.pmap .plain (hplain (by decide))) hspace hnone
    (hitem (.object (.lastMember hword)))
  have htext := Spells.item hspace
    (.object (.moreMembers hother (.moreMembers hname (.lastMember hcapability)))) hnone
  refine ⟨_, htext, List.all_eq_true.mp rfl,
    ((decode_object htext (List.all_eq_true.mp rfl)).2.1 _).mpr ?_⟩
  exact ⟨rfl, Or.inr rfl, Or.inr ⟨rfl, rfl⟩, Or.inr ⟨Or.inl rfl, rfl⟩, Or.inr ⟨rfl, rfl⟩⟩

end Json
end ToolRoster
