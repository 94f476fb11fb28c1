import ToolRoster.Artifact.Availability
import ToolRoster.Proofs.RegistryFile.Formats
import ToolRoster.Proofs.RegistryFile.Yields
/-!
# Decoded records as a registry

A load keeps the records of a file as they are decoded, or stops at the first repeated name. None of
them has an empty fallback: no fallback, an empty one and a null are the same.
-/
namespace ToolRoster
open Decode (Draft Makes Setting)
open Files (Location Tree)

namespace Decode

theorem fallback_foldl_set {xs : List Setting} (h : ∀ f, .fallback f ∉ xs) (d : Draft) :
    (xs.foldl Draft.set d).fallback = d.fallback := by
  induction xs generalizing d with
  | nil => rfl
  | cons x xs ih =>
    have hlater : ∀ f, .fallback f ∉ xs := fun f hf => h f (List.mem_cons_of_mem x hf)
    rw [List.foldl_cons, ih hlater]
    cases x with
    | fallback f => exact absurd List.mem_cons_self (h f)
    | _ => rfl

theorem fallback_foldl_set_of_mem {xs : List Setting} (hnodup : (xs.map Setting.field).Nodup)
    {f : Option String} (hf : .fallback f ∈ xs) (d : Draft) :
    (xs.foldl Draft.set d).fallback = some (f.filter fun s => !s.isEmpty) := by
  induction xs generalizing d with
  | nil => contradiction
  | cons x xs ih =>
    rw [List.map_cons] at hnodup
    obtain ⟨hfresh, hnodup⟩ := List.nodup_cons.mp hnodup
    rw [List.foldl_cons]
    rcases List.mem_cons.mp hf with rfl | hf
    · have hlater : ∀ g, .fallback g ∉ xs := fun g hg => hfresh (List.mem_map.mpr ⟨_, hg, rfl⟩)
      rw [fallback_foldl_set hlater]
      rfl
    · exact ih hnodup hf (d.set x)

theorem filter_nonempty_eq_none_iff {f : Option String} :
    (f.filter fun s => !s.isEmpty) = none ↔ f = none ∨ f = some "" := by
  cases f with
  | none => simp
  | some s => simp [Option.filter]

theorem Makes.fallback_eq_none_iff {xs : List Setting} {t : Tool} (h : Makes xs t) :
    t.fallback = none ↔ ∀ f, .fallback f ∈ xs → f = none ∨ f = some "" := by
  obtain ⟨-, -, -, ht, -⟩ := Draft.finish_eq_ok_iff.mp h.finish
  by_cases hdeclared : ∃ f, .fallback f ∈ xs
  · obtain ⟨f, hf⟩ := hdeclared
    have hkept : ∀ g, .fallback g ∈ xs → t.fallback = g.filter fun s => !s.isEmpty := by
      intro g hg
      rw [ht, fallback_foldl_set_of_mem h.nodup hg, Option.getD_some]
    constructor
    · intro hnone g hg
      rwa [hkept g hg, filter_nonempty_eq_none_iff] at hnone
    · intro hempty
      rw [hkept f hf, filter_nonempty_eq_none_iff]
      exact hempty f hf
  · have hnone := not_exists.mp hdeclared
    rw [ht, fallback_foldl_set hnone]
    exact ⟨fun _ f hf => absurd hf (hnone f), fun _ => rfl⟩

end Decode

def writeSettingsAs (layout : Toml.Layout) (xss : List (List Setting)) : Format → List Char
  | .json => Json.writeObjects xss
  | .yaml => Json.writeObjects xss
  | .toml => Toml.writeTables layout xss

/-- Whether a file of the format has room for a setting: not every string is written alike in all
formats, and one of them has no null. -/
def Format.CanHold : Format → Setting → Prop
  | .json, _ => True
  | .yaml, x => x = .fallback none ∨ x.Printable
  | .toml, x => x.Printable

theorem decode_writeSettingsAs (layout : Toml.Layout) {bs : List (List Setting × Tool)}
    (h : ∀ b ∈ bs, Makes b.1 b.2) {format : Format} (hhold : ∀ b ∈ bs, ∀ x ∈ b.1, format.CanHold x) :
    fileDecoders.of format (writeSettingsAs layout (bs.map Prod.fst) format) =
      .ok (bs.map Prod.snd) := by
  cases format with
  | toml => exact Toml.decode_writeTables hhold h layout
  | json => exact Json.decode_of_reads (Json.reads_objects h)
  | yaml => exact Yaml.decode_writeObjects h hhold

namespace Registry

theorem insertNew_empty_eq_ok_iff {ts : List Tool} {r : Registry} :
    empty.insertNew ts = .ok r ↔ (ts.map Tool.name).Nodup ∧ r = ofList ts := by
  constructor
  · intro h
    rcases nodup_or_firstRepeated ts with hnodup | ⟨t, ht⟩
    · rw [insertNew_empty hnodup] at h
      exact ⟨hnodup, (Except.ok.inj h).symm⟩
    · rw [insertNew_firstRepeated ht] at h
      contradiction
  · rintro ⟨hnodup, rfl⟩
    exact insertNew_empty hnodup

variable {r : Registry}

theorem fallback_ne_of_dangling (h : ∀ t ∈ r.records, t.fallback ≠ some "") :
    ∀ d ∈ r.dangling, d.fallback ≠ "" := by
  intro d hd
  obtain ⟨t, ht, hdt⟩ := List.mem_filterMap.mp hd
  rintro hempty
  unfold danglingOf? at hdt
  split at hdt
  · rename_i f hf
    split_ifs at hdt
    obtain rfl := Option.some.inj hdt
    exact h t ht (hf.trans (congrArg some hempty))
  · contradiction

theorem fallback_ne_of_validate (h : ∀ t ∈ r.records, t.fallback ≠ some "") {d : Dangling}
    (hd : r.validate = .error d) : d.fallback ≠ "" := by
  unfold validate at hd
  split at hd
  · contradiction
  · rename_i hdangling
    obtain rfl := Except.error.inj hd
    exact fallback_ne_of_dangling h _ (hdangling ▸ List.mem_cons_self)

end Registry

theorem Availability.fallbackLine_ne {f : Option String} (h : f ≠ some "") :
    fallbackLine f ≠ fallbackLine (some "") := by
  cases f with
  | none => decide
  | some f =>
    intro hline
    have hchars := congrArg String.toList hline
    simp only [fallbackLine, String.toList_append, List.append_cancel_left_eq,
      List.append_cancel_right_eq] at hchars
    exact h (congrArg some (String.toList_injective hchars))

section
variable {path : SlashPath} {format : Format} {cwd : Location} {tree : Tree} {text : String}
  {ts : List Tool}

theorem result_of_decoded (hp : Format.ofPath? path = some format)
    (hread : tree.read cwd path.chars = .ok text.toUTF8)
    (hd : fileDecoders.of format text.toList = .ok ts) :
    ((loadRegistry path).run cwd tree).result = Registry.empty.insertNew ts := by
  rw [run_loadRegistry_of_read hp hread]
  simp only [loadedFrom, fromUTF8?_toUTF8, hd]

/-- A file loads if and only if the names of its records are distinct, and then as these records in
their order; otherwise the load names the first record whose name an earlier one has. No record, no
dangling reference and no entry of the listing then has an empty fallback. In files of settings, a
fallback that is left out, empty or null is none. -/
theorem load_decoded (hp : Format.ofPath? path = some format)
    (hread : tree.read cwd path.chars = .ok text.toUTF8)
    (hd : fileDecoders.of format text.toList = .ok ts) :
    ((∃ r, ((loadRegistry path).run cwd tree).result = .ok r) ↔ (ts.map Tool.name).Nodup) ∧
    (∀ r, ((loadRegistry path).run cwd tree).result = .ok r → r.records = ts ∧
      (∀ t ∈ r.records, t.fallback ≠ some "") ∧ (∀ d ∈ r.dangling, d.fallback ≠ "") ∧
      (∀ d, r.validate = .error d → d.fallback ≠ "") ∧ ∀ t ∈ r.records,
        Availability.fallbackLine t.fallback ≠ Availability.fallbackLine (some "")) ∧
    (¬(ts.map Tool.name).Nodup → ∃ t, FirstRepeated ts t ∧
      ((loadRegistry path).run cwd tree).result = .error (.duplicateTool t.name)) ∧
    ∀ (layout : Toml.Layout) (bs : List (List Setting × Tool)), (∀ b ∈ bs, Makes b.1 b.2) →
      (∀ b ∈ bs, ∀ x ∈ b.1, format.CanHold x) →
      text.toList = writeSettingsAs layout (bs.map Prod.fst) format →
      ts = bs.map Prod.snd ∧ ∀ b ∈ bs,
        b.2.fallback = none ↔ ∀ f, .fallback f ∈ b.1 → f = none ∨ f = some "" := by
  rw [result_of_decoded hp hread hd]
  have hsound : ∀ t ∈ ts, t.fallback ≠ some "" := yields_fileDecoders format text.toList ts hd
  refine ⟨?_, fun r hr => ?_, fun hrepeats => ?_, ?_⟩
  · simp only [Registry.insertNew_empty_eq_ok_iff, exists_and_left, exists_eq, and_true]
  · obtain ⟨hnodup, rfl⟩ := Registry.insertNew_empty_eq_ok_iff.mp hr
    have hrecords := Registry.records_ofList_of_nodup hnodup
    rw [← hrecords] at hsound
    exact ⟨hrecords, hsound, Registry.fallback_ne_of_dangling hsound,
      fun d => Registry.fallback_ne_of_validate hsound,
      fun t ht => Availability.fallbackLine_ne (hsound t ht)⟩
  · obtain ⟨t, ht⟩ := (nodup_or_firstRepeated ts).resolve_left hrepeats
    exact ⟨t, ht, Registry.insertNew_firstRepeated ht⟩
  · intro layout bs h hhold htext
    rw [htext, decode_writeSettingsAs layout h hhold] at hd
    exact ⟨(Except.ok.inj hd).symm, fun b hb => (h b hb).fallback_eq_none_iff⟩

theorem load_decoded_repeated :
    let text := "\x7b\"tool\":[\x7b\"name\":\"a\",\"capability\":\"debug\",\"fallback\":\"\"\x7d,[\"b\",true,\"research\",null],\x7b\"capability\":\"planning\",\"name\":\"b\"\x7d,[\"a\",false,\"debug\"]]\x7d"
    let a : Tool := { name := "a", capability := .debug }
    let b : Tool := { name := "b", capability := .research, available := true }
    let ts := [a, b, { name := "b", capability := .planning }, a]
    let path := SlashPath.ofString "tools.json"
    let tree := Tree.empty.put [path.chars] (.file text.toUTF8)
    Format.ofPath? path = some .json ∧ tree.read [] path.chars = .ok text.toUTF8 ∧
      fileDecoders.of .json text.toList = .ok ts ∧ ∃ t, FirstRepeated ts t ∧
        ((loadRegistry path).run [] tree).result = .error (.duplicateTool t.name) := by
  intro text a b ts path tree
  have hp : Format.ofPath? path = some .json := by decide
  have hread : tree.read [] path.chars = .ok text.toUTF8 := rfl
  have hd : fileDecoders.of .json text.toList = .ok ts := by decide +kernel
  exact ⟨hp, hread, hd, (load_decoded hp hread hd).2.2.1 (by decide)⟩

end

end ToolRoster
