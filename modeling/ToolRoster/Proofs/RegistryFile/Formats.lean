import ToolRoster.Proofs.RegistryFile.Outcome
import ToolRoster.Proofs.Toml.Documents
import ToolRoster.Proofs.Yaml.Records
/-!
# One registry in every format

Records of printable strings can be written to a file of any format: as compact JSON, which is YAML
as well, or as the tables of TOML. Every format reads the same records from its file, so a load comes
to the same registry, or stops at the same repeated name.
-/
namespace ToolRoster
open Files (Location Tree)

def writeFileAs (layout : Toml.Layout) (ts : List Tool) : Format → List Char
  | .json => Json.writeFile ts
  | .yaml => Json.writeFile ts
  | .toml => Toml.writeFile layout ts

theorem decode_writeFileAs (layout : Toml.Layout) {ts : List Tool} (hts : ∀ t ∈ ts, t.Printable)
    (format : Format) :
    fileDecoders.of format (writeFileAs layout ts format) = .ok (ts.map Tool.normalized) := by
  cases format with
  | toml => exact Toml.decode_writeFile layout hts
  | json => exact Json.decode_of_reads (Json.reads_file ts)
  | yaml => exact Yaml.decode_writeFile hts

/-- The path names a file that holds these records in the format that its extension tells. -/
def Files.Tree.Declares (tree : Tree) (cwd : Location) (path : SlashPath) (ts : List Tool) : Prop :=
  ∃ format layout, Format.ofPath? path = some format ∧
    tree.read cwd path.chars = .ok (String.ofList (writeFileAs layout ts format)).toUTF8

theorem result_of_declares {ts : List Tool} (hts : ∀ t ∈ ts, t.Printable) {path : SlashPath}
    {cwd : Location} {tree : Tree} (h : tree.Declares cwd path ts) :
    ((loadRegistry path).run cwd tree).result =
      Registry.empty.insertNew (ts.map Tool.normalized) := by
  obtain ⟨format, layout, hp, hread⟩ := h
  rw [run_loadRegistry_of_read hp hread]
  simp only [loadedFrom, fromUTF8?_toUTF8, String.toList_ofList, decode_writeFileAs layout hts]

/-- The first record whose name an earlier one has. -/
def FirstRepeated (ts : List Tool) (t : Tool) : Prop :=
  ∃ earlier later, ts = earlier ++ t :: later ∧ (earlier.map Tool.name).Nodup ∧
    t.name ∈ earlier.map Tool.name

theorem nodup_or_firstRepeated (ts : List Tool) :
    (ts.map Tool.name).Nodup ∨ ∃ t, FirstRepeated ts t := by
  induction ts using List.reverseRecOn with
  | nil => exact Or.inl List.nodup_nil
  | append_singleton ts u ih =>
    rcases ih with hnodup | ⟨t, earlier, later, rfl, hrepeated⟩
    · by_cases hu : u.name ∈ ts.map Tool.name
      · exact Or.inr ⟨u, ts, [], rfl, hnodup, hu⟩
      · left
        rw [List.map_append, List.map_singleton, ← List.concat_eq_append]
        exact hnodup.concat hu
    · exact Or.inr ⟨t, earlier, later ++ [u], by rw [List.append_assoc, List.cons_append], hrepeated⟩

namespace Registry

theorem insertNew_append (r : Registry) (ts us : List Tool) :
    r.insertNew (ts ++ us) = r.insertNew ts >>= fun s => s.insertNew us := by
  induction ts generalizing r with
  | nil => rfl
  | cons t ts ih =>
    simp only [List.cons_append, insertNew]
    cases hr : r.register t with
    | mk s old =>
      cases old with
      | none => exact ih s
      | some u => rfl

theorem insertNew_firstRepeated {ts : List Tool} {t : Tool} (h : FirstRepeated ts t) :
    empty.insertNew ts = .error (.duplicateTool t.name) := by
  obtain ⟨earlier, later, rfl, hnodup, ht⟩ := h
  have hknown : ((ofList earlier).register t).2 ≠ none := by
    rw [snd_register, Ne, (coherent_ofList earlier).get?_eq_none_iff, mem_names_ofList]
    exact not_not_intro ht
  rw [insertNew_append, insertNew_empty hnodup]
  simp only [bind, Except.bind, insertNew]
  cases hr : (ofList earlier).register t with
  | mk s old =>
    cases old with
    | none =>
      rw [hr] at hknown
      contradiction
    | some u => rfl

end Registry

theorem names_normalized (ts : List Tool) :
    (ts.map Tool.normalized).map Tool.name = ts.map Tool.name := by
  rw [List.map_map]
  rfl

theorem FirstRepeated.normalized {ts : List Tool} {t : Tool} (h : FirstRepeated ts t) :
    FirstRepeated (ts.map Tool.normalized) t.normalized := by
  obtain ⟨earlier, later, rfl, hnodup, ht⟩ := h
  refine ⟨earlier.map Tool.normalized, later.map Tool.normalized, List.map_append, ?_, ?_⟩
  · rwa [names_normalized]
  · rwa [names_normalized]

/-- Files of the same records load as the same registry, or fail with the same name, whatever their
formats are. -/
theorem formats_agree {ts : List Tool} (hts : ∀ t ∈ ts, t.Printable) {path path' : SlashPath}
    {cwd cwd' : Location} {tree tree' : Tree} (h : tree.Declares cwd path ts)
    (h' : tree'.Declares cwd' path' ts) :
    ((loadRegistry path').run cwd' tree').result = ((loadRegistry path).run cwd tree).result ∧
      ((∃ r, ((loadRegistry path).run cwd tree).result = .ok r ∧
          r.records = ts.map Tool.normalized) ∨
        ∃ t, FirstRepeated ts t ∧
          ((loadRegistry path).run cwd tree).result = .error (.duplicateTool t.name)) := by
  rw [result_of_declares hts h, result_of_declares hts h']
  refine ⟨rfl, ?_⟩
  rcases nodup_or_firstRepeated ts with hnodup | ⟨t, ht⟩
  · rw [← names_normalized] at hnodup
    exact Or.inl ⟨_, Registry.insertNew_empty hnodup, Registry.records_ofList_of_nodup hnodup⟩
  · have herror := Registry.insertNew_firstRepeated ht.normalized
    exact Or.inr ⟨t, ht, herror⟩

theorem formats_agree_yml_toml :
    let quoted : Tool :=
      { name := "a \"b\" \\ # c: [d] \x7be\x7d, 'f'", capability := .debug, available := true,
        fallback := some "", useCases := ["", "true", "null", "- 1", "~"] }
    let null : Tool := { name := "null", capability := .planning, fallback := some "1.5" }
    let ts := [quoted, null, quoted]
    let layout : Toml.Layout := ⟨1, 1, 2⟩
    let yaml := SlashPath.ofString "tools.yml"
    let toml := SlashPath.ofString "tools.toml"
    let tree := (Tree.empty.put [yaml.chars]
      (.file (String.ofList (Json.writeFile ts)).toUTF8)).put [toml.chars]
        (.file (String.ofList (Toml.writeFile layout ts)).toUTF8)
    (∀ t ∈ ts, t.Printable) ∧ tree.Declares [] yaml ts ∧ tree.Declares [] toml ts ∧
      ((loadRegistry toml).run [] tree).result = ((loadRegistry yaml).run [] tree).result ∧
      ((∃ r, ((loadRegistry yaml).run [] tree).result = .ok r ∧
          r.records = ts.map Tool.normalized) ∨
        ∃ t, FirstRepeated ts t ∧
          ((loadRegistry yaml).run [] tree).result = .error (.duplicateTool t.name)) := by
  intro quoted null ts layout yaml toml tree
  have hts : ∀ t ∈ ts, t.Printable := by decide
  have hyaml : tree.Declares [] yaml ts := ⟨.yaml, layout, by decide, rfl⟩
  have htoml : tree.Declares [] toml ts := ⟨.toml, layout, by decide, rfl⟩
  exact ⟨hts, hyaml, htoml, formats_agree hts hyaml htoml⟩

end ToolRoster
