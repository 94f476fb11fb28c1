import ToolRoster.Artifact.Availability
import ToolRoster.Artifact.Strategy
import ToolRoster.Proofs.Json.Records
import ToolRoster.Proofs.RegistryFile.Loading
/-!
# Registries read back

The records of a registry, written to a registry file, load as the same registry. Only an empty
fallback cannot be written down, since a file takes it for none.
-/
namespace ToolRoster

theorem Tool.normalized_of_fallback_ne {t : Tool} (h : t.fallback ≠ some "") :
    t.normalized = t := by
  obtain ⟨n, c, a, f, us⟩ := t
  cases f with
  | none => rfl
  | some f =>
    have hf : f.isEmpty = false := by simpa using h
    simp [normalized, hf]

theorem decode_writeFile {ts : List Tool} (h : ∀ t ∈ ts, t.fallback ≠ some "") :
    Json.decode Json.readFile (Json.writeFile ts) = .ok ts := by
  have hts : ts.map Tool.normalized = ts.map id :=
    List.map_congr_left fun t ht => Tool.normalized_of_fallback_ne (h t ht)
  rw [Json.decode_of_reads (Json.reads_file ts), hts, List.map_id]

theorem result_loadRegistry_written {ts : List Tool} (hf : ∀ t ∈ ts, t.fallback ≠ some "")
    (hn : (ts.map Tool.name).Nodup) {path : SlashPath} (hp : Format.ofPath? path = some .json)
    {cwd : Files.Location} {tree : Files.Tree}
    (ht : tree.read cwd path.chars = .ok (String.ofList (Json.writeFile ts)).toUTF8) :
    ((loadRegistry path).run cwd tree).result = .ok (Registry.ofList ts) := by
  have hd : fileDecoders.of .json (String.ofList (Json.writeFile ts)).toList = .ok ts := by
    rw [String.toList_ofList]
    exact decode_writeFile hf
  rw [run_loadRegistry hp ht hd (Registry.insertNew_empty hn)]

namespace Registry

/-- A file that holds the records of a registry loads as the registry. -/
theorem load_written {r : Registry} (hr : r.Reachable)
    (hf : ∀ t ∈ r.records, t.fallback ≠ some "") {path : SlashPath}
    (hp : Format.ofPath? path = some .json) {cwd : Files.Location} {tree : Files.Tree}
    (ht : tree.read cwd path.chars = .ok (String.ofList (Json.writeFile r.records)).toUTF8) :
    ∃ s, ((loadRegistry path).run cwd tree).result = .ok s ∧
      s.records = r.records ∧ s.dangling = r.dangling ∧ s.validate = r.validate ∧
      Strategy.render s = Strategy.render r ∧ Availability.render s = Availability.render r := by
  have hd : fileDecoders.of .json (String.ofList (Json.writeFile r.records)).toList =
      .ok r.records := by
    rw [String.toList_ofList]
    exact decode_writeFile hf
  have hload : Registry.empty.insertNew r.records = .ok r := by
    rw [insertNew_empty hr.coherent.nodup, hr.ofList_records]
  refine ⟨r, ?_, rfl, rfl, rfl, rfl, rfl⟩
  rw [run_loadRegistry hp ht hd hload]

theorem load_written_escapes :
    let quoted : Tool :=
      { name := "a \"b\" \\ \n\x01", capability := .debug, available := true,
        fallback := some "é\t", useCases := ["", "\x7b\x7d"] }
    let nameless : Tool := { name := "", capability := .planning }
    let r := Registry.ofList [quoted, nameless]
    let path := SlashPath.ofString "tools.json"
    let tree := Files.Tree.empty.put [path.chars]
      (.file (String.ofList (Json.writeFile r.records)).toUTF8)
    r.Reachable ∧ (∀ t ∈ r.records, t.fallback ≠ some "") ∧ Format.ofPath? path = some .json ∧
      tree.read [] path.chars = .ok (String.ofList (Json.writeFile r.records)).toUTF8 ∧
      ∃ s, ((loadRegistry path).run [] tree).result = .ok s ∧ s.records = r.records ∧
        s.dangling = r.dangling ∧ s.validate = r.validate ∧
        Strategy.render s = Strategy.render r ∧ Availability.render s = Availability.render r := by
  intro quoted nameless r path tree
  have hr : r.Reachable := Registry.reachable_ofList _
  have hf : ∀ t ∈ r.records, t.fallback ≠ some "" := by decide
  have hp : Format.ofPath? path = some .json := by decide
  have ht : tree.read [] path.chars = .ok (String.ofList (Json.writeFile r.records)).toUTF8 := rfl
  exact ⟨hr, hf, hp, ht, load_written hr hf hp ht⟩

end Registry
end ToolRoster
