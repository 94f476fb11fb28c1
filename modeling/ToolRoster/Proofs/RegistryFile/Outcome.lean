import ToolRoster.Proofs.Files.ReadBack
import ToolRoster.Proofs.RegistryFile.Loading
/-!
# The outcome of a load

A load asks one question, and the reply decides its outcome. So a registry that has been loaded once
is loaded from every tree in which the file reads the same.
-/
namespace ToolRoster
open Files (Location Mishap Tree)

def decodedFrom {α : Type} (decoders : Decoders α) (path : SlashPath) (format : Format)
    (reply : Files.Reply) : Except FileError α := do
  let text ← Files.textOf path reply
  (decoders.of format text.toList).mapError (.parse path format)

def loadedFrom (path : SlashPath) (format : Format) : Files.Reply → Except RosterError Registry
  | .error e => .error (.file (.io path e))
  | .ok bytes =>
    match String.fromUTF8? bytes with
    | none => .error (.file (.io path .notText))
    | some text =>
      match fileDecoders.of format text.toList with
      | .error detail => .error (.file (.parse path format detail))
      | .ok ts => Registry.empty.insertNew ts

section
variable {path : SlashPath} {format : Format} {cwd : Location} {mishaps : List Mishap} {t : Tree}

theorem result_loadFile {α : Type} (decoders : Decoders α)
    (hp : Format.ofPath? path = some format) :
    ((loadFile decoders path).runAmid cwd mishaps t).result =
      decodedFrom decoders path format
        (t.answerAmid cwd (mishaps.headD none) (.read path.chars)).1 := by
  rw [loadFile, hp]
  obtain ⟨later, hresult, -⟩ := Session.runAmid_rest cwd (Files.readText path) _ mishaps t
  refine hresult.trans ?_
  rw [Files.result_readText, decodedFrom]
  cases Files.textOf path (t.answerAmid cwd (mishaps.headD none) (.read path.chars)).1 <;> rfl

theorem loadedFrom_eq (reply : Files.Reply) : loadedFrom path format reply =
    match decodedFrom fileDecoders path format reply with
    | .error e => .error (.file e)
    | .ok ts => Registry.empty.insertNew ts := by
  cases reply with
  | error e => rfl
  | ok bytes =>
    simp only [loadedFrom, decodedFrom, Files.textOf]
    cases String.fromUTF8? bytes with
    | none => rfl
    | some text =>
      simp only [bind, Except.bind]
      cases fileDecoders.of format text.toList <;> rfl

theorem result_loadRegistry (hp : Format.ofPath? path = some format) :
    ((loadRegistry path).runAmid cwd mishaps t).result =
      loadedFrom path format (t.answerAmid cwd (mishaps.headD none) (.read path.chars)).1 := by
  obtain ⟨later, hresult, -⟩ :=
    Session.runAmid_rest cwd (loadFile fileDecoders path) _ mishaps t
  refine hresult.trans ?_
  rw [result_loadFile fileDecoders hp, loadedFrom_eq]
  cases decodedFrom fileDecoders path format
      (t.answerAmid cwd (mishaps.headD none) (.read path.chars)).1 with
  | error e => rfl
  | ok ts =>
    simp only
    cases Registry.empty.insertNew ts <;> rfl

theorem read_of_loadRegistry {r : Registry}
    (h : ((loadRegistry path).runAmid cwd mishaps t).result = .ok r) :
    ∃ format bytes, Format.ofPath? path = some format ∧ t.read cwd path.chars = .ok bytes ∧
      loadedFrom path format (.ok bytes) = .ok r := by
  obtain ⟨-, ⟨format, hp⟩, -⟩ := ensures_loadRegistry path mishaps r h
  rw [result_loadRegistry hp] at h
  have hreply := (Session.ensures_read cwd path.chars t mishaps).2
  change ∀ bytes, (t.answerAmid cwd (mishaps.headD none) (.read path.chars)).1 = .ok bytes → _
    at hreply
  cases hr : (t.answerAmid cwd (mishaps.headD none) (.read path.chars)).1 with
  | error e =>
    rw [hr] at h
    contradiction
  | ok bytes => exact ⟨format, bytes, hp, hreply bytes hr, hr ▸ h⟩

theorem run_loadRegistry_of_read {bytes : ByteArray} (hp : Format.ofPath? path = some format)
    (hread : t.read cwd path.chars = .ok bytes) :
    ((loadRegistry path).run cwd t).result = loadedFrom path format (.ok bytes) := by
  rw [← Session.runAmid_nil, result_loadRegistry hp]
  change loadedFrom path format (t.read cwd path.chars) = _
  rw [hread]

theorem loadRegistry_congr {r : Registry} {t' : Tree}
    (h : ((loadRegistry path).runAmid cwd mishaps t).result = .ok r)
    (hread : t'.read cwd path.chars = t.read cwd path.chars) :
    ((loadRegistry path).run cwd t').result = .ok r := by
  obtain ⟨format, bytes, hp, hbytes, hr⟩ := read_of_loadRegistry h
  rw [run_loadRegistry_of_read hp (hread.trans hbytes), hr]

end

end ToolRoster
