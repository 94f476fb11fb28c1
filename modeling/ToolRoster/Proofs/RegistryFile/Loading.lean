import ToolRoster.RegistryFile.Load
import ToolRoster.Proofs.Files.Effects
import ToolRoster.Proofs.Registry.Order
/-!
# What loading a registry makes of a file

A load asks the system once, for the content of the file. When that is a text, the outcome depends
on nothing but the text and the format that the path selects.
-/
namespace ToolRoster

theorem fromUTF8?_toUTF8 (s : String) : String.fromUTF8? s.toUTF8 = some s := by
  rw [String.toUTF8_eq_toByteArray, String.fromUTF8?, dif_pos s.isValidUTF8]
  rfl

theorem Registry.Coherent.insertNew_eq {r : Registry} (h : r.Coherent) {ts : List Tool}
    (hn : (r.names ++ ts.map Tool.name).Nodup) : r.insertNew ts = .ok (ts.foldl insert r) := by
  induction ts generalizing r with
  | nil => rfl
  | cons t ts ih =>
    obtain ⟨ht, hts⟩ := h.fresh_cons hn
    have hnone : (r.register t).2 = none := by
      rw [snd_register, h.get?_eq_none_iff]
      exact ht
    have hr : r.register t = (r.insert t, none) := Prod.ext rfl hnone
    rw [insertNew, hr]
    exact ih (coherent_insert h t) hts

theorem Registry.insertNew_empty {ts : List Tool} (hn : (ts.map Tool.name).Nodup) :
    empty.insertNew ts = .ok (ofList ts) :=
  coherent_empty.insertNew_eq hn

theorem Session.run_bind_of_run {α β : Type} {s : Session α} {f : α → Session β}
    {cwd : Files.Location} {t t' : Files.Tree} {a : α} {outputs : List Output}
    (h : s.run cwd t = ⟨a, t', outputs⟩) :
    (s >>= f).run cwd t =
      { (f a).run cwd t' with outputs := outputs ++ ((f a).run cwd t').outputs } := by
  change (s.bind f).run cwd t = _
  rw [run_bind, h]

section
variable {path : SlashPath} {cwd : Files.Location} {tree : Files.Tree} {text : String}
  {format : Format}

theorem run_readText (ht : tree.read cwd path.chars = .ok text.toUTF8) :
    (Files.readText path).run cwd tree = ⟨.ok text, tree, []⟩ := by
  simp only [Files.readText, Session.call, bind, Session.bind, Session.run, Files.Tree.answer, ht,
    fromUTF8?_toUTF8, pure]

theorem run_loadFile {α : Type} (decoders : Decoders α) (hp : Format.ofPath? path = some format)
    (ht : tree.read cwd path.chars = .ok text.toUTF8) :
    (loadFile decoders path).run cwd tree =
      ⟨(decoders.of format text.toList).mapError (.parse path format), tree,
        [.log (loadingEvent path format)]⟩ := by
  rw [loadFile, hp]
  simp only [Session.run_bind_of_run (run_readText ht)]
  rfl

theorem run_loadRegistry {ts : List Tool} {r : Registry} (hp : Format.ofPath? path = some format)
    (ht : tree.read cwd path.chars = .ok text.toUTF8)
    (hd : fileDecoders.of format text.toList = .ok ts)
    (hr : Registry.empty.insertNew ts = .ok r) :
    (loadRegistry path).run cwd tree =
      ⟨.ok r, tree, [.log (loadingEvent path format), .log (loadedEvent path r)]⟩ := by
  have hfile := run_loadFile fileDecoders hp ht
  rw [hd] at hfile
  rw [loadRegistry, Session.run_bind_of_run hfile]
  simp only [Except.mapError, hr]
  rfl

end

section
variable {cwd : Files.Location} {tree : Files.Tree}

theorem onlyReads_loadFile {α : Type} (decoders : Decoders α) (path : SlashPath) :
    (loadFile decoders path).OnlyReads := by
  unfold loadFile
  cases Format.ofPath? path with
  | none => exact Session.onlyReads_pure _
  | some format =>
    refine (Files.onlyReads_readText path).bind fun content => ?_
    cases content with
    | error e => exact Session.onlyReads_pure _
    | ok text => exact (Session.onlyReads_log _).bind fun _ => Session.onlyReads_pure _

theorem onlyReads_loadRegistry (path : SlashPath) : (loadRegistry path).OnlyReads := by
  refine (onlyReads_loadFile fileDecoders path).bind fun decoded => ?_
  cases decoded with
  | error e => exact Session.onlyReads_pure _
  | ok ts =>
    simp only
    split
    · exact Session.onlyReads_pure _
    · exact (Session.onlyReads_log _).bind fun _ => Session.onlyReads_pure _

theorem ensures_loadFile {α : Type} (decoders : Decoders α) (path : SlashPath) :
    (loadFile decoders path).Ensures cwd tree fun result _ => ∀ a, result = .ok a →
      (∃ format, Format.ofPath? path = some format) ∧
        ∃ bytes, tree.read cwd path.chars = .ok bytes := by
  unfold loadFile
  cases hp : Format.ofPath? path with
  | none => exact fun _ a ha => by contradiction
  | some format =>
    have htext : (Files.readText path).Ensures cwd tree fun result _ =>
        ∀ text, result = .ok text → ∃ bytes, tree.read cwd path.chars = .ok bytes := by
      refine (Session.ensures_read cwd path.chars tree).bind fun reply t' ⟨_, hread⟩ => ?_
      cases reply with
      | error e => exact fun _ text h => by contradiction
      | ok bytes => exact fun _ text _ => ⟨bytes, hread bytes rfl⟩
    refine htext.bind fun content t' hread => ?_
    cases content with
    | error e => exact fun _ a ha => by contradiction
    | ok text => exact fun _ a _ => ⟨⟨format, rfl⟩, hread text rfl⟩

theorem Registry.Reachable.insertNew {r r' : Registry} {ts : List Tool} (h : r.Reachable)
    (hn : r.insertNew ts = .ok r') : r'.Reachable := by
  induction ts generalizing r with
  | nil =>
    cases hn
    exact h
  | cons t ts ih =>
    rw [Registry.insertNew] at hn
    split at hn
    · rename_i next hnext
      have hr := h.insert t
      rw [Registry.insert, hnext] at hr
      exact ih hr hn
    · contradiction

theorem ensures_loadRegistry (path : SlashPath) :
    (loadRegistry path).Ensures cwd tree fun result _ => ∀ r, result = .ok r → r.Reachable ∧
      (∃ format, Format.ofPath? path = some format) ∧
        ∃ bytes, tree.read cwd path.chars = .ok bytes := by
  refine (ensures_loadFile fileDecoders path).bind fun decoded t hread => ?_
  cases decoded with
  | error e => exact fun _ r hr => by contradiction
  | ok ts =>
    simp only
    split
    · exact fun _ r hr => by contradiction
    · rename_i loaded hn
      rintro mishaps r hr
      cases hr
      exact ⟨Registry.Reachable.empty.insertNew hn, hread ts rfl⟩

theorem reachable_of_loadRegistry {path : SlashPath} {r : Registry}
    (h : ((loadRegistry path).run cwd tree).result = .ok r) : r.Reachable := by
  have hensures := @ensures_loadRegistry cwd tree path []
  rw [Session.runAmid_nil] at hensures
  exact (hensures r h).1

end

end ToolRoster
