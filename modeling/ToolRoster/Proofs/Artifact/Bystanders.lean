import ToolRoster.Proofs.Artifact.Generation
import ToolRoster.Proofs.SlashPath.LastName
/-!
# What generating leaves alone

An artifact and its temporary file have names that tell no format, whatever files are there before.
So generating keeps the directories and every file that could hold a registry.
-/
namespace ToolRoster
open Files (Location Tree temporaryFor temporaryName)

theorem Format.ofName?_temporaryName (name : Files.Name) (process : Nat) :
    ofName? (temporaryName name process) = none := by
  have happend : temporaryName name process =
      ('.' :: name ++ '.' :: Nat.toDigits 10 process) ++ '.' :: "tmp".toList := by
    simp [temporaryName]
  have hext : SlashPath.extensionOf? (temporaryName name process) = some "tmp".toList := by
    rw [happend, SlashPath.extensionOf?_append _ (by decide), if_neg (by simp)]
  rw [ofName?, hext]
  decide

/-- Directories stay, and so does whatever has a name that tells a format. -/
def KeepsFormatted (t t' : Tree) : Prop :=
  t.SameDirectories t' ∧
    ∀ name outer, Format.ofName? name ≠ none → t'.node? (name :: outer) = t.node? (name :: outer)

theorem KeepsFormatted.refl (t : Tree) : KeepsFormatted t t :=
  ⟨fun _ => Iff.rfl, fun _ _ _ => rfl⟩

section
variable {t t' : Tree} {cwd : Location}

theorem KeepsFormatted.trans {u : Tree} (h : KeepsFormatted t t') (h' : KeepsFormatted t' u) :
    KeepsFormatted t u :=
  ⟨h.1.trans h'.1, fun name outer hn => (h'.2 name outer hn).trans (h.2 name outer hn)⟩

theorem keepsFormatted_of_agreeBut {name : Files.Name} (hname : Format.ofName? name = none)
    (h : t.AgreeBut t' name) : KeepsFormatted t t' := by
  refine ⟨h.1, fun other outer hother => h.2 _ ?_⟩
  rw [List.head?_cons]
  rintro ⟨⟩
  exact hother hname

theorem keepsFormatted_of_replaced {directory : SlashPath} {name : List Char} {content : ByteArray}
    (hname : IsFileName name) (hformat : Format.ofName? name = none)
    (h : t.Replaced cwd (directory.join name).chars content t') : KeepsFormatted t t' := by
  refine ⟨h.sameDirectories, fun other outer hother => ?_⟩
  obtain ⟨place, hl, -, hframe⟩ := h.node?
  apply hframe
  rintro rfl
  have hlast : (Files.steps (directory.join name).chars).getLast? = some (.down name) := by
    rw [hname.steps_join, List.getLast?_concat]
  obtain ⟨above, he⟩ := Tree.locate_eq_cons hlast hl
  rw [(List.cons.inj he).1] at hother
  exact hother hformat

theorem KeepsFormatted.read_eq (h : KeepsFormatted t t') {path : SlashPath} {format : Format}
    (hp : Format.ofPath? path = some format) {bytes : ByteArray}
    (hr : t.read cwd path.chars = .ok bytes) : t'.read cwd path.chars = .ok bytes := by
  obtain ⟨name, hlast, hname⟩ := Format.getLast?_steps hp
  obtain ⟨loc, hl, -⟩ := Files.bind_eq_ok_iff.mp hr
  rw [← hr]
  apply Tree.read_congr_of_locate
  · rw [hl, h.1.locate_eq_ok hl]
  · intro place hplace
    obtain ⟨outer, rfl⟩ := Tree.locate_eq_cons hlast hplace
    exact h.2 name outer (by simp [hname])

end

namespace Artifact
variable {process : Nat} {cwd : Location}

theorem ensures_write_keepsFormatted {directory : SlashPath} {name : List Char}
    (hname : IsFileName name) (hformat : Format.ofName? name = none) (text : String) (t : Tree) :
    (write process (directory.join name) text).Ensures cwd t fun result t' =>
      ∀ w, result = .ok w → KeepsFormatted t t' := by
  intro mishaps w hw
  obtain ⟨base, hbase, hreplaced⟩ := ensures_written (directory.join name) text t mishaps w hw
  rw [hname.temporaryFor_join] at hbase
  exact (keepsFormatted_of_agreeBut (Format.ofName?_temporaryName name process) hbase).trans
    (keepsFormatted_of_replaced hname hformat hreplaced)

theorem ensures_keepsFormatted (process : Nat) (r : Registry) (directory : SlashPath)
    (cwd : Location) (t : Tree) : (generate process r directory).Ensures cwd t fun result t' =>
      ∀ a, result = .ok a → KeepsFormatted t t' := by
  refine (ensures_logAll (strategyEvents r) t).bind fun _ t₁ h₁ => ?_
  subst h₁
  refine (ensures_write_keepsFormatted isFileName_strategy (by decide) (Strategy.render r) t₁).bind
    fun strategy t₂ h₂ => ?_
  cases strategy with
  | error e => exact fun _ a ha => by contradiction
  | ok w =>
    refine (ensures_write_keepsFormatted isFileName_availability (by decide) (Availability.render r)
      t₂).bind fun listing t₃ h₃ => ?_
    cases listing with
    | error e => exact fun _ a ha => by contradiction
    | ok w' => exact fun _ a _ => (h₂ w rfl).trans (h₃ w' rfl)

end Artifact
end ToolRoster
