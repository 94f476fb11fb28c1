import ToolRoster.Proofs.Files.Replacing
import ToolRoster.Proofs.Files.Ways
/-!
# Reading what was written

A file that has been replaced reads as the text that was written, or as no text. Elsewhere a read is
the same as before if nothing has changed on its way, and the only places that change are the target's
and that of a file left under the temporary name.
-/
namespace ToolRoster

theorem fromUTF8?_eq_some_iff {bytes : ByteArray} {text : String} :
    String.fromUTF8? bytes = some text ↔ text.toUTF8 = bytes := by
  unfold String.fromUTF8?
  split
  · rw [Option.some.injEq]
    constructor
    · rintro rfl
      rfl
    · rintro rfl
      rfl
  · rename_i hinvalid
    constructor
    · exact fun h => by contradiction
    · rintro rfl
      exact absurd text.isValidUTF8 hinvalid

namespace Files

def textOf (path : SlashPath) : Reply → Except FileError String
  | .error e => .error (.io path e)
  | .ok bytes =>
    match String.fromUTF8? bytes with
    | some text => .ok text
    | none => .error (.io path .notText)

theorem result_readText (path : SlashPath) (cwd : Location) (mishaps : List Mishap) (t : Tree) :
    ((readText path).runAmid cwd mishaps t).result =
      textOf path (t.answerAmid cwd (mishaps.headD none) (.read path.chars)).1 := by
  simp only [readText, Session.call, bind, Session.bind, Session.runAmid]
  cases (t.answerAmid cwd (mishaps.headD none) (.read path.chars)).1 with
  | error e => rfl
  | ok bytes =>
    simp only [textOf]
    cases String.fromUTF8? bytes <;> rfl

theorem textOf_eq_ok_iff {path : SlashPath} {bytes : ByteArray} {text : String} :
    textOf path (.ok bytes) = .ok text ↔ text.toUTF8 = bytes := by
  rw [← fromUTF8?_eq_some_iff, textOf]
  cases String.fromUTF8? bytes <;> simp

theorem textOf_of_not_text {path : SlashPath} {bytes : ByteArray}
    (h : ∀ text : String, text.toUTF8 ≠ bytes) : textOf path (.ok bytes) = .error (.io path .notText) := by
  cases hb : String.fromUTF8? bytes with
  | none => rw [textOf, hb]
  | some text => exact absurd (fromUTF8?_eq_some_iff.mp hb) (h text)

theorem textOf_cases (path : SlashPath) (reply : Reply) :
    (∃ e, textOf path reply = .error (.io path e)) ∨
      ∃ text : String, reply = .ok text.toUTF8 ∧ textOf path reply = .ok text := by
  cases reply with
  | error e => exact Or.inl ⟨e, rfl⟩
  | ok bytes =>
    by_cases h : ∃ text : String, text.toUTF8 = bytes
    · obtain ⟨text, rfl⟩ := h
      exact Or.inr ⟨text, rfl, textOf_eq_ok_iff.mpr rfl⟩
    · exact Or.inl ⟨.notText, textOf_of_not_text fun text htext => h ⟨text, htext⟩⟩

section
variable {process : Nat} {path : SlashPath} {content : ByteArray} {cwd : Location}
  {mishaps : List Mishap} {t : Tree}
  (h : ((writeBytes process path content).runAmid cwd mishaps t).result = .ok ())
include h

theorem read_written :
    ((writeBytes process path content).runAmid cwd mishaps t).tree.read cwd path.chars =
      .ok content := by
  obtain ⟨base, -, hreplaced⟩ := ensures_replaced [content] cwd t mishaps h
  rw [joined_singleton] at hreplaced
  exact hreplaced.read

theorem sameDirectories_written :
    t.SameDirectories ((writeBytes process path content).runAmid cwd mishaps t).tree := by
  obtain ⟨base, hbase, hreplaced⟩ := ensures_replaced [content] cwd t mishaps h
  exact hbase.same.trans hreplaced.sameDirectories

theorem node?_written {place : Location} (htarget : t.locate cwd path.chars ≠ .ok place)
    (hleft : t.locate cwd (temporary process path.chars) = .ok place → t.node? place = none) :
    ((writeBytes process path content).runAmid cwd mishaps t).tree.node? place = t.node? place := by
  obtain ⟨base, ⟨hsame, hkept⟩, hreplaced⟩ := ensures_replaced [content] cwd t mishaps h
  obtain ⟨target, hl, -, hframe⟩ := hreplaced.node?
  refine (hframe place ?_).trans ?_
  · rintro rfl
    exact htarget (hsame.symm.locate_eq_ok hl)
  · rcases hkept place with hsame | ⟨hp, hnone⟩
    · exact hsame
    · rw [hnone, hleft (Tree.locate_of_place hp)]

end

/-- A file that a write has replaced reads as the one text with the bytes that were written, or is
refused as no text where there is none; a text reads as it was written. A path to any other place reads
as before, unless that is where a file was left under the temporary name. And a path that leads nowhere
is refused before and after, alike if its way comes to neither. -/
theorem read_after_write (process : Nat) (path : SlashPath) (content : ByteArray) (cwd : Location)
    (mishaps : List Mishap) (t : Tree) :
    let read (u : Tree) (p : SlashPath) := ((readText p).run cwd u).result
    let o := (writeBytes process path content).runAmid cwd mishaps t
    (o.result = .ok () →
      (∀ text : String, read o.tree path = .ok text ↔ text.toUTF8 = content) ∧
      ((∀ text : String, text.toUTF8 ≠ content) →
        read o.tree path = .error (.io path .notText)) ∧
      (∀ (other : SlashPath) place, t.locate cwd other.chars = .ok place →
        t.locate cwd path.chars ≠ .ok place →
        (t.locate cwd (temporary process path.chars) = .ok place → t.node? place = none) →
        read o.tree other = read t other) ∧
      ∀ other : SlashPath, (∀ place, t.locate cwd other.chars ≠ .ok place) →
        (∃ e, read t other = .error (.io other e)) ∧
        (∃ e, read o.tree other = .error (.io other e)) ∧
        ((∀ place ∈ t.way cwd other.chars, t.locate cwd path.chars ≠ .ok place ∧
            (t.locate cwd (temporary process path.chars) = .ok place → t.node? place = none)) →
          read o.tree other = read t other)) ∧
    ∀ text, ((writeText process path text).runAmid cwd mishaps t).result = .ok () →
      read ((writeText process path text).runAmid cwd mishaps t).tree path = .ok text := by
  intro read o
  have hread (u : Tree) (p : SlashPath) : read u p = textOf p (u.read cwd p.chars) := by
    have hresult := result_readText p cwd [] u
    rwa [Session.runAmid_nil] at hresult
  refine ⟨fun hok => ⟨fun text => ?_, fun hno => ?_, fun other place hl htarget hleft => ?_,
    fun other hlost => ⟨?_, ?_, fun hway => ?_⟩⟩, fun text hok => ?_⟩
  · rw [hread, read_written hok, textOf_eq_ok_iff]
  · rw [hread, read_written hok, textOf_of_not_text hno]
  · have hl' : o.tree.locate cwd other.chars = .ok place :=
      (sameDirectories_written hok).locate_eq_ok hl
    have hsame : o.tree.read cwd other.chars = t.read cwd other.chars :=
      Tree.read_congr_of_locate (hl'.trans hl.symm) fun last hlast =>
        node?_written hok (Except.ok.inj (hl.symm.trans hlast) ▸ htarget)
          (Except.ok.inj (hl.symm.trans hlast) ▸ hleft)
    rw [hread, hread, hsame]
  · obtain ⟨e, he⟩ := Tree.read_eq_error_of_locate hlost
    exact ⟨e, by rw [hread, he, textOf]⟩
  · have hlost' : ∀ place, o.tree.locate cwd other.chars ≠ .ok place := fun place hl =>
      hlost place ((sameDirectories_written hok).symm.locate_eq_ok hl)
    obtain ⟨e, he⟩ := Tree.read_eq_error_of_locate hlost'
    exact ⟨e, by rw [hread, he, textOf]⟩
  · have hsame : o.tree.read cwd other.chars = t.read cwd other.chars :=
      Tree.read_congr_of_way fun place hplace =>
        node?_written hok (hway place hplace).1 (hway place hplace).2
    rw [hread, hread, hsame]
  · rw [hread, writeText, read_written hok, textOf_eq_ok_iff]

theorem read_after_write_no_text :
    let t := (Tree.empty.makeDirectory ["out".toList]).put ["b.txt".toList, "out".toList]
      (.file "b\r\n".toUTF8)
    let path := SlashPath.ofString "out/./a.txt"
    let other := SlashPath.ofString "out/../out/b.txt"
    let o := (writeBytes 7 path ⟨#[0xEF, 0xBB, 0xBF, 0xFF]⟩).runAmid [] [] t
    o.result = .ok () ∧ ((readText path).run [] o.tree).result = .error (.io path .notText) ∧
      ((readText other).run [] o.tree).result = .ok "b\r\n" := by
  intro t path other o
  have hok : o.result = .ok () := by decide +kernel
  have hafter := (read_after_write 7 path ⟨#[0xEF, 0xBB, 0xBF, 0xFF]⟩ [] [] t).1 hok
  refine ⟨hok, hafter.2.1 fun text htext => ?_, ?_⟩
  · have hnone : String.fromUTF8? ⟨#[0xEF, 0xBB, 0xBF, 0xFF]⟩ = none := by decide +kernel
    rw [fromUTF8?_eq_some_iff.mpr htext] at hnone
    contradiction
  · exact (hafter.2.2.1 other ["b.txt".toList, "out".toList] (by decide +kernel)
      (by decide +kernel) (by decide +kernel)).trans (by decide +kernel)

/-- A write uses up a file that was left under its temporary name. And a path that goes through the
target as if it were a directory fails before and after, but not alike. -/
theorem read_changes_elsewhere :
    let path := SlashPath.ofString "a.txt"
    let left := SlashPath.ofString ".a.txt.7.tmp"
    let through := SlashPath.ofString "a.txt/../b.txt"
    let t := (Tree.empty.put [left.chars] (.file "left".toUTF8)).put ["b.txt".toList]
      (.file "b".toUTF8)
    let read (u : Tree) (p : SlashPath) := ((readText p).run [] u).result
    let o := (writeText 7 path "new").run [] t
    o.result = .ok () ∧ t.locate [] left.chars ≠ t.locate [] path.chars ∧
      read t left = .ok "left" ∧ read o.tree left = .error (.io left .notFound) ∧
      t.locate [] through.chars ≠ t.locate [] path.chars ∧
      read t through = .error (.io through .notFound) ∧
      read o.tree through = .error (.io through .notDirectory) := by
  decide +kernel

end Files
end ToolRoster
