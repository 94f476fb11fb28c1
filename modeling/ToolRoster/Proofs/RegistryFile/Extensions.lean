import ToolRoster.Proofs.RegistryFile.Outcome
import ToolRoster.Proofs.SlashPath.LastName
import ToolRoster.Proofs.Text.LetterCase
/-!
# What the extension of a file decides

The extension is all that the name of a file tells about its format, and a file whose name tells none
is refused unread. After that a load depends on what the system replies to one read, and its errors
come in the order of its steps.
-/
namespace ToolRoster
open Files (Location Mishap Name Reply Tree names)

namespace Format

def words : Format → List String
  | toml => ["toml"]
  | json => ["json"]
  | yaml => ["yaml", "yml"]

/-- An extension that is a word of the format in some ASCII case. -/
def Spelled (format : Format) (extension : List Char) : Prop :=
  ∃ word ∈ format.words, Text.SameButCase extension word.toList

theorem ofExtension?_eq_some_iff_lowerCase {extension : List Char} {format : Format} :
    ofExtension? extension = some format ↔
      ∃ word ∈ format.words, Text.lowerCase extension = word.toList := by
  have hword : ∀ word : String,
      String.ofList (Text.lowerCase extension) = word ↔ Text.lowerCase extension = word.toList := by
    intro word
    rw [← String.toList_inj, String.toList_ofList]
  unfold ofExtension?
  simp only [hword, Bool.or_eq_true, decide_eq_true_eq]
  generalize Text.lowerCase extension = lower
  cases format with
  | toml =>
    simp only [words, List.mem_singleton, exists_eq_left]
    split_ifs <;> simp_all
  | json =>
    simp only [words, List.mem_singleton, exists_eq_left]
    split_ifs <;> simp_all
  | yaml =>
    simp only [words, List.mem_cons, List.not_mem_nil, or_false, exists_eq_or_imp, exists_eq_left]
    split_ifs <;> simp_all

/-- Lowering by the Unicode rule finds the ASCII cases of the words and nothing else: no letter of a
word is what a letter outside ASCII becomes. -/
theorem spelled_iff_lowerCase {extension : List Char} {format : Format} :
    format.Spelled extension ↔ ∃ word ∈ format.words, Text.lowerCase extension = word.toList := by
  have hascii : ∀ word ∈ format.words, ∀ d ∈ word.toList, d.toNat < 0x80 ∧ d ≠ 'i' ∧ d ≠ 'k' := by
    have hall : (format.words.all fun word => word.toList.all fun d =>
        d.toNat < 0x80 && d ≠ 'i' && d ≠ 'k') = true := by
      cases format <;> decide
    simpa [and_assoc] using hall
  have hsmall : ∀ word ∈ format.words, word.toList.map Char.toLower = word.toList := by
    cases format <;> decide
  refine exists_congr fun word => and_congr_right fun hmem => ?_
  rw [Text.sameButCase_iff_of_small (hsmall word hmem), Text.lowerCase_eq_iff (hascii word hmem)]

theorem ofExtension?_eq_some_iff {extension : List Char} {format : Format} :
    ofExtension? extension = some format ↔ format.Spelled extension :=
  ofExtension?_eq_some_iff_lowerCase.trans spelled_iff_lowerCase.symm

def Shown (format : Format) (path : SlashPath) : Prop :=
  ∃ name extension, (names path.chars).getLast? = some name ∧
    SlashPath.IsExtension name extension ∧ format.Spelled extension

/-- A path that shows no format: it has no name, or its last name has no dot behind its first
character, or what follows the last dot is no word of a format. -/
def Unshown (path : SlashPath) : Prop :=
  names path.chars = [] ∨ ∃ name, (names path.chars).getLast? = some name ∧
    ('.' ∉ name.tail ∨ ∃ extension, SlashPath.IsExtension name extension ∧
      ∀ format : Format, ¬format.Spelled extension)

theorem ofName?_eq_some_iff {name : Name} {format : Format} : ofName? name = some format ↔
    ∃ extension, SlashPath.IsExtension name extension ∧ format.Spelled extension := by
  simp only [ofName?, Option.bind_eq_some_iff, SlashPath.extensionOf?_eq_some_iff,
    ofExtension?_eq_some_iff]

theorem ofPath?_eq_some_iff {path : SlashPath} {format : Format} :
    ofPath? path = some format ↔ format.Shown path := by
  simp only [ofPath?_eq, SlashPath.fileName?_eq, Option.bind_eq_some_iff, ofName?_eq_some_iff,
    Shown, exists_and_left]

theorem ofName?_eq_none_iff {name : Name} : ofName? name = none ↔
    '.' ∉ name.tail ∨ ∃ extension, SlashPath.IsExtension name extension ∧
      ∀ format : Format, ¬format.Spelled extension := by
  unfold ofName?
  cases hext : SlashPath.extensionOf? name with
  | none => exact iff_of_true rfl (Or.inl (SlashPath.extensionOf?_eq_none_iff.mp hext))
  | some extension =>
    have hdot : ¬ '.' ∉ name.tail := by
      rw [← SlashPath.extensionOf?_eq_none_iff, hext]
      simp
    simp only [Option.bind_some, hdot, false_or, ← SlashPath.extensionOf?_eq_some_iff, hext,
      Option.some.injEq, exists_eq_left', Option.eq_none_iff_forall_not_mem, Option.mem_def,
      ofExtension?_eq_some_iff]

theorem ofPath?_eq_none_iff {path : SlashPath} : ofPath? path = none ↔ Unshown path := by
  rw [ofPath?_eq, SlashPath.fileName?_eq, Unshown, ← List.getLast?_eq_none_iff]
  cases (names path.chars).getLast? with
  | none => simp
  | some name => simp [ofName?_eq_none_iff]

theorem unshown_or_shown (path : SlashPath) :
    Unshown path ∨ ∃ format : Format, format.Shown path := by
  cases h : ofPath? path with
  | none => exact Or.inl (ofPath?_eq_none_iff.mp h)
  | some format => exact Or.inr ⟨format, ofPath?_eq_some_iff.mp h⟩

end Format

def FileError.moved (path : SlashPath) : FileError → FileError
  | .io _ refusal => .io path refusal
  | .parse _ format detail => .parse path format detail
  | .unsupported extension => .unsupported extension

section
variable {α : Type} (decoders : Decoders α) {path : SlashPath} {format : Format} {cwd : Location}
  {mishaps : List Mishap} {t : Tree}

theorem result_loadFile_unshown (hp : Format.ofPath? path = none) :
    ((loadFile decoders path).runAmid cwd mishaps t).result =
      .error (.unsupported (.ofList (path.extension?.getD []))) := by
  rw [loadFile, hp]
  rfl

theorem decodedFrom_ne_unsupported (reply : Reply) (extension : String) :
    decodedFrom decoders path format reply ≠ .error (.unsupported extension) := by
  unfold decodedFrom
  rcases Files.textOf_cases path reply with ⟨e, he⟩ | ⟨text, -, htext⟩
  · simp [he, bind, Except.bind]
  · rw [htext]
    change (decoders.of format text.toList).mapError _ ≠ _
    cases decoders.of format text.toList <;> simp [Except.mapError]

theorem decodedFrom_moved (other : SlashPath) (reply : Reply) :
    decodedFrom decoders other format reply =
      (decodedFrom decoders path format reply).mapError (.moved other) := by
  have hread : Files.textOf other reply = (Files.textOf path reply).mapError (.moved other) := by
    cases reply with
    | error e => rfl
    | ok bytes =>
      simp only [Files.textOf]
      cases String.fromUTF8? bytes <;> rfl
  rw [decodedFrom, hread, decodedFrom]
  rcases Files.textOf_cases path reply with ⟨e, he⟩ | ⟨text, -, htext⟩
  · rw [he]
    rfl
  · rw [htext]
    change (decoders.of format text.toList).mapError _ =
      ((decoders.of format text.toList).mapError _).mapError _
    cases decoders.of format text.toList <;> rfl

theorem decodedFrom_of_not_text {bytes : ByteArray} (h : ∀ text : String, text.toUTF8 ≠ bytes) :
    decodedFrom decoders path format (.ok bytes) = .error (.io path .notText) := by
  rw [decodedFrom, Files.textOf_of_not_text h]
  rfl

theorem decodedFrom_text (text : String) :
    decodedFrom decoders path format (.ok text.toUTF8) =
      (decoders.of format text.toList).mapError (.parse path format) := by
  rw [decodedFrom, Files.textOf_eq_ok_iff.mpr rfl]
  rfl

theorem answerAmid_read_directory (mishap : Mishap) {place : Location}
    (hl : t.locate cwd path.chars = .ok place) (hd : t.node? place = some .directory) :
    ∃ refusal, (t.answerAmid cwd mishap (.read path.chars)).1 = .error refusal := by
  cases mishap with
  | none =>
    refine ⟨.isDirectory, ?_⟩
    simp only [Tree.answerAmid, Tree.answer, Tree.read, hl, hd, bind, Except.bind]
  | some refusal => exact ⟨refusal, rfl⟩

theorem unsupported_extension {extension : String} (h : extension.toList = path.extension?.getD []) :
    (names path.chars).getLast? = none ∧ extension = "" ∨
    ∃ name, (names path.chars).getLast? = some name ∧
      (SlashPath.IsExtension name extension.toList ∨ '.' ∉ name.tail ∧ extension = "") := by
  rw [SlashPath.extension?, SlashPath.fileName?_eq] at h
  cases hn : (names path.chars).getLast? with
  | none =>
    rw [hn] at h
    exact Or.inl ⟨rfl, String.toList_eq_nil_iff.mp h⟩
  | some name =>
    refine Or.inr ⟨name, rfl, ?_⟩
    rw [hn, Option.bind_some] at h
    cases hext : SlashPath.extensionOf? name with
    | none =>
      rw [hext] at h
      exact Or.inr ⟨SlashPath.extensionOf?_eq_none_iff.mp hext, String.toList_eq_nil_iff.mp h⟩
    | some written =>
      rw [hext, Option.getD_some] at h
      exact Or.inl (h ▸ SlashPath.extensionOf?_eq_some_iff.mp hext)

theorem unshown_of_unsupported {extension : String}
    (h : ((loadFile decoders path).runAmid cwd mishaps t).result =
      .error (.unsupported extension)) :
    Format.Unshown path ∧ extension.toList = path.extension?.getD [] := by
  cases hp : Format.ofPath? path with
  | none =>
    rw [result_loadFile_unshown decoders hp] at h
    injection h with herror
    injection herror with hext
    exact ⟨Format.ofPath?_eq_none_iff.mp hp, by rw [← hext, String.toList_ofList]⟩
  | some format =>
    rw [result_loadFile decoders hp] at h
    exact absurd h (decodedFrom_ne_unsupported _ _ _)

end

/-- Whether a load ends in the error of an unsupported format is for the name of the file alone, and
the error tells the extension as it is written. Any other load has the format that the extension
spells, and the reply to its read decides the rest. A refusal and bytes that are no text come before
what the decoder says, and two files of one format with one reply load alike. -/
theorem load_by_extension {α : Type} (decoders : Decoders α) (path : SlashPath) (cwd : Location) :
    let load (p : SlashPath) (here : Location) (mishap : Mishap) (u : Tree) :=
      ((loadFile decoders p).runAmid here [mishap] u).result
    let reply (p : SlashPath) (here : Location) (mishap : Mishap) (u : Tree) :=
      (u.answerAmid here mishap (.read p.chars)).1
    (∀ mishap t,
      (∃ extension, load path cwd mishap t = .error (.unsupported extension)) ↔
        Format.Unshown path) ∧
    (∀ mishap t extension, load path cwd mishap t = .error (.unsupported extension) →
      (names path.chars).getLast? = none ∧ extension = "" ∨
      ∃ name, (names path.chars).getLast? = some name ∧
        (SlashPath.IsExtension name extension.toList ∨ '.' ∉ name.tail ∧ extension = "")) ∧
    (∀ (format : Format) extension, format.Spelled extension ↔
      ∃ word ∈ format.words, Text.lowerCase extension = word.toList) ∧
    (Format.Unshown path ∨ ∃ format : Format, format.Shown path) ∧
    ∀ format : Format, format.Shown path →
      (∀ mishap t,
        (∀ refusal, reply path cwd mishap t = .error refusal →
          load path cwd mishap t = .error (.io path refusal)) ∧
        (∀ place, t.locate cwd path.chars = .ok place → t.node? place = some .directory →
          ∃ refusal, load path cwd mishap t = .error (.io path refusal)) ∧
        (∀ bytes, reply path cwd mishap t = .ok bytes → (∀ text : String, text.toUTF8 ≠ bytes) →
          load path cwd mishap t = .error (.io path .notText)) ∧
        ∀ text : String, reply path cwd mishap t = .ok text.toUTF8 →
          load path cwd mishap t =
            (decoders.of format text.toList).mapError (.parse path format)) ∧
      ∀ other here mishap' t' mishap t, format.Shown other →
        reply other here mishap' t' = reply path cwd mishap t →
        load other here mishap' t' = (load path cwd mishap t).mapError (.moved other) := by
  intro load reply
  have hshown : ∀ {p format}, format.Shown p → ∀ here mishap t,
      load p here mishap t = decodedFrom decoders p format (reply p here mishap t) :=
    fun hp here mishap t => result_loadFile decoders (Format.ofPath?_eq_some_iff.mpr hp)
  refine ⟨fun mishap t => ⟨?_, fun hp => ?_⟩, fun mishap t extension hload => ?_,
    fun format extension => Format.spelled_iff_lowerCase, Format.unshown_or_shown path,
    fun format hp => ⟨fun mishap t => ?_, ?_⟩⟩
  · rintro ⟨extension, hload⟩
    exact (unshown_of_unsupported decoders hload).1
  · exact ⟨_, result_loadFile_unshown decoders (Format.ofPath?_eq_none_iff.mpr hp)⟩
  · exact unsupported_extension (unshown_of_unsupported decoders hload).2
  · rw [hshown hp]
    refine ⟨fun refusal hr => congrArg (decodedFrom decoders path format) hr, fun place hl hd => ?_,
      fun bytes hr hno => by rw [hr, decodedFrom_of_not_text decoders hno],
      fun text hr => by rw [hr, decodedFrom_text]⟩
    obtain ⟨refusal, hr⟩ := answerAmid_read_directory mishap hl hd
    exact ⟨refusal, congrArg (decodedFrom decoders path format) hr⟩
  · intro other here mishap' t' mishap t hother hreply
    rw [hshown hother, hshown hp, hreply]
    exact decodedFrom_moved decoders other _

theorem load_by_extension_yml :
    let path := SlashPath.ofString "out\\tools.v1.YmL"
    let other := SlashPath.ofString "../.b.yaml"
    let t := ((Tree.empty.makeDirectory ["out".toList]).put
      ["tools.v1.YmL".toList, "out".toList] (.file "name: a\nname: b\n".toUTF8)).put
      [".b.yaml".toList] (.file "name: a\nname: b\n".toUTF8)
    Format.yaml.Shown path ∧ Format.yaml.Shown other ∧
      ((loadFile recordDecoders other).runAmid ["out".toList] [none] t).result =
        ((loadFile recordDecoders path).runAmid [] [none] t).result.mapError (.moved other) ∧
      Format.Unshown (SlashPath.ofString "out/.yaml") ∧
      ∃ extension, ((loadFile recordDecoders (SlashPath.ofString "out/.yaml")).runAmid []
        [none] t).result = .error (.unsupported extension) := by
  intro path other t
  have hpath : Format.yaml.Shown path := Format.ofPath?_eq_some_iff.mp (by decide)
  have hother : Format.yaml.Shown other := Format.ofPath?_eq_some_iff.mp (by decide)
  have hbare : Format.Unshown (SlashPath.ofString "out/.yaml") :=
    Format.ofPath?_eq_none_iff.mp (by decide)
  refine ⟨hpath, hother, ?_, hbare, ?_⟩
  · exact ((load_by_extension recordDecoders path []).2.2.2.2 .yaml hpath).2 other ["out".toList]
      none t none t hother (by decide +kernel)
  · exact ((load_by_extension recordDecoders (SlashPath.ofString "out/.yaml") []).1 none t).mpr
      hbare

end ToolRoster
