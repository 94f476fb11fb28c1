import ToolRoster.Proofs.Files.FileNames
import ToolRoster.Proofs.SlashPath.Joining
/-!
# The last name of a path

A path ends in its file name, with nothing but slashes behind it. Where a segment brings a name of
its own, the path that it is joined to has no say in the file name or in the extension.
-/
namespace ToolRoster.SlashPath
open Files (names)

/-- A path that ends in a name: the name starts the path or follows a slash, and only slashes follow
the name. -/
structure EndsIn (path name : List Char) : Prop where
  ne_nil : name ≠ []
  slash_notMem : '/' ∉ name
  exists_split : ∃ before count, (before = [] ∨ before.getLast? = some '/') ∧
    path = before ++ name ++ List.replicate count '/'

theorem eq_append_slashes (path : List Char) :
    path = (path.reverse.dropWhile (· = '/')).reverse ++
      List.replicate (path.reverse.takeWhile (· = '/')).length '/' := by
  have hslashes : path.reverse.takeWhile (· = '/') =
      List.replicate (path.reverse.takeWhile (· = '/')).length '/' := by
    apply List.eq_replicate_of_mem
    intro c hc
    exact of_decide_eq_true (List.all_eq_true.mp List.all_takeWhile c hc)
  calc path
      = (path.reverse.takeWhile (· = '/') ++ path.reverse.dropWhile (· = '/')).reverse := by
        rw [List.takeWhile_append_dropWhile, List.reverse_reverse]
    _ = (path.reverse.dropWhile (· = '/')).reverse ++
          (path.reverse.takeWhile (· = '/')).reverse := List.reverse_append
    _ = _ := by rw [hslashes, List.reverse_replicate, List.length_replicate]

theorem endsIn_of_fileName? {p : SlashPath} {name : List Char} (h : p.fileName? = some name) :
    EndsIn p.chars name := by
  -- Read from the end, the path is slashes, the name, and what stands before it.
  obtain ⟨rest, hrest⟩ : ∃ rest, p.chars.reverse.dropWhile (· = '/') = rest := ⟨_, rfl⟩
  have hpath : p.chars = (rest.dropWhile (· ≠ '/')).reverse ++ (rest.takeWhile (· ≠ '/')).reverse ++
      List.replicate (p.chars.reverse.takeWhile (· = '/')).length '/' := by
    rw [← List.reverse_append, List.takeWhile_append_dropWhile, ← hrest]
    exact eq_append_slashes p.chars
  simp only [fileName?, hrest] at h
  split_ifs at h with hempty
  obtain rfl := Option.some.inj h
  refine ⟨mt List.isEmpty_iff.mpr hempty, ?_, _, _, ?_, hpath⟩
  · rw [List.mem_reverse]
    exact Files.slash_notMem_takeWhile rest
  · cases hd : rest.dropWhile (· ≠ '/') with
    | nil => exact Or.inl rfl
    | cons c before =>
      right
      rw [List.getLast?_reverse, List.head?_cons, Files.eq_slash_of_dropWhile hd]

theorem names_append_slashes (path : List Char) (count : ℕ) :
    names (path ++ List.replicate count '/') = names path := by
  induction count with
  | zero => rw [List.replicate_zero, List.append_nil]
  | succ count ih => rw [List.replicate_succ', ← List.append_assoc, Files.names_append_slash, ih]

theorem EndsIn.fileName?_eq {p : SlashPath} {name : List Char} (h : EndsIn p.chars name) :
    p.fileName? = some name := by
  obtain ⟨hne, hslash, before, count, hbefore, hpath⟩ := h
  have hpush : before ++ name = Files.pushName before name := by
    rcases hbefore with rfl | hlast
    · rfl
    · simp [Files.pushName, hlast]
  rw [SlashPath.fileName?_eq, hpath, names_append_slashes, hpush, Files.names_pushName,
    Files.names_of_name hslash hne, List.getLast?_concat]

theorem fileName?_eq_some_iff {p : SlashPath} {name : List Char} :
    p.fileName? = some name ↔ EndsIn p.chars name :=
  ⟨endsIn_of_fileName?, EndsIn.fileName?_eq⟩

theorem isSome_fileName? (p : SlashPath) : p.fileName?.isSome ↔ ∃ c ∈ p.chars, c ≠ '/' := by
  have hnone : p.fileName? = none ↔ ∀ c ∈ p.chars, c = '/' := by
    rw [SlashPath.fileName?_eq, List.getLast?_eq_none_iff, Files.names_eq_nil_iff]
  rw [Option.isSome_iff_ne_none, Ne, hnone]
  simp only [not_forall, exists_prop, Ne]

/-- What follows the last dot of a name, if the name does not start with this dot. -/
def IsExtension (name extension : List Char) : Prop :=
  '.' ∉ extension ∧ ∃ stem, stem ≠ [] ∧ name = stem ++ '.' :: extension

theorem extensionOf?_append (stem : List Char) {extension : List Char} (h : '.' ∉ extension) :
    extensionOf? (stem ++ '.' :: extension) = if stem = [] then none else some extension := by
  have hpass : ∀ c ∈ extension.reverse, decide (c ≠ '.') = true := by
    intro c hc
    exact decide_eq_true (ne_of_mem_of_not_mem (List.mem_reverse.mp hc) h)
  have hrev : (stem ++ '.' :: extension).reverse = extension.reverse ++ '.' :: stem.reverse := by
    simp
  unfold extensionOf?
  rw [hrev, List.dropWhile_append_of_pos hpass, List.takeWhile_append_of_pos hpass]
  by_cases hstem : stem = []
  · simp [hstem]
  · simp [hstem]

theorem extensionOf?_of_notMem {name : List Char} (h : '.' ∉ name) : extensionOf? name = none := by
  have hpass : ∀ c ∈ name.reverse, decide (c ≠ '.') = true := by
    intro c hc
    exact decide_eq_true (ne_of_mem_of_not_mem (List.mem_reverse.mp hc) h)
  have hdrop : (name.reverse ++ []).dropWhile (· ≠ '.') = [] :=
    List.dropWhile_append_of_pos hpass
  rw [List.append_nil] at hdrop
  rw [extensionOf?, hdrop]

theorem exists_last_dot {name : List Char} (h : '.' ∈ name) :
    ∃ stem extension, name = stem ++ '.' :: extension ∧ '.' ∉ extension := by
  obtain ⟨after, before, hrev, hno⟩ := List.eq_append_cons_of_mem (List.mem_reverse.mpr h)
  refine ⟨before.reverse, after.reverse, ?_, by simpa using hno⟩
  rw [← List.reverse_reverse name, hrev]
  simp

theorem extensionOf?_eq_some_iff {name extension : List Char} :
    extensionOf? name = some extension ↔ IsExtension name extension := by
  constructor
  · intro hext
    by_cases hdot : '.' ∈ name
    · obtain ⟨stem, last, rfl, hno⟩ := exists_last_dot hdot
      rw [extensionOf?_append stem hno] at hext
      split_ifs at hext with hstem
      obtain rfl := Option.some.inj hext
      exact ⟨hno, stem, hstem, rfl⟩
    · rw [extensionOf?_of_notMem hdot] at hext
      contradiction
  · rintro ⟨hno, stem, hstem, rfl⟩
    rw [extensionOf?_append stem hno, if_neg hstem]

theorem extensionOf?_eq_none_iff {name : List Char} :
    extensionOf? name = none ↔ '.' ∉ name.tail := by
  by_cases hdot : '.' ∈ name
  · obtain ⟨stem, last, rfl, hno⟩ := exists_last_dot hdot
    rw [extensionOf?_append stem hno]
    cases stem with
    | nil => simp [hno]
    | cons c stem => simp
  · rw [extensionOf?_of_notMem hdot]
    exact iff_of_true rfl fun htail => hdot (List.mem_of_mem_tail htail)

theorem extension?_eq_some_iff {p : SlashPath} {extension : List Char} :
    p.extension? = some extension ↔
      ∃ name, p.fileName? = some name ∧ IsExtension name extension := by
  simp only [extension?, Option.bind_eq_some_iff, extensionOf?_eq_some_iff]

theorem names_join (p : SlashPath) (segment : List Char) :
    names (p.join segment).chars = names p.chars ++ names (ofChars segment).chars := by
  rw [chars_join, Files.names_pushName, ofChars]

theorem names_ofChars_ne_nil {segment : List Char} (h : ∃ c ∈ segment, c ≠ '/' ∧ c ≠ '\\') :
    names (ofChars segment).chars ≠ [] := by
  obtain ⟨c, hmem, hslash, hback⟩ := h
  rw [Ne, Files.names_eq_nil_iff]
  intro hall
  apply hslash
  exact hall c (List.mem_map.mpr ⟨c, hmem, if_neg hback⟩)

theorem fileName?_join (p : SlashPath) {segment : List Char}
    (h : ∃ c ∈ segment, c ≠ '/' ∧ c ≠ '\\') :
    (p.join segment).fileName? = (ofChars segment).fileName? := by
  rw [SlashPath.fileName?_eq, SlashPath.fileName?_eq, names_join,
    List.getLast?_append_of_ne_nil _ (names_ofChars_ne_nil h)]

/-- A segment that has a name gives its file name and its extension to every path that it is joined
to. The file name of a path is the last of its names. There is one where the path is more than
slashes, and it is what the path ends in, up to slashes behind it. The extension is what follows the
last dot of the file name, if the file name does not start with this dot. -/
theorem join_keeps_name :
    (∀ (p : SlashPath) (segment : List Char), (∃ c ∈ segment, c ≠ '/' ∧ c ≠ '\\') →
      (p.join segment).fileName? = (ofChars segment).fileName? ∧
      (p.join segment).extension? = (ofChars segment).extension?) ∧
    (∀ q : SlashPath, q.fileName? = (names q.chars).getLast?) ∧
    (∀ q : SlashPath, q.fileName?.isSome ↔ ∃ c ∈ q.chars, c ≠ '/') ∧
    (∀ (q : SlashPath) (name : List Char), q.fileName? = some name ↔ EndsIn q.chars name) ∧
    ∀ (q : SlashPath) (extension : List Char), q.extension? = some extension ↔
      ∃ name, q.fileName? = some name ∧ IsExtension name extension := by
  refine ⟨fun p segment h => ⟨fileName?_join p h, ?_⟩, SlashPath.fileName?_eq, isSome_fileName?,
    fun q name => fileName?_eq_some_iff, fun q extension => extension?_eq_some_iff⟩
  rw [extension?, fileName?_join p h, extension?]

theorem join_keeps_name_archive :
    let p := ofString "out.d//.cache/"
    let segment := "\\x/.y.tar.GZ\\/".toList
    (∃ c ∈ segment, c ≠ '/' ∧ c ≠ '\\') ∧
      (p.join segment).fileName? = some ".y.tar.GZ".toList ∧
      (p.join segment).extension? = some "GZ".toList := by
  intro p segment
  have h : ∃ c ∈ segment, c ≠ '/' ∧ c ≠ '\\' := ⟨'x', by decide, by decide⟩
  obtain ⟨hname, hextension⟩ := join_keeps_name.1 p segment h
  have hfile : (ofChars segment).fileName? = some ".y.tar.GZ".toList := by decide
  have hlast : (ofChars segment).extension? = some "GZ".toList := by decide
  exact ⟨h, hname.trans hfile, hextension.trans hlast⟩

end ToolRoster.SlashPath
