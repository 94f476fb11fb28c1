import ToolRoster.Proofs.Toml.Values
/-!
# Documents of TOML read back

A registry file has a table for each record and a line for each setting of it. What is read is the
list of the tables, and each table is the record of its settings.
-/
namespace ToolRoster.Toml
open Decode (Draft Field Setting)

/-- The space in a file: blanks on both sides of an equals sign, and empty lines after a table. -/
structure Layout where
  before : Nat
  after : Nat
  emptyLines : Nat

def blanks (n : Nat) : List Char := List.replicate n ' '

section
variable (w : Layout)

def writeLine (x : Setting) : List Char :=
  x.field.key.toList ++
    (blanks w.before ++ '=' :: (blanks w.after ++ (Json.writeValue x ++ ['\n'])))

def headerLine : List Char := '[' :: '[' :: (Decode.toolKey.toList ++ [']', ']', '\n'])

def writeTable (t : Tool) : List Char :=
  headerLine ++ ((Decode.settings t).flatMap (writeLine w) ++ List.replicate w.emptyLines '\n')

def writeFile (ts : List Tool) : List Char := ts.flatMap (writeTable w)

def writeSettings (xs : List Setting) : List Char :=
  headerLine ++ (xs.flatMap (writeLine w) ++ List.replicate w.emptyLines '\n')

def writeTables (xss : List (List Setting)) : List Char := xss.flatMap (writeSettings w)

theorem writeFile_eq (ts : List Tool) : writeFile w ts = writeTables w (ts.map Decode.settings) := by
  rw [writeTables, List.flatMap_map]
  rfl

end

def Bare (key rest : List Char) : Prop :=
  key ≠ [] ∧ (∀ c ∈ key, isBare c) ∧ ∀ c ∈ rest.head?, isBare c = false

theorem readKeyPart_bare {key rest : List Char} (h : Bare key rest) :
    readKeyPart (key ++ rest) = some (key, rest) := by
  obtain ⟨hne, hkey, hrest⟩ := h
  have hstop : rest.takeWhile isBare = [] ∧ rest.dropWhile isBare = rest := by
    cases rest with
    | nil => exact ⟨rfl, rfl⟩
    | cons c cs => simp [hrest c rfl]
  have htake : (key ++ rest).takeWhile isBare = key := by
    rw [List.takeWhile_append_of_pos hkey, hstop.1, List.append_nil]
  have hdrop : (key ++ rest).dropWhile isBare = rest := by
    rw [List.dropWhile_append_of_pos hkey, hstop.2]
  have hmark : ∀ c r, isBare c = false → key ++ rest ≠ c :: r := by
    intro c r hc he
    obtain ⟨k, ks, rfl⟩ := List.exists_cons_of_ne_nil hne
    obtain rfl := (List.cons.inj he).1
    simp [hkey k List.mem_cons_self] at hc
  unfold readKeyPart
  split
  · rename_i r he
    exact absurd he (hmark '"' r (by decide))
  · rename_i r he
    exact absurd he (hmark '\x27' r (by decide))
  · simp [htake, hdrop, hne]

theorem isBlank_of_isBare {c : Char} (h : isBare c) : isBlank c = false := by
  apply Bool.eq_false_iff.mpr
  intro hblank
  have hc : c = ' ' ∨ c = '\t' := by simpa [isBlank] using hblank
  rcases hc with rfl | rfl
  · contradiction
  · contradiction

theorem skipBlank_cons {c : Char} (hc : isBlank c = false) (cs : List Char) :
    skipBlank (c :: cs) = c :: cs := by
  rw [skipBlank, List.dropWhile_cons_of_neg (by simp [hc])]

theorem skipBlank_blanks (n : Nat) (cs : List Char) : skipBlank (blanks n ++ cs) = skipBlank cs := by
  have hblanks : ∀ c ∈ blanks n, isBlank c := by
    intro c hc
    obtain rfl := List.eq_of_mem_replicate hc
    decide
  rw [skipBlank, List.dropWhile_append_of_pos hblanks, skipBlank]

theorem readKey_bare {key rest : List Char} (h : Bare key rest) {c : Char} {cs : List Char}
    (hrest : skipBlank rest = c :: cs) (hc : c ≠ '.') :
    readKey (key ++ rest) = .ok (⟨[], .ofList key⟩, c :: cs) := by
  have hblank : skipBlank (key ++ rest) = key ++ rest := by
    obtain ⟨hne, hkey, -⟩ := h
    obtain ⟨k, ks, rfl⟩ := List.exists_cons_of_ne_nil hne
    exact skipBlank_cons (isBlank_of_isBare (hkey k List.mem_cons_self)) _
  have hparts : readKeyParts ((key ++ rest).length + 1) (key ++ rest) =
      some ([.ofList key], c :: cs) := by
    simp [readKeyParts, hblank, readKeyPart_bare h, hrest, hc]
  simp only [readKey, hparts]
  rfl

theorem bare_key (f : Field) (n : Nat) (rest : List Char) :
    Bare f.key.toList (blanks n ++ '=' :: rest) := by
  refine ⟨by cases f <;> decide, List.all_eq_true.mp (by cases f <;> decide), ?_⟩
  cases n with
  | zero => simp [blanks, isBare]
  | succ n => simp [blanks, List.replicate_succ, isBare]

theorem readKey_line (f : Field) (n : Nat) (rest : List Char) :
    readKey (f.key.toList ++ (blanks n ++ '=' :: rest)) = .ok (⟨[], f.key⟩, '=' :: rest) := by
  have hrest : skipBlank (blanks n ++ '=' :: rest) = '=' :: rest := by
    rw [skipBlank_blanks, skipBlank_cons (by decide)]
  have hread := readKey_bare (bare_key f n rest) hrest (by decide)
  rwa [String.ofList_toList] at hread

theorem skipBlank_value (x : Setting) (rest : List Char) :
    skipBlank (Json.writeValue x ++ rest) = Json.writeValue x ++ rest := by
  have hvisible : ∃ c cs, Json.writeValue x = c :: cs ∧ isBlank c = false := by
    cases x with
    | name s => exact ⟨_, _, rfl, by decide⟩
    | available b => cases b <;> exact ⟨_, _, rfl, by decide⟩
    | capability c => exact ⟨_, _, rfl, by decide⟩
    | fallback f => cases f <;> exact ⟨_, _, rfl, by decide⟩
    | useCases us => exact ⟨_, _, rfl, by decide⟩
  obtain ⟨c, cs, hv, hc⟩ := hvisible
  rw [hv, List.cons_append]
  exact skipBlank_cons hc _

section
variable (w : Layout)

theorem readMember_line {x : Setting} (hx : x.Printable) (depth : Nat) (rest : List Char) :
    readMember (readValue (depth + 1)) (writeLine w x ++ rest) =
      .ok ((⟨[], x.field.key⟩, nodeOf x), '\n' :: rest) := by
  have hvalue := reads_value hx depth ('\n' :: rest) (by simp)
  simp only [writeLine, List.append_assoc, List.cons_append, readMember, readKey_line, bind,
    Except.bind, List.nil_append, skipBlank_blanks, skipBlank_value, hvalue]

theorem addMember_fresh {es : Entries} {key : String} (h : es.lookup key = none) (n : Node)
    (cs : List Char) : addMember es ⟨[], key⟩ n cs = .ok (es ++ [(key, n)]) := by
  simp only [addMember, Entries.addKey, List.isEmpty_nil, if_true, Entries.add, h]
  rfl

theorem readLines_line {x : Setting} (hx : x.Printable) {b : Builder}
    (hfresh : b.current.lookup x.field.key = none) (fuel : Nat) (rest : List Char) :
    readLines (fuel + 1) b (writeLine w x ++ rest) =
      readLines fuel { b with current := b.current ++ [(x.field.key, nodeOf x)] } rest := by
  have hmember : readMember (readValue (depthLimit - 1)) (writeLine w x ++ rest) = _ :=
    readMember_line w hx 78 rest
  have hstart : ∃ k ks, writeLine w x ++ rest = k :: ks ∧ isBare k := by
    obtain ⟨hne, hkey, -⟩ := bare_key x.field 0 []
    obtain ⟨k, ks, hk⟩ := List.exists_cons_of_ne_nil hne
    exact ⟨k, _, by rw [writeLine, hk]; rfl, hkey k (hk ▸ List.mem_cons_self)⟩
  obtain ⟨k, ks, hk, hbare⟩ := hstart
  have hmark : ∀ c, isBare c = false → k ≠ c := by
    rintro c hc rfl
    simp [hbare] at hc
  rw [hk] at hmember ⊢
  have hline : readLine b (k :: ks) =
      .ok ({ b with current := b.current ++ [(x.field.key, nodeOf x)] }, rest) := by
    unfold readLine
    split
    · rename_i he
      exact absurd (List.cons.inj he).1 (hmark '[' (by decide))
    · rename_i he
      exact absurd (List.cons.inj he).1 (hmark '[' (by decide))
    · simp only [hmember, bind, Except.bind, addMember_fresh hfresh]
      rfl
  rw [readLines, skipBlank_cons (isBlank_of_isBare hbare)]
  simp [hmark '#' (by decide), hmark '\n' (by decide), hmark '\r' (by decide), hline, bind,
    Except.bind]

def entriesOf (xs : List Setting) : Entries := xs.map fun x => (x.field.key, nodeOf x)

theorem readLines_lines {xs : List Setting} (hxs : ∀ x ∈ xs, x.Printable)
    (hnodup : (xs.map Setting.field).Nodup) {b : Builder}
    (hfresh : ∀ x ∈ xs, b.current.lookup x.field.key = none) (fuel : Nat) (rest : List Char) :
    readLines (fuel + xs.length) b (xs.flatMap (writeLine w) ++ rest) =
      readLines fuel { b with current := b.current ++ entriesOf xs } rest := by
  induction xs generalizing b with
  | nil => simp [entriesOf]
  | cons x xs ih =>
    obtain ⟨hx, hxs⟩ := List.forall_mem_cons.mp hxs
    obtain ⟨hxfresh, hfresh⟩ := List.forall_mem_cons.mp hfresh
    rw [List.map_cons] at hnodup
    obtain ⟨hnew, hnodup⟩ := List.nodup_cons.mp hnodup
    have hlater : ∀ y ∈ xs,
        (b.current ++ [(x.field.key, nodeOf x)]).lookup y.field.key = none := by
      intro y hy
      have hne : y.field.key ≠ x.field.key := fun he =>
        hnew (Field.key_injective he ▸ List.mem_map_of_mem hy)
      rw [List.lookup_append, hfresh y hy, List.lookup_cons, beq_false_of_ne hne]
      rfl
    rw [List.flatMap_cons, List.append_assoc, List.length_cons, ← Nat.add_assoc,
      readLines_line w hx hxfresh, ih hxs hnodup hlater]
    simp [entriesOf]

end

theorem readLines_emptyLines (b : Builder) (fuel n : Nat) (rest : List Char) :
    readLines (fuel + n) b (List.replicate n '\n' ++ rest) = readLines fuel b rest := by
  induction n with
  | zero => rfl
  | succ n ih =>
    rw [List.replicate_succ, List.cons_append, ← Nat.add_assoc, readLines, skipBlank_cons (by decide)]
    exact ih

def toolHeader : Header := ⟨⟨[], Decode.toolKey⟩, true⟩

theorem readLines_header {b : Builder} {root : Entries} (hclose : b.close = .ok root) (fuel : Nat)
    (rest : List Char) :
    readLines (fuel + 1) b (headerLine ++ rest) =
      readLines fuel ⟨root, [], some toolHeader⟩ rest := by
  have hbare : Bare Decode.toolKey.toList (']' :: ']' :: '\n' :: rest) :=
    ⟨by decide, List.all_eq_true.mp (by decide), by simp [isBare]⟩
  have hkey := readKey_bare hbare rfl (show ']' ≠ '.' by decide)
  have hheader : readHeader true (Decode.toolKey.toList ++ ']' :: ']' :: '\n' :: rest) =
      .ok (toolHeader, '\n' :: rest) := by
    simp only [readHeader, hkey, String.ofList_toList, bind, Except.bind]
    rfl
  have hstart : b.start toolHeader = .ok ⟨root, [], some toolHeader⟩ := by
    simp only [Builder.start, hclose, bind, Except.bind]
    rfl
  have hline : startHeader b true (Decode.toolKey.toList ++ ']' :: ']' :: '\n' :: rest) =
      .ok (⟨root, [], some toolHeader⟩, rest) := by
    simp only [startHeader, hheader, hstart, bind, Except.bind]
    rfl
  have htext : headerLine ++ rest =
      '[' :: '[' :: (Decode.toolKey.toList ++ ']' :: ']' :: '\n' :: rest) := by
    simp [headerLine]
  rw [htext, readLines, skipBlank_cons (by decide)]
  simp [readLine, hline, bind, Except.bind]

def rootOf (tables : List Entries) : Entries :=
  if tables.isEmpty then [] else [(Decode.toolKey, .tables tables)]

theorem close_table (tables : List Entries) (current : Entries) :
    (⟨rootOf tables, current, some toolHeader⟩ : Builder).close =
      .ok (rootOf (tables ++ [current])) := by
  cases tables with
  | nil => rfl
  | cons es tables =>
    simp [Builder.close, Entries.within, Builder.settle, toolHeader, rootOf, Entries.set]

section
variable (w : Layout)

theorem writeTables_cons (xs : List Setting) (xss : List (List Setting)) :
    writeTables w (xs :: xss) = headerLine ++ (xs.flatMap (writeLine w) ++
      (List.replicate w.emptyLines '\n' ++ writeTables w xss)) := by
  simp only [writeTables, List.flatMap_cons, writeSettings, List.append_assoc]

def linesOf : List (List Setting) → Nat
  | [] => 0
  | xs :: xss => w.emptyLines + xs.length + 1 + linesOf xss

theorem readLines_tables {xss : List (List Setting)} (hxss : ∀ xs ∈ xss, ∀ x ∈ xs, x.Printable)
    (hnodup : ∀ xs ∈ xss, (xs.map Setting.field).Nodup) {tables : List Entries} {b : Builder}
    (hclose : b.close = .ok (rootOf tables)) (fuel : Nat) :
    ∃ b', readLines (fuel + linesOf w xss + 1) b (writeTables w xss) = .ok b' ∧
      b'.close = .ok (rootOf (tables ++ xss.map entriesOf)) := by
  -- A table is still open when the next header comes, which closes it; the last one stays open.
  induction xss generalizing tables b with
  | nil =>
    refine ⟨b, ?_, by simpa using hclose⟩
    rw [writeTables, List.flatMap_nil, readLines]
    rfl
  | cons xs xss ih =>
    obtain ⟨hxs, hxss⟩ := List.forall_mem_cons.mp hxss
    obtain ⟨hxsNodup, hnodup⟩ := List.forall_mem_cons.mp hnodup
    obtain ⟨b', hread, hlast⟩ := ih hxss hnodup (close_table tables (entriesOf xs))
    refine ⟨b', ?_, by simpa using hlast⟩
    have hfuel : fuel + linesOf w (xs :: xss) + 1 =
        fuel + linesOf w xss + 1 + w.emptyLines + xs.length + 1 := by
      rw [linesOf]
      omega
    have hlines := readLines_lines w hxs hxsNodup (b := ⟨rootOf tables, [], some toolHeader⟩)
      (fun _ _ => rfl) (fuel + linesOf w xss + 1 + w.emptyLines)
      (List.replicate w.emptyLines '\n' ++ writeTables w xss)
    rw [hfuel, writeTables_cons, readLines_header hclose, hlines, readLines_emptyLines]
    exact hread

theorem length_le_length_lines (xs : List Setting) :
    xs.length ≤ (xs.flatMap (writeLine w)).length := by
  induction xs with
  | nil => exact Nat.le_refl 0
  | cons x xs ih =>
    have hx : 1 ≤ (writeLine w x).length := by
      simp only [writeLine, List.length_append, List.length_cons]
      omega
    rw [List.flatMap_cons, List.length_append, List.length_cons]
    omega

theorem linesOf_le_length (xss : List (List Setting)) :
    linesOf w xss ≤ (writeTables w xss).length := by
  induction xss with
  | nil => exact Nat.le_refl 0
  | cons xs xss ih =>
    have hlines := length_le_length_lines w xs
    have hheader : headerLine.length = 9 := rfl
    rw [linesOf, writeTables_cons, List.length_append, List.length_append, List.length_append,
      List.length_replicate, hheader]
    omega

theorem readDocument_writeTables {xss : List (List Setting)}
    (hxss : ∀ xs ∈ xss, ∀ x ∈ xs, x.Printable)
    (hnodup : ∀ xs ∈ xss, (xs.map Setting.field).Nodup) :
    readDocument (writeTables w xss) = .ok (rootOf (xss.map entriesOf)) := by
  have hmark : skipMark (writeTables w xss) = writeTables w xss := by
    cases xss with
    | nil => rfl
    | cons xs xss => rfl
  have hfuel : (writeTables w xss).length + 1 =
      (writeTables w xss).length - linesOf w xss + linesOf w xss + 1 := by
    have hle := linesOf_le_length w xss
    omega
  have hopen : ({} : Builder).close = .ok (rootOf []) := rfl
  obtain ⟨b, hread, hclose⟩ := readLines_tables w hxss hnodup hopen
    ((writeTables w xss).length - linesOf w xss)
  rw [readDocument, hmark, hfuel, hread]
  simp only [bind, Except.bind, hclose, List.nil_append]
  rfl

end

theorem draftOf_entriesOf {xs : List Setting} (hxs : ∀ x ∈ xs, x.Printable) (d : Draft) :
    draftOf d (entriesOf xs) = .ok (xs.foldl Draft.set d) := by
  induction xs generalizing d with
  | nil => rfl
  | cons x xs ih =>
    obtain ⟨hx, hxs⟩ := List.forall_mem_cons.mp hxs
    simp only [entriesOf, List.map_cons, draftOf, Field.ofKey?_key, setting?_nodeOf hx, bind,
      Except.bind]
    exact ih hxs (d.set x)

theorem record?_table {xs : List Setting} {t : Tool} (hxs : ∀ x ∈ xs, x.Printable)
    (h : Decode.Makes xs t) : (Node.table .header (entriesOf xs)).record? = .ok t := by
  simp only [Node.record?, Node.entries?, recordOf, draftOf_entriesOf hxs, bind, Except.bind,
    h.finish]
  rfl

section
variable {β : Type} {settings : β → List Setting} {value : β → Tool} {bs : List β}
  (hprintable : ∀ b ∈ bs, ∀ x ∈ settings b, x.Printable)
  (h : ∀ b ∈ bs, Decode.Makes (settings b) (value b))
include hprintable h

theorem fileOf_rootOf :
    fileOf (rootOf ((bs.map settings).map entriesOf)) = .ok (bs.map value) := by
  have hrecords : (((bs.map settings).map entriesOf).map (Node.table .header)).mapM
      Node.record? = .ok (bs.map value) := by
    rw [List.map_map, List.map_map, List.mapM_map]
    exact Decode.mapM_eq_ok fun b hb => record?_table (hprintable b hb) (h b hb)
  cases bs with
  | nil => rfl
  | cons b bs => exact hrecords

theorem decode_writeTables (w : Layout) :
    decode fileOf (writeTables w (bs.map settings)) = .ok (bs.map value) := by
  have hread := readDocument_writeTables w (List.forall_mem_map.mpr hprintable)
    (List.forall_mem_map.mpr fun b hb => (h b hb).nodup)
  simp only [decode, hread, Except.mapError, bind, Except.bind, fileOf_rootOf hprintable h]

end

theorem decode_writeFile (w : Layout) {ts : List Tool} (hts : ∀ t ∈ ts, t.Printable) :
    decode fileOf (writeFile w ts) = .ok (ts.map Tool.normalized) := by
  rw [writeFile_eq]
  exact decode_writeTables (fun t ht => Decode.printable_settings (hts t ht))
    (fun t _ => Decode.makes_settings t) w

end ToolRoster.Toml
