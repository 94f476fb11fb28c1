import Mathlib.Data.List.TakeWhile
import ToolRoster.Proofs.Json.Printable
import ToolRoster.Yaml.Quoted
/-!
# Strings of JSON as quoted scalars

A printable string is read to its closing mark, whatever it looks like inside. Its blanks are gaps
between words on one line, and stay as they are.
-/
namespace ToolRoster.Yaml
open Json (escape)

namespace Place
variable (p : Place)

theorem advance_zero : p.advance 0 = p := rfl

theorem advance_advance (m n : Nat) : (p.advance m).advance n = p.advance (m + n) := by
  simp [advance, Nat.add_assoc]

theorem skip_eq_advance : p.skip = p.advance 1 := by
  simp [skip, advance]

theorem atDocumentEdge_of_column {p : Place} (h : 0 < p.column) : p.atDocumentEdge = false := by
  have hc : p.column ≠ 0 := Nat.ne_of_gt h
  simp [atDocumentEdge, startsWithThree, hc]

theorem rest_advance {p : Place} {text rest : List Char} (h : p.rest = text ++ rest) :
    (p.advance text.length).rest = rest := by
  simp [advance, h]

theorem ahead_zero {p : Place} {c : Char} {rest : List Char} (h : p.rest = c :: rest)
    (test : Char → Bool) : p.ahead 0 test = test c := by
  simp [ahead, h]

end Place

theorem visible_of_printable {c : Char} (hc : Text.isPrintable c) (hne : c ≠ ' ') :
    isBlank c = false ∧ isBreak c = false := by
  obtain ⟨hlow, hhigh⟩ := Text.isPrintable_iff.mp hc
  have hother : ∀ x : Char, x.toNat < 0x20 ∨ 0x7E < x.toNat → c ≠ x := by
    rintro x hx rfl
    omega
  constructor
  · simp [isBlank, hne, hother '\t' (by decide)]
  · simp [isBreak, hother '\r' (by decide), hother '\n' (by decide), hother '\x85' (by decide),
      hother '\u2028' (by decide), hother '\u2029' (by decide)]

theorem readEscape_self {c : Char} (hc : c = '"' ∨ c = '\\') {p : Place} {rest : List Char}
    (h : p.rest = '\\' :: c :: rest) : readEscape p = .ok (c, p.advance 2) := by
  rcases hc with rfl | rfl
  · simp [readEscape, h, escapeLetter?]
  · simp [readEscape, h, escapeLetter?]

theorem readRun_escape {c : Char} (hc : Text.isPrintable c) (hblank : c ≠ ' ') (fuel : Nat)
    {p : Place} {rest : List Char} (h : p.rest = escape c ++ rest) :
    readRun false (fuel + 1) p =
      (readRun false fuel (p.advance (escape c).length)).map fun run =>
        { run with text := c :: run.text } := by
  rw [Json.escape_of_printable hc] at h ⊢
  split_ifs at h ⊢ with hself
  · have hbreak : p.ahead 1 isBreak = false := by
      rcases hself with rfl | rfl
      · simp [Place.ahead, h, isBreak]
      · simp [Place.ahead, h, isBreak]
    have hread := readEscape_self hself h
    simp only [readRun, h, List.cons_append]
    simp only [isBlank, isBreak, hbreak, hread, bind, Except.bind]
    cases readRun false fuel (p.advance 2) <;> rfl
  · obtain ⟨hq, hb⟩ := not_or.mp hself
    obtain ⟨hnb, hnk⟩ := visible_of_printable hc hblank
    simp only [readRun, h, List.cons_append, hnb, hnk, hq, hb, Place.skip_eq_advance, bind,
      Except.bind]
    cases readRun false fuel (p.advance 1) <;> rfl

theorem readRun_word {cs : List Char} (hcs : ∀ c ∈ cs, Text.isPrintable c ∧ c ≠ ' ') {d : Char}
    (hd : d = ' ' ∨ d = '"') {rest : List Char} {fuel : Nat} (hfuel : cs.length < fuel) {p : Place}
    (h : p.rest = cs.flatMap escape ++ d :: rest) :
    readRun false fuel p = .ok ⟨cs, false, p.advance (cs.flatMap escape).length⟩ := by
  induction cs generalizing fuel p with
  | nil =>
    obtain ⟨n, rfl⟩ := Nat.exists_eq_succ_of_ne_zero (Nat.ne_zero_of_lt hfuel)
    have hrest : p.rest = d :: rest := h
    rcases hd with rfl | rfl
    · simp [readRun, hrest, isBlank, Place.advance_zero]
    · simp [readRun, hrest, isBlank, isBreak, Place.advance_zero]
  | cons c cs ih =>
    obtain ⟨n, rfl⟩ := Nat.exists_eq_succ_of_ne_zero (Nat.ne_zero_of_lt hfuel)
    obtain ⟨⟨hc, hblank⟩, hcs⟩ := List.forall_mem_cons.mp hcs
    rw [List.flatMap_cons, List.append_assoc] at h
    rw [readRun_escape hc hblank n h,
      ih hcs (Nat.lt_of_succ_lt_succ hfuel) (Place.rest_advance h), List.flatMap_cons,
      List.length_append, ← Place.advance_advance]
    rfl

theorem readGap_blanks {bs : List Char} (hbs : ∀ b ∈ bs, b = ' ') {d : Char}
    (hd : isBlank d = false ∧ isBreak d = false) {rest : List Char} {fuel : Nat}
    (hfuel : bs.length < fuel) (blanks : List Char) {p : Place} (h : p.rest = bs ++ d :: rest) :
    readGap 0 fuel { blanks } p = .ok ({ blanks := blanks ++ bs }, p.advance bs.length) := by
  induction bs generalizing fuel blanks p with
  | nil =>
    obtain ⟨n, rfl⟩ := Nat.exists_eq_succ_of_ne_zero (Nat.ne_zero_of_lt hfuel)
    have hrest : p.rest = d :: rest := h
    simp [readGap, hrest, hd.1, hd.2, Place.advance_zero]
  | cons b bs ih =>
    obtain ⟨n, rfl⟩ := Nat.exists_eq_succ_of_ne_zero (Nat.ne_zero_of_lt hfuel)
    obtain ⟨hb, hlater⟩ := List.forall_mem_cons.mp hbs
    subst hb
    have hnext : p.skip.rest = bs ++ d :: rest := by simp [Place.skip, h]
    have hblank : isBlank ' ' = true := rfl
    simp only [readGap, h, List.cons_append, hblank, if_true]
    rw [if_neg Bool.false_ne_true, ih hlater (Nat.lt_of_succ_lt_succ hfuel) _ hnext,
      Place.skip_eq_advance, Place.advance_advance, List.append_assoc, List.length_cons,
      Nat.add_comm]
    rfl

theorem flatMap_escape_blanks {bs : List Char} (h : ∀ b ∈ bs, b = ' ') : bs.flatMap escape = bs := by
  induction bs with
  | nil => rfl
  | cons b bs ih =>
    obtain ⟨hb, hlater⟩ := List.forall_mem_cons.mp h
    subst hb
    rw [List.flatMap_cons, ih hlater]
    rfl

theorem exists_visible {cs : List Char} (hcs : ∀ c ∈ cs, Text.isPrintable c)
    (hhead : cs.head? ≠ some ' ') (rest : List Char) :
    ∃ d ds, cs.flatMap escape ++ '"' :: rest = d :: ds ∧ isBlank d = false ∧ isBreak d = false := by
  cases cs with
  | nil => exact ⟨'"', rest, rfl, by decide⟩
  | cons c cs =>
    have hc := hcs c List.mem_cons_self
    have hne : c ≠ ' ' := by
      rintro rfl
      exact hhead rfl
    rw [List.flatMap_cons, Json.escape_of_printable hc]
    split_ifs with hself
    · exact ⟨'\\', _, rfl, by decide⟩
    · exact ⟨c, _, rfl, visible_of_printable hc hne⟩

theorem exists_word (cs : List Char) : ∃ word gap more, cs = word ++ (gap ++ more) ∧
    (∀ c ∈ word, c ≠ ' ') ∧ (∀ b ∈ gap, b = ' ') ∧ more.head? ≠ some ' ' ∧
      (gap = [] → more = []) := by
  have hstop : ∀ c, (cs.dropWhile (· ≠ ' ')).head? = some c → c = ' ' := by
    intro c hc
    have hnot := List.head?_dropWhile_not (· ≠ ' ') cs
    rw [hc] at hnot
    simpa using hnot
  refine ⟨cs.takeWhile (· ≠ ' '), (cs.dropWhile (· ≠ ' ')).takeWhile (· = ' '),
    (cs.dropWhile (· ≠ ' ')).dropWhile (· = ' '), ?_, ?_, ?_, ?_, ?_⟩
  · rw [List.takeWhile_append_dropWhile, List.takeWhile_append_dropWhile]
  · intro c hc
    simpa using List.mem_takeWhile_imp hc
  · intro c hc
    simpa using List.mem_takeWhile_imp hc
  · intro hc
    have hnot := List.head?_dropWhile_not (· = ' ') (cs.dropWhile (· ≠ ' '))
    rw [hc] at hnot
    simp at hnot
  · generalize cs.dropWhile (· ≠ ' ') = after at hstop
    cases after with
    | nil => exact fun _ => rfl
    | cons c after =>
      obtain rfl := hstop c rfl
      simp

section
variable {p : Place} {run : Run} (hedge : p.atDocumentEdge = false) (hend : p.atEnd = false)
  (hrun : readRun false (p.rest.length + 1) p = .ok run)
include hedge hend hrun

theorem readQuotedText_close (hclose : run.place.ahead 0 (· = '"') = true) (fuel : Nat) :
    readQuotedText false (fuel + 1) p = .ok (run.text, run.place.skip) := by
  simp [readQuotedText, hedge, hend, hrun, hclose, bind, Except.bind]

theorem readQuotedText_gap (hclose : run.place.ahead 0 (· = '"') = false) {g : Gap} {q : Place}
    (hgap : readGap 0 (run.place.rest.length + 1) { broken := run.joined } run.place = .ok (g, q))
    (fuel : Nat) :
    readQuotedText false (fuel + 1) p =
      (readQuotedText false fuel q).map fun later => (run.text ++ g.text ++ later.1, later.2) := by
  simp only [readQuotedText, hedge, hend, hrun, bind, Except.bind, Bool.or_self, Bool.false_eq_true,
    if_false, hclose, hgap]
  cases readQuotedText false fuel q <;> rfl

end

section
variable {word : List Char} (hword : ∀ c ∈ word, Text.isPrintable c ∧ c ≠ ' ') {p : Place}
include hword

theorem readRun_first {d : Char} (hd : d = ' ' ∨ d = '"') {rest : List Char}
    (h : p.rest = word.flatMap escape ++ d :: rest) :
    readRun false (p.rest.length + 1) p =
      .ok ⟨word, false, p.advance (word.flatMap escape).length⟩ := by
  have hfuel : word.length < p.rest.length + 1 := by
    have hlen := Json.length_le_length_flatMap_escape word
    rw [h, List.length_append]
    omega
  exact readRun_word hword hd hfuel h

variable (hp : 0 < p.column)
include hp

theorem readQuotedText_last {rest : List Char} (h : p.rest = word.flatMap escape ++ '"' :: rest)
    (fuel : Nat) :
    readQuotedText false (fuel + 1) p =
      .ok (word, p.advance ((word.flatMap escape).length + 1)) := by
  have hend : p.atEnd = false := by simp [Place.atEnd, h]
  have hclose := Place.ahead_zero (Place.rest_advance h) (· = '"')
  rw [readQuotedText_close (Place.atDocumentEdge_of_column hp) hend
    (readRun_first hword (Or.inr rfl) h) hclose, Place.skip_eq_advance, Place.advance_advance]

theorem readQuotedText_round {gap : List Char} (hgap : ∀ b ∈ ' ' :: gap, b = ' ') {d : Char}
    (hd : isBlank d = false ∧ isBreak d = false) {rest : List Char}
    (h : p.rest = word.flatMap escape ++ (' ' :: gap ++ d :: rest)) (fuel : Nat) :
    readQuotedText false (fuel + 1) p =
      (readQuotedText false fuel (p.advance (word.flatMap escape ++ ' ' :: gap).length)).map
        fun later => (word ++ ' ' :: gap ++ later.1, later.2) := by
  have hend : p.atEnd = false := by simp [Place.atEnd, h]
  have hnext := Place.rest_advance h
  have hclose := Place.ahead_zero hnext (· = '"')
  have hgapfuel : (' ' :: gap).length <
      (p.advance (word.flatMap escape).length).rest.length + 1 := by
    rw [hnext, List.length_append]
    omega
  rw [readQuotedText_gap (Place.atDocumentEdge_of_column hp) hend
    (readRun_first hword (Or.inl rfl) h) hclose (readGap_blanks hgap hd hgapfuel [] hnext),
    Place.advance_advance, List.length_append]
  rfl

end

theorem readQuotedText_escaped {cs : List Char} (hcs : ∀ c ∈ cs, Text.isPrintable c)
    (rest : List Char) {fuel : Nat} (hfuel : cs.length < fuel) {p : Place} (hp : 0 < p.column)
    (h : p.rest = cs.flatMap escape ++ '"' :: rest) :
    readQuotedText false fuel p = .ok (cs, p.advance ((cs.flatMap escape).length + 1)) := by
  -- A round takes a word and the gap after it, so the text gets shorter unless the mark is reached.
  induction fuel generalizing cs p with
  | zero => exact absurd hfuel (Nat.not_lt_zero _)
  | succ fuel ih =>
    obtain ⟨word, gap, more, rfl, hword, hgap, hmore, hlast⟩ := exists_word cs
    obtain ⟨hwordcs, hgapmore⟩ := List.forall_mem_append.mp hcs
    obtain ⟨-, hmorecs⟩ := List.forall_mem_append.mp hgapmore
    have hvisible : ∀ c ∈ word, Text.isPrintable c ∧ c ≠ ' ' := fun c hc =>
      ⟨hwordcs c hc, hword c hc⟩
    have hescaped : (word ++ (gap ++ more)).flatMap escape =
        word.flatMap escape ++ gap ++ more.flatMap escape := by
      rw [List.flatMap_append, List.flatMap_append, flatMap_escape_blanks hgap, List.append_assoc]
    rw [hescaped] at h ⊢
    cases gap with
    | nil =>
      obtain rfl := hlast rfl
      simp only [List.append_nil, List.flatMap_nil] at h ⊢
      exact readQuotedText_last hvisible hp h fuel
    | cons b gap =>
      obtain rfl : b = ' ' := hgap b List.mem_cons_self
      obtain ⟨d, ds, hd, hseen⟩ := exists_visible hmorecs hmore rest
      have hmorefuel : more.length < fuel := by
        rw [List.length_append, List.length_append, List.length_cons] at hfuel
        omega
      rw [List.append_assoc] at h
      have hlater := ih hmorecs hmorefuel (Nat.lt_add_right _ hp) (Place.rest_advance h)
      rw [hd, List.append_assoc] at h
      rw [readQuotedText_round hvisible hp hgap hseen h, hlater, Place.advance_advance, Except.map]
      simp only [List.length_append, List.append_assoc, Nat.add_assoc]

theorem readQuoted_written {s : String} (hs : Text.Printable s) {p : Place} {rest : List Char}
    (h : p.rest = Json.writeString s ++ rest) :
    readQuoted false p = .ok (s.toList, p.advance (Json.writeString s).length) := by
  rw [Json.writeString_append] at h
  have hfuel : s.toList.length < p.rest.length + 1 := by
    have hlen := Json.length_le_length_flatMap_escape s.toList
    rw [h, List.length_cons, List.length_append]
    omega
  have hnext : p.skip.rest = s.toList.flatMap escape ++ '"' :: rest := by simp [Place.skip, h]
  have hcolumn : 0 < p.skip.column := Nat.succ_pos _
  rw [readQuoted, readQuotedText_escaped hs rest hfuel hcolumn hnext, Place.skip_eq_advance,
    Place.advance_advance, Json.writeString, List.length_append, List.length_cons, Nat.add_comm 1]
  rfl

end ToolRoster.Yaml
