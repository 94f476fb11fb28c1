import ToolRoster.Proofs.Json.Grammar
/-!
# Strings and numbers by the grammar

A string of the grammar is read as its content, and refused when it has none. Whatever it holds, it
can be passed over, and so can every number.
-/
namespace ToolRoster.Json

theorem toOption_ok {ε α : Type} (a : α) : (Except.ok a : Except ε α).toOption = some a := rfl

theorem toOption_bind {ε α β : Type} (x : Except ε α) (f : α → Except ε β) :
    (x >>= f).toOption = x.toOption.bind fun a => (f a).toOption := by
  cases x <;> rfl

theorem toOption_map {ε α β : Type} (f : α → β) (x : Except ε α) :
    (x.map f).toOption = x.toOption.map f := by
  cases x <;> rfl

theorem toOption_eq_some_iff {ε α : Type} {x : Except ε α} {a : α} :
    x.toOption = some a ↔ x = .ok a := by
  cases x <;> simp [Except.toOption]

theorem escapeLetter?_letter (e : Escape) : escapeLetter? e.letter = some e.char := by
  cases e <;> decide

theorem Escape.letter_ne (e : Escape) : e.letter ≠ 'u' := by cases e <;> decide

section
variable (u : CodeUnit) (rest : List Char)

theorem readHex4_unit : readHex4 (u.text ++ rest) = .ok (u.value, rest) :=
  readHex4_digits u.first.spelled u.second.spelled u.third.spelled u.fourth.spelled rest

theorem readLowSurrogate_unit (high : CodeUnit) :
    (readLowSurrogate high.value ('\\' :: 'u' :: (u.text ++ rest))).toOption =
      if u.isLow then some (high.paired u, rest) else none := by
  simp only [readLowSurrogate, readHex4_unit, bind, Except.bind]
  change Except.toOption (if u.isLow then _ else _) = _
  split_ifs <;> rfl

theorem readEscape_unit :
    (readEscape ('u' :: (u.text ++ rest))).toOption =
      if u.isLow then none
      else if u.isHigh then (readLowSurrogate u.value rest).toOption
      else some (Char.ofNat u.value, rest) := by
  simp only [readEscape, readHex4_unit, bind, Except.bind]
  change Except.toOption (if u.isLow then _ else if u.isHigh then _ else _) = _
  split_ifs <;> rfl

end

theorem readLowSurrogate_other (n : Nat) {cs : List Char} (h : ∀ r, cs ≠ '\\' :: 'u' :: r) :
    (readLowSurrogate n cs).toOption = none := by
  unfold readLowSurrogate
  split
  · exact absurd rfl (h _)
  · rfl
  · rfl
  · rfl
  · rfl

theorem pieces_ne_unit {ps : List Piece} (h : ∀ v qs, ps ≠ .unit v :: qs) (rest : List Char) :
    ∀ r, ps.flatMap Piece.text ++ '"' :: rest ≠ '\\' :: 'u' :: r := by
  intro r he
  cases ps with
  | nil => simp at he
  | cons p ps =>
    cases p with
    | plain c allowed =>
      obtain ⟨hc, -⟩ := List.cons.inj he
      exact allowed.2.1 hc
    | escape e =>
      obtain ⟨-, hletter⟩ := List.cons.inj he
      exact e.letter_ne (List.cons.inj hletter).1
    | unit u => exact h u ps rfl

theorem toOption_readChars_backslash (fuel : Nat) (text : List Char) :
    (readChars (fuel + 1) ('\\' :: text)).toOption =
      (readEscape text).toOption.bind fun p =>
        (readChars fuel p.2).toOption.map fun q => (p.1 :: q.1, q.2) := by
  cases h : readEscape text with
  | ok p => rw [readChars_backslash h, toOption_map]; rfl
  | error e => simp only [readChars, h]; rfl

theorem readChars_unit (u : CodeUnit) (fuel : Nat) (rest : List Char) :
    (readChars (fuel + 1) ((Piece.unit u).text ++ rest)).toOption =
      (if u.isLow then none
        else if u.isHigh then (readLowSurrogate u.value rest).toOption
        else some (Char.ofNat u.value, rest)).bind fun p =>
        (readChars fuel p.2).toOption.map fun q => (p.1 :: q.1, q.2) := by
  rw [Piece.text, List.cons_append, List.cons_append, toOption_readChars_backslash,
    readEscape_unit]

theorem map_cons_pair {α β : Type} (x : Option (List α)) (a : α) (b : β) :
    ((x.map (·, b)).map fun q => (a :: q.1, q.2)) = (x.map (a :: ·)).map (·, b) := by
  cases x <;> rfl

theorem readChars_pieces {ps : List Piece} {fuel : Nat} (hfuel : ps.length < fuel)
    (rest : List Char) :
    (readChars fuel (ps.flatMap Piece.text ++ '"' :: rest)).toOption =
      (content? ps).map (·, rest) := by
  obtain ⟨fuel, rfl⟩ := Nat.exists_eq_succ_of_ne_zero (Nat.ne_zero_of_lt hfuel)
  induction ps using content?.induct generalizing fuel with
  | case1 => rfl
  | case2 c allowed ps ih =>
    have hlater : ps.length < fuel := Nat.lt_of_succ_lt_succ hfuel
    obtain ⟨fuel, rfl⟩ := Nat.exists_eq_succ_of_ne_zero (Nat.ne_zero_of_lt hlater)
    obtain ⟨hquote, hbackslash, hcontrol⟩ := allowed
    rw [List.flatMap_cons, Piece.text, List.append_assoc, List.singleton_append,
      readChars_plain hquote hbackslash (Nat.not_lt.mpr hcontrol), toOption_map, ih _ hlater,
      map_cons_pair, content?]
  | case3 e ps ih =>
    have hlater : ps.length < fuel := Nat.lt_of_succ_lt_succ hfuel
    obtain ⟨fuel, rfl⟩ := Nat.exists_eq_succ_of_ne_zero (Nat.ne_zero_of_lt hlater)
    rw [List.flatMap_cons, Piece.text, List.append_assoc, List.cons_append, List.singleton_append,
      readChars_backslash (readEscape_letter (escapeLetter?_letter e) _), toOption_map,
      ih _ hlater, map_cons_pair, content?]
  | case4 u ps hlow =>
    rw [List.flatMap_cons, List.append_assoc, readChars_unit, if_pos hlow, content?.eq_def (_ :: _)]
    simp [hlow]
  | case5 u hlow hhigh v ps hpair ih =>
    have hlater : ps.length < fuel :=
      Nat.lt_of_succ_lt_succ (Nat.lt_of_succ_lt hfuel)
    obtain ⟨fuel, rfl⟩ := Nat.exists_eq_succ_of_ne_zero (Nat.ne_zero_of_lt hlater)
    rw [List.flatMap_cons, List.append_assoc, readChars_unit, if_neg hlow, if_pos hhigh,
      List.flatMap_cons, List.append_assoc, Piece.text, List.cons_append, List.cons_append,
      readLowSurrogate_unit, if_pos hpair, Option.bind_some, ih _ hlater, map_cons_pair,
      content?.eq_def (_ :: _)]
    simp [hlow, hhigh, hpair]
  | case6 u hlow hhigh v ps hpair =>
    rw [List.flatMap_cons, List.append_assoc, readChars_unit, if_neg hlow, if_pos hhigh,
      List.flatMap_cons, List.append_assoc, Piece.text, List.cons_append, List.cons_append,
      readLowSurrogate_unit, if_neg hpair, content?.eq_def (_ :: _)]
    simp [hlow, hhigh, hpair]
  | case7 u ps hlow hhigh hother =>
    have halone := pieces_ne_unit (fun v qs he => hother v qs he) rest
    have hnone : content? (.unit u :: ps) = none := by
      rw [content?, if_neg hlow, if_pos hhigh]
      exact hother
    rw [List.flatMap_cons, List.append_assoc, readChars_unit, if_neg hlow, if_pos hhigh,
      readLowSurrogate_other _ halone, hnone]
    rfl
  | case8 u ps hlow hhigh ih =>
    have hlater : ps.length < fuel := Nat.lt_of_succ_lt_succ hfuel
    obtain ⟨fuel, rfl⟩ := Nat.exists_eq_succ_of_ne_zero (Nat.ne_zero_of_lt hlater)
    rw [List.flatMap_cons, List.append_assoc, readChars_unit, if_neg hlow, if_neg hhigh,
      Option.bind_some, ih _ hlater, map_cons_pair, content?.eq_def (_ :: _)]
    simp [hlow, hhigh]

theorem quoted_append (ps : List Piece) (rest : List Char) :
    quoted ps ++ rest = '"' :: (ps.flatMap Piece.text ++ '"' :: rest) := by
  simp [quoted]

theorem skipBlank_member {b : List Char} (hb : Blank b) (ps : List Piece)
    (b' cs rest : List Char) : skipBlank (b ++ (quoted ps ++ (b' ++ ':' :: cs)) ++ rest) =
      '"' :: (ps.flatMap Piece.text ++ '"' :: (b' ++ ':' :: (cs ++ rest))) := by
  rw [List.append_assoc, skipBlank_append hb, List.append_assoc, quoted_append,
    skipBlank_cons (by decide), List.append_assoc, List.cons_append]

theorem length_lt_of_pieces (ps : List Piece) (rest : List Char) :
    ps.length < (ps.flatMap Piece.text ++ '"' :: rest).length + 1 := by
  induction ps with
  | nil => exact Nat.succ_pos _
  | cons p ps ih =>
    have hp : 1 ≤ p.text.length := by cases p <;> exact Nat.succ_pos _
    rw [List.flatMap_cons, List.append_assoc, List.length_append, List.length_cons]
    omega

theorem readString_pieces (ps : List Piece) (rest : List Char) :
    (readString (ps.flatMap Piece.text ++ '"' :: rest)).toOption = (string? ps).map (·, rest) := by
  rw [readString, toOption_bind, readChars_pieces (length_lt_of_pieces ps rest), string?]
  cases content? ps <;> rfl

theorem skipChars_piece (p : Piece) (fuel : Nat) (rest : List Char) :
    skipChars (fuel + 1) (p.text ++ rest) = skipChars fuel rest := by
  cases p with
  | plain c allowed =>
    obtain ⟨hquote, hbackslash, hcontrol⟩ := allowed
    simp [Piece.text, skipChars, Nat.not_lt.mpr hcontrol]
  | escape e =>
    simp [Piece.text, skipChars, skipEscape, e.letter_ne, escapeLetter?_letter, bind, Except.bind]
  | unit u =>
    simp only [Piece.text, List.cons_append, skipChars, skipEscape, readHex4_unit, bind,
      Except.bind]

theorem skipChars_pieces {ps : List Piece} {fuel : Nat} (hfuel : ps.length < fuel)
    (rest : List Char) :
    skipChars fuel (ps.flatMap Piece.text ++ '"' :: rest) = .ok rest := by
  obtain ⟨fuel, rfl⟩ := Nat.exists_eq_succ_of_ne_zero (Nat.ne_zero_of_lt hfuel)
  induction ps generalizing fuel with
  | nil => rfl
  | cons p ps ih =>
    have hlater : ps.length < fuel := Nat.lt_of_succ_lt_succ hfuel
    obtain ⟨fuel, rfl⟩ := Nat.exists_eq_succ_of_ne_zero (Nat.ne_zero_of_lt hlater)
    rw [List.flatMap_cons, List.append_assoc, skipChars_piece, ih _ hlater]

theorem skipString_pieces (ps : List Piece) (rest : List Char) :
    skipString (ps.flatMap Piece.text ++ '"' :: rest) = .ok rest :=
  skipChars_pieces (length_lt_of_pieces ps rest) rest

theorem isDigit_iff (c : Char) : c.isDigit ↔ '0' ≤ c ∧ c ≤ '9' := by
  simp [Char.isDigit, Char.le_def]

theorem le_iff_toNat_le (c d : Char) : c ≤ d ↔ c.toNat ≤ d.toNat :=
  Char.le_def.trans UInt32.le_iff_toNat_le

theorem isSome_digit? (c : Char) : (digit? c).isSome = c.isDigit := by
  rw [Bool.eq_iff_iff, isDigit_iff]
  simp only [digit?, Text.digitIn?, Text.hexValue?, Bool.and_eq_true, decide_eq_true_eq,
    le_iff_toNat_le, Char.reduceToNat]
  split_ifs with hdigit hsmall hcapital
  · simp [hdigit]
    omega
  · simp [hdigit]
  · simp [hdigit]
  · simp [hdigit]

theorem eq_zero_of_digit? {c : Char} (h : digit? c = some 0) : c = '0' := by
  obtain ⟨hvalue, -⟩ := Option.filter_eq_some_iff.mp h
  simp only [Text.hexValue?, Bool.and_eq_true, decide_eq_true_eq, le_iff_toNat_le,
    Char.reduceToNat] at hvalue
  split_ifs at hvalue with hdigit hsmall hcapital
  · have hzero := Option.some.inj hvalue
    exact Char.toNat_inj.mp (show c.toNat = 48 by omega)
  · simp at hvalue
  · simp at hvalue

def NoDigit (rest : List Char) : Prop := ∀ c ∈ rest.head?, c.isDigit = false

theorem startsWithDigit_of_noDigit {rest : List Char} (h : NoDigit rest) :
    startsWithDigit rest = false := by
  cases rest with
  | nil => rfl
  | cons c rest => rw [startsWithDigit, isSome_digit?, h c rfl]

theorem skipDigits_of_noDigit {rest : List Char} (h : NoDigit rest) : skipDigits rest = rest := by
  cases rest with
  | nil => rfl
  | cons c rest => rw [skipDigits, List.dropWhile_cons_of_neg (by simp [isSome_digit?, h c rfl])]

theorem skipDigits_append {ds rest : List Char} (hds : ∀ d ∈ ds, d.isDigit) (h : NoDigit rest) :
    skipDigits (ds ++ rest) = rest := by
  have hall : ∀ d ∈ ds, (digit? d).isSome := fun d hd => by rw [isSome_digit?, hds d hd]
  rw [skipDigits, List.dropWhile_append_of_pos hall]
  exact skipDigits_of_noDigit h

theorem IsDigits.startsWithDigit {ds : List Char} (h : IsDigits ds) (rest : List Char) :
    startsWithDigit (ds ++ rest) = true := by
  obtain ⟨d, ds, rfl⟩ := List.exists_cons_of_ne_nil h.ne_nil
  rw [List.cons_append, Json.startsWithDigit, isSome_digit?, h.isDigit d List.mem_cons_self]

theorem Ends.head_ne {rest : List Char} (h : Ends rest) {c : Char} {r : List Char}
    (he : rest = c :: r) : c.isDigit = false ∧ c ≠ '.' ∧ c ≠ 'e' ∧ c ≠ 'E' := by
  subst he
  rcases h c rfl with hc | rfl | rfl | rfl
  · have hblank : c = ' ' ∨ c = '\n' ∨ c = '\t' ∨ c = '\r' := by simpa [isBlank, or_assoc] using hc
    rcases hblank with rfl | rfl | rfl | rfl <;> decide
  · decide
  · decide
  · decide

theorem Ends.noDigit {rest : List Char} (h : Ends rest) : NoDigit rest := by
  cases rest with
  | nil => exact fun c hc => by contradiction
  | cons c rest =>
    intro x hx
    obtain rfl : c = x := Option.some.inj hx
    exact (h.head_ne rfl).1

theorem skipExponent_digits {sign ds rest : List Char}
    (hsign : sign = [] ∨ sign = ['+'] ∨ sign = ['-']) (h : IsDigits ds) (hrest : Ends rest) :
    skipExponent (sign ++ (ds ++ rest)) = .ok rest := by
  have hskip : skipDigits (ds ++ rest) = rest := skipDigits_append h.isDigit hrest.noDigit
  have hstart := h.startsWithDigit rest
  obtain ⟨d, ds, rfl⟩ := List.exists_cons_of_ne_nil h.ne_nil
  have hd : d ≠ '+' ∧ d ≠ '-' := by
    have hdigit := h.isDigit d List.mem_cons_self
    constructor
    · rintro rfl
      contradiction
    · rintro rfl
      contradiction
  rcases hsign with rfl | rfl | rfl
  · rw [List.cons_append] at hstart hskip
    simp [skipExponent, hd, hstart, hskip]
  · simp only [skipExponent, List.singleton_append, hstart, hskip, if_true]
  · simp only [skipExponent, List.singleton_append, hstart, hskip, if_true]

theorem skipScale_exponent {exponent rest : List Char} (h : IsExponent exponent) (hrest : Ends rest) :
    skipScale (exponent ++ rest) = .ok rest := by
  cases h with
  | none =>
    cases rest with
    | nil => rfl
    | cons c rest =>
      obtain ⟨-, -, he, hE⟩ := hrest.head_ne rfl
      simp [skipScale, he, hE]
  | digits he hsign h =>
    rw [List.append_assoc]
    rcases he with rfl | rfl
    · exact skipExponent_digits hsign h hrest
    · exact skipExponent_digits hsign h hrest

theorem noDigit_exponent {exponent rest : List Char} (h : IsExponent exponent) (hrest : Ends rest) :
    NoDigit (exponent ++ rest) := by
  cases h with
  | none => exact hrest.noDigit
  | digits he hsign h =>
    intro c hc
    obtain rfl := Option.some.inj hc
    rcases he with rfl | rfl <;> decide

theorem noDigit_fraction {fraction exponent rest : List Char} (hfraction : IsFraction fraction)
    (h : IsExponent exponent) (hrest : Ends rest) : NoDigit (fraction ++ (exponent ++ rest)) := by
  cases hfraction with
  | none =>
    rw [List.nil_append]
    exact noDigit_exponent h hrest
  | digits hds =>
    intro c hc
    obtain rfl := Option.some.inj hc
    decide

theorem skip_fraction {fraction exponent rest : List Char} (hfraction : IsFraction fraction)
    (h : IsExponent exponent) (hrest : Ends rest) :
    (match fraction ++ (exponent ++ rest) with
      | '.' :: r =>
        if startsWithDigit r then skipScale (skipDigits r) else .error (.next .invalidNumber r)
      | r => skipScale r) = .ok rest := by
  have hscale := skipScale_exponent h hrest
  cases hfraction with
  | none =>
    rw [List.nil_append]
    split
    · rename_i r he
      cases h with
      | none => exact absurd rfl (hrest.head_ne he).2.1
      | digits hletter hsign hds =>
        obtain ⟨rfl, -⟩ := List.cons.inj he
        rcases hletter with he | he <;> contradiction
    · exact hscale
  | digits hds =>
    have hskip := skipDigits_append hds.isDigit (noDigit_exponent h hrest)
    rw [List.cons_append]
    simp only [hds.startsWithDigit, if_true, hskip, hscale]

theorem skipNumber_parts {whole fraction exponent rest : List Char} (hwhole : IsWhole whole)
    (hfraction : IsFraction fraction) (h : IsExponent exponent) (hrest : Ends rest) :
    skipNumber (whole ++ (fraction ++ (exponent ++ rest))) = .ok rest := by
  have hstop := noDigit_fraction hfraction h hrest
  have htail := skip_fraction hfraction h hrest
  cases hwhole with
  | zero =>
    have hzero : digit? '0' = some 0 := by decide
    rw [List.singleton_append]
    simp only [skipNumber, hzero, startsWithDigit_of_noDigit hstop, skipDigits_of_noDigit hstop]
    exact htail
  | digits hds hd =>
    rename_i d ds
    obtain ⟨n, hn⟩ := Option.isSome_iff_exists.mp
      ((isSome_digit? d).trans (hds.isDigit d List.mem_cons_self))
    have hpositive : n ≠ 0 := fun he => hd (eq_zero_of_digit? (he ▸ hn))
    have hskip := skipDigits_append (fun x hx => hds.isDigit x (List.mem_cons_of_mem d hx)) hstop
    rw [List.cons_append]
    simp only [skipNumber, hn, hpositive, hskip, decide_false, Bool.false_and]
    exact htail

end ToolRoster.Json
