import Mathlib.Logic.Relation
import ToolRoster.Proofs.Yaml.Quoted
import ToolRoster.Yaml.Lexing
/-!
# Steps from text to tokens

Compact JSON keeps the reading of tokens out of all blocks: no indentation is open, and no possible
key has to be one. From such a state each step takes one sign of the text and adds its token.
-/
namespace ToolRoster.Yaml
namespace Lexing

/-- A state with these tokens so far and this text to go, outside all blocks. -/
structure At (l : Lexing) (flow : Nat) (ts : List Token) (rest : List Char) : Prop where
  tokens : l.tokens.map Placed.token = ts.reverse
  rest : l.place.rest = rest
  flow : l.flow = flow
  margin : l.margin = 0
  outer : l.outer = []
  optional : ∀ k, some k ∈ l.keys → k.required = false
  unfinished : l.finished = false

def fresh (l : Lexing) : Lexing :=
  { l with keys := l.keys.map fun k => k.filter fun k => !k.isStale l.place }

section
variable {l : Lexing} {flow : Nat} {ts : List Token} {rest : List Char}

theorem At.withKeys (h : l.At flow ts rest) {keys : List (Option PossibleKey)}
    (hkeys : ∀ k, some k ∈ keys → k.required = false) :
    At { l with keys } flow ts rest :=
  ⟨h.tokens, h.rest, h.flow, h.margin, h.outer, hkeys, h.unfinished⟩

theorem At.fresh (h : l.At flow ts rest) : l.fresh.At flow ts rest := by
  refine h.withKeys fun k hk => ?_
  obtain ⟨k', hmem, hfilter⟩ := List.mem_map.mp hk
  obtain ⟨rfl, -⟩ := Option.filter_eq_some_iff.mp hfilter
  exact h.optional k hmem

theorem fresh_fresh (l : Lexing) : l.fresh.fresh = l.fresh := by
  have hkeys : ∀ k : Option PossibleKey,
      (k.filter fun k => !k.isStale l.place).filter (fun k => !k.isStale l.place) =
        k.filter fun k => !k.isStale l.place := by
    intro k
    cases k with
    | none => rfl
    | some k => cases hk : k.isStale l.place <;> simp [Option.filter, hk]
  simp only [Lexing.fresh, List.map_map]
  congr 1
  exact List.map_congr_left fun k _ => hkeys k

theorem dropStale_eq (h : ∀ k, some k ∈ l.keys → k.required = false) :
    l.dropStale = .ok l.fresh := by
  simp only [dropStale, bind, Except.bind]
  rw [Decode.mapM_eq_ok (g := fun k => k.filter fun k => !k.isStale l.place)]
  · simp [fresh]
  · intro k hk
    cases k with
    | none => rfl
    | some k =>
      have hoptional := h k (List.mem_reverse.mp hk)
      cases hs : k.isStale l.place <;> simp [Option.filter, hs, hoptional]

def Seen (cs : List Char) : Prop :=
  ∀ c ∈ cs.head?, isBlank c = false ∧ isBreak c = false ∧ c ≠ '#' ∧ c ≠ '\uFEFF'

theorem ahead_of_seen {p : Place} (hseen : Seen p.rest) {test : Char → Bool}
    (htest : ∀ c, isBlank c = false ∧ isBreak c = false ∧ c ≠ '#' ∧ c ≠ '\uFEFF' →
      test c = false) : p.ahead 0 test = false := by
  cases hp : p.rest with
  | nil => simp [Place.ahead, hp]
  | cons c cs =>
    rw [Place.ahead_zero hp]
    exact htest c (hseen c (by simp [hp]))

theorem skipWhile_of_ahead {p : Place} {test : Char → Bool} (h : p.ahead 0 test = false) :
    p.skipWhile test = p := by
  have htaken : p.rest.takeWhile test = [] := by
    cases hp : p.rest with
    | nil => rfl
    | cons c cs =>
      rw [Place.ahead_zero hp] at h
      simp [h]
  rw [Place.skipWhile, Place.takeWhile]
  simp only [htaken]
  exact Place.advance_zero p

theorem skipBlanks_of_seen (hseen : Seen l.place.rest) (fuel : Nat) : skipBlanks fuel l = l := by
  cases fuel with
  | zero => rfl
  | succ fuel =>
    have hblank : l.place.ahead 0
        (fun c => c = ' ' || (c = '\t' && (l.inFlow || !l.keyAllowed))) = false := by
      refine ahead_of_seen hseen fun c hc => ?_
      have hnot : c ≠ ' ' ∧ c ≠ '\t' := by simpa [isBlank] using hc.1
      simp [hnot]
    have hcomment : l.place.ahead 0 (· = '#') = false :=
      ahead_of_seen hseen fun c hc => by simp [hc.2.2.1]
    have hbreak : l.place.ahead 0 isBreak = false := ahead_of_seen hseen fun c hc => hc.2.1
    simp [skipBlanks, skipWhile_of_ahead hblank, Place.skipComment, hcomment, hbreak]

theorem At.fetch_fresh (h : l.At flow ts rest) (hseen : Seen rest) :
    l.fresh.fetch = l.fresh.fetchToken := by
  have hseen' : Seen l.fresh.place.rest := h.fresh.rest.symm ▸ hseen
  have hmark : l.fresh.place.ahead 0 (· = '\uFEFF') = false :=
    ahead_of_seen hseen' fun c hc => by simp [hc.2.2.2]
  have horder : l.fresh.skipOrderMark = l.fresh := by
    simp [skipOrderMark, hmark]
  have hunroll : l.fresh.unroll (l.fresh.column + 1) = l.fresh := by
    rw [unroll, h.fresh.outer, unrollOuter]
    simp
  rw [fetch, horder, skipBlanks_of_seen hseen', dropStale_eq h.fresh.optional, fresh_fresh]
  exact congrArg fetchToken hunroll

def Next (l l' : Lexing) : Prop :=
  ∃ d, l.dropStale = .ok d ∧ d.finished = false ∧ d.fetch = .ok l' ∧
    l'.place.rest.length < l.place.rest.length

abbrev Steps : Lexing → Lexing → Prop := Relation.ReflTransGen Next

theorem At.next (h : l.At flow ts rest) (hseen : Seen rest) {l' : Lexing} {flow' : Nat}
    {ts' : List Token} {rest' : List Char} (hfetch : l.fresh.fetchToken = .ok l')
    (h' : l'.At flow' ts' rest') (hshorter : rest'.length < rest.length) : Next l l' := by
  refine ⟨l.fresh, dropStale_eq h.optional, h.unfinished, (h.fetch_fresh hseen).trans hfetch, ?_⟩
  rw [h.rest, h'.rest]
  exact hshorter

theorem keys_of_key? {k : PossibleKey} (h : l.key? = some k) : ∃ keys, l.keys = some k :: keys := by
  unfold key? at h
  cases hkeys : l.keys with
  | nil => simp [hkeys] at h
  | cons k' keys =>
    rw [hkeys] at h
    exact ⟨keys, congrArg (· :: keys) h⟩

theorem At.dropKey (h : l.At flow ts rest) : ∃ keys, l.dropKey = .ok { l with keys } ∧
    ∀ k, some k ∈ keys → k.required = false := by
  unfold Lexing.dropKey
  cases hk : l.key? with
  | none => exact ⟨l.keys, rfl, h.optional⟩
  | some k =>
    obtain ⟨keys, hkeys⟩ := keys_of_key? hk
    have hoptional := h.optional k (by simp [hkeys])
    refine ⟨none :: l.keys.tail, by simp [hoptional, setKey], fun k hk => ?_⟩
    exact h.optional k (List.mem_of_mem_tail (by simpa using hk))

theorem At.saveKey (h : l.At flow ts rest) : ∃ keys, l.saveKey = .ok { l with keys } ∧
    (∀ k, some k ∈ keys → k.required = false) ∧
    (l.keyAllowed → keys.head? = some (some ⟨false, l.count, l.place.index, l.place.mark⟩)) := by
  unfold Lexing.saveKey
  by_cases hallowed : l.keyAllowed
  · obtain ⟨keys, hdrop, hkeys⟩ := h.dropKey
    have hrequired : (!l.inFlow && l.margin = l.column + 1) = false := by simp [h.margin]
    refine ⟨some ⟨false, l.count, l.place.index, l.place.mark⟩ :: keys.tail, ?_, ?_, fun _ => rfl⟩
    · rw [if_pos hallowed, hrequired, hdrop]
      rfl
    · intro k hk
      rcases List.mem_cons.mp hk with hk | hk
      · rw [Option.some.inj hk]
      · exact hkeys k (List.mem_of_mem_tail hk)
  · rw [if_neg hallowed]
    exact ⟨l.keys, rfl, h.optional, fun h => absurd h hallowed⟩

structure Brackets where
  opener : Char
  closer : Char
  start : Token
  stop : Token

def lists : Brackets := ⟨'[', ']', .flowSequence, .flowSequenceEnd⟩

def maps : Brackets := ⟨'\x7b', '\x7d', .flowMapping, .flowMappingEnd⟩

theorem sign_ends {c : Char} (h : isFlowIndicator c) : isBlank c = false ∧ isBreak c = false ∧
    c ≠ '#' ∧ c ≠ '\uFEFF' ∧ c ≠ ':' := by
  have hsign : c = ',' ∨ c = '[' ∨ c = ']' ∨ c = '\x7b' ∨ c = '\x7d' := by
    simpa [isFlowIndicator, or_assoc] using h
  rcases hsign with rfl | rfl | rfl | rfl | rfl <;> decide

theorem seen_sign {c : Char} (h : isFlowIndicator c) (rest : List Char) : Seen (c :: rest) := by
  obtain ⟨hblank, hbreak, hcomment, hmark, -⟩ := sign_ends h
  intro x hx
  obtain rfl : c = x := Option.some.inj hx
  exact ⟨hblank, hbreak, hcomment, hmark⟩

theorem At.indicator (h : l.At flow ts rest) (t : Token) :
    (l.indicator t 1).At flow (ts ++ [t]) rest.tail := by
  refine ⟨?_, ?_, h.flow, h.margin, h.outer, h.optional, h.unfinished⟩
  · simp [Lexing.indicator, emit, h.tokens]
  · simp [Lexing.indicator, Place.advance, h.rest]

theorem At.fetchFlowStart (h : l.At flow ts rest) (t : Token) :
    ∃ l', l.fetchFlowStart t = .ok l' ∧ l'.At (flow + 1) (ts ++ [t]) rest.tail ∧
      l'.keyAllowed = true := by
  obtain ⟨keys, hsave, hkeys, -⟩ := h.saveKey
  have hat := (h.withKeys hkeys).indicator t
  have hopened : ∀ k, some k ∈ none :: keys → k.required = false := by
    intro k hk
    exact hkeys k (by simpa using hk)
  rw [Lexing.fetchFlowStart, hsave]
  exact ⟨_, rfl, ⟨hat.tokens, hat.rest, congrArg (· + 1) hat.flow, hat.margin, hat.outer, hopened,
    hat.unfinished⟩, rfl⟩

theorem At.fetchFlowEnd (h : l.At (flow + 1) ts rest) (t : Token) :
    ∃ l', l.fetchFlowEnd t = .ok l' ∧ l'.At flow (ts ++ [t]) rest.tail := by
  obtain ⟨keys, hdrop, hkeys⟩ := h.dropKey
  have hat := (h.withKeys hkeys).indicator t
  have hclosed : ∀ k, some k ∈ (if l.inFlow then keys.tail else keys) → k.required = false := by
    intro k hk
    split_ifs at hk
    · exact hkeys k (List.mem_of_mem_tail hk)
    · exact hkeys k hk
  rw [Lexing.fetchFlowEnd, hdrop]
  exact ⟨_, rfl, hat.tokens, hat.rest, congrArg (· - 1) hat.flow, hat.margin, hat.outer, hclosed,
    hat.unfinished⟩

theorem At.fetchFlowEntry (h : l.At flow ts rest) :
    ∃ l', l.fetchFlowEntry = .ok l' ∧ l'.At flow (ts ++ [.flowEntry]) rest.tail ∧
      l'.keyAllowed = true := by
  obtain ⟨keys, hdrop, hkeys⟩ := h.dropKey
  have hat := (h.withKeys hkeys).indicator .flowEntry
  rw [Lexing.fetchFlowEntry, hdrop]
  exact ⟨_, rfl, ⟨hat.tokens, hat.rest, hat.flow, hat.margin, hat.outer, hat.optional,
    hat.unfinished⟩, rfl⟩

theorem next_open {b : Brackets} (hb : b = lists ∨ b = maps) (h : l.At flow ts (b.opener :: rest)) :
    ∃ l', Next l l' ∧ l'.At (flow + 1) (ts ++ [b.start]) rest ∧ l'.keyAllowed = true := by
  have hsign : isFlowIndicator b.opener := by rcases hb with rfl | rfl <;> decide
  have hfetch : l.fresh.fetchToken = l.fresh.fetchFlowStart b.start := by
    rcases hb with rfl | rfl
    · simp [fetchToken, h.fresh.rest, lists, Place.startsWithThree, Place.ahead]
    · simp [fetchToken, h.fresh.rest, maps, Place.startsWithThree, Place.ahead]
  obtain ⟨l', hl', hat, hallowed⟩ := h.fresh.fetchFlowStart b.start
  exact ⟨l', h.next (seen_sign hsign rest) (hfetch.trans hl') hat (Nat.lt_succ_self _), hat, hallowed⟩

theorem next_close {b : Brackets} (hb : b = lists ∨ b = maps)
    (h : l.At (flow + 1) ts (b.closer :: rest)) :
    ∃ l', Next l l' ∧ l'.At flow (ts ++ [b.stop]) rest := by
  have hsign : isFlowIndicator b.closer := by rcases hb with rfl | rfl <;> decide
  have hfetch : l.fresh.fetchToken = l.fresh.fetchFlowEnd b.stop := by
    rcases hb with rfl | rfl
    · simp [fetchToken, h.fresh.rest, lists, Place.startsWithThree, Place.ahead]
    · simp [fetchToken, h.fresh.rest, maps, Place.startsWithThree, Place.ahead]
  obtain ⟨l', hl', hat⟩ := h.fresh.fetchFlowEnd b.stop
  exact ⟨l', h.next (seen_sign hsign rest) (hfetch.trans hl') hat (Nat.lt_succ_self _), hat⟩

theorem next_comma (h : l.At flow ts (',' :: rest)) :
    ∃ l', Next l l' ∧ l'.At flow (ts ++ [.flowEntry]) rest ∧ l'.keyAllowed = true := by
  have hfetch : l.fresh.fetchToken = l.fresh.fetchFlowEntry := by
    simp [fetchToken, h.fresh.rest, Place.startsWithThree, Place.ahead]
  obtain ⟨l', hl', hat, hallowed⟩ := h.fresh.fetchFlowEntry
  exact ⟨l', h.next (seen_sign (by decide) rest) (hfetch.trans hl') hat (Nat.lt_succ_self _), hat, hallowed⟩

theorem At.reading (h : l.At flow ts rest) (t : Token) {next : Place} {rest' : List Char}
    (hnext : next.rest = rest') (keyAllowed : Bool) :
    (l.reading t next keyAllowed).At flow (ts ++ [t]) rest' := by
  refine ⟨?_, hnext, h.flow, h.margin, h.outer, h.optional, h.unfinished⟩
  simp [Lexing.reading, emit, h.tokens]

theorem At.fetchQuoted {s : String} (hs : Text.Printable s)
    (h : l.At flow ts (Json.writeString s ++ rest)) :
    ∃ l', l.fetchQuoted .double = .ok l' ∧ l'.At flow (ts ++ [.scalar .double s.toList]) rest ∧
      (l.keyAllowed → l'.key? = some ⟨false, l.count, l.place.index, l.place.mark⟩ ∧
        l'.count = l.count + 1 ∧ l'.place = l.place.advance (Json.writeString s).length) := by
  obtain ⟨keys, hsave, hkeys, hhead⟩ := h.saveKey
  have hread := readQuoted_written hs h.rest
  have hat := (h.withKeys hkeys).reading (.scalar .double s.toList) (Place.rest_advance h.rest) false
  have hfetch : l.fetchQuoted .double = .ok (({ l with keys } : Lexing).reading
      (.scalar .double s.toList) (l.place.advance (Json.writeString s).length) false) := by
    have hdouble : decide (Style.double = Style.single) = false := rfl
    simp only [Lexing.fetchQuoted, hsave, hdouble, hread, bind, Except.bind]
  refine ⟨_, hfetch, hat, fun hallowed => ⟨?_, rfl, rfl⟩⟩
  change keys.head?.join = _
  rw [hhead hallowed]
  rfl

theorem next_string {s : String} (hs : Text.Printable s)
    (h : l.At flow ts (Json.writeString s ++ rest)) :
    ∃ l', Next l l' ∧ l'.At flow (ts ++ [.scalar .double s.toList]) rest ∧
      (l.keyAllowed → l'.key? = some ⟨false, l.count, l.place.index, l.place.mark⟩ ∧
        l'.count = l.count + 1 ∧ l'.place = l.place.advance (Json.writeString s).length) := by
  have hquote := Json.writeString_append s rest
  have hseen : Seen (Json.writeString s ++ rest) := by
    rw [hquote]
    simp [Seen, isBlank, isBreak]
  have hfetch : l.fresh.fetchToken = l.fresh.fetchQuoted .double := by
    have hrest := h.fresh.rest
    rw [hquote] at hrest
    simp [fetchToken, hrest, Place.startsWithThree, Place.ahead]
  have hshorter : rest.length < (Json.writeString s ++ rest).length := by
    rw [hquote, List.length_cons, List.length_append, List.length_cons]
    omega
  obtain ⟨l', hl', hat, hkey⟩ := h.fresh.fetchQuoted hs
  exact ⟨l', h.next hseen (hfetch.trans hl') hat hshorter, hat, hkey⟩

theorem letter_plain {c : Char} (h : c.isAlpha) : isBlank c = false ∧ isBreak c = false ∧
    isFlowIndicator c = false ∧ c ≠ ':' ∧ c ≠ '-' ∧ c ≠ '.' ∧ c ≠ '#' := by
  have hother : ∀ x : Char, x.isAlpha = false → c ≠ x := by
    rintro x hx rfl
    simp [h] at hx
  refine ⟨?_, ?_, ?_, hother ':' (by decide), hother '-' (by decide), hother '.' (by decide),
    hother '#' (by decide)⟩
  · simp [isBlank, hother ' ' (by decide), hother '\t' (by decide)]
  · simp [isBreak, hother '\r' (by decide), hother '\n' (by decide), hother '\x85' (by decide),
      hother '\u2028' (by decide), hother '\u2029' (by decide)]
  · simp [isFlowIndicator, hother ',' (by decide), hother '[' (by decide), hother ']' (by decide),
      hother '\x7b' (by decide), hother '\x7d' (by decide)]

theorem readWord_letters {word : List Char} (hword : ∀ c ∈ word, c.isAlpha) {flow : Bool}
    (hrest : ∀ c ∈ rest.head?, flow ∧ isFlowIndicator c) {fuel : Nat} (hfuel : word.length < fuel)
    {p : Place} (h : p.rest = word ++ rest) :
    readWord flow fuel p = .ok (word, p.advance word.length) := by
  induction word generalizing fuel p with
  | nil =>
    obtain ⟨n, rfl⟩ := Nat.exists_eq_succ_of_ne_zero (Nat.ne_zero_of_lt hfuel)
    have hend : p.rest = rest := h
    cases rest with
    | nil => simp [readWord, hend, Place.advance_zero]
    | cons c rest =>
      obtain ⟨rfl, hc⟩ := hrest c rfl
      simp [readWord, hend, tightColon, endsPlain, Place.ahead, hc, sign_ends hc,
        Place.advance_zero]
  | cons c word ih =>
    obtain ⟨n, rfl⟩ := Nat.exists_eq_succ_of_ne_zero (Nat.ne_zero_of_lt hfuel)
    obtain ⟨hc, hword⟩ := List.forall_mem_cons.mp hword
    have hnext : (p.advance 1).rest = word ++ rest := by simp [Place.advance, h]
    have hlater := ih hword (Nat.lt_of_succ_lt_succ hfuel) hnext
    rw [Place.advance_advance, Nat.add_comm] at hlater
    simp [readWord, h, letter_plain hc, tightColon, endsPlain, Place.ahead, Place.skip_eq_advance,
      hlater, bind, Except.bind]

theorem readPlain_letters {word : List Char} (hne : word ≠ []) (hword : ∀ c ∈ word, c.isAlpha)
    {flow : Bool} (hrest : ∀ c ∈ rest.head?, flow ∧ isFlowIndicator c) (indent : Nat) {p : Place}
    (h : p.rest = word ++ rest) :
    readPlain flow indent p = .ok ⟨word, p.advance word.length, false⟩ := by
  have hfuel : word.length < p.rest.length + 1 := by
    rw [h, List.length_append]
    omega
  have hread := readWord_letters hword hrest hfuel h
  have hempty : word.isEmpty = false := by simpa using hne
  have hnext := Place.rest_advance h
  have hstop : (p.advance word.length).ahead 0 (fun c => isBlank c || isBreak c) = false := by
    cases rest with
    | nil => simp [Place.ahead, hnext]
    | cons c rest => simp [Place.ahead, hnext, sign_ends (hrest c rfl).2]
  have hstart : p.atDocumentEdge = false ∧ p.ahead 0 (· = '#') = false := by
    obtain ⟨c, cs, rfl⟩ := List.exists_cons_of_ne_nil hne
    have hc := hword c List.mem_cons_self
    simp [Place.atDocumentEdge, Place.startsWithThree, Place.ahead, h, letter_plain hc]
  simp [readPlain, readWords, hstart, hread, hempty, hstop, Gap.text, bind, Except.bind]

theorem At.fetchPlain {word : List Char} (hne : word ≠ []) (hword : ∀ c ∈ word, c.isAlpha)
    (hrest : ∀ c ∈ rest.head?, flow ≠ 0 ∧ isFlowIndicator c) (h : l.At flow ts (word ++ rest)) :
    ∃ l', l.fetchPlain = .ok l' ∧ l'.At flow (ts ++ [.scalar .plain word]) rest := by
  obtain ⟨keys, hsave, hkeys, -⟩ := h.saveKey
  have hinFlow : ∀ c ∈ rest.head?, ({ l with keys } : Lexing).inFlow ∧ isFlowIndicator c := by
    intro c hc
    exact ⟨by simp [inFlow, h.flow, (hrest c hc).1], (hrest c hc).2⟩
  have hread := readPlain_letters hne hword hinFlow l.margin h.rest
  have hat := (h.withKeys hkeys).reading (.scalar .plain word) (Place.rest_advance h.rest) false
  refine ⟨_, ?_, hat⟩
  simp only [Lexing.fetchPlain, hsave, hread, bind, Except.bind]

theorem isIndicator_letter {c : Char} (h : c.isAlpha) : isIndicator c = false := by
  have hsigns : ∀ x ∈ "-?:,[]\x7b\x7d#&*!|>\x27\"%@\x60".toList, !x.isAlpha :=
    List.all_eq_true.mp (by decide)
  apply Bool.eq_false_iff.mpr
  intro hc
  have hfalse := hsigns c (List.contains_iff_mem.mp hc)
  simp [h] at hfalse

theorem fetchToken_letter {c : Char} (hc : c.isAlpha) (h : l.place.rest = c :: rest) :
    l.fetchToken = l.fetchPlain := by
  have hindicator := isIndicator_letter hc
  have hsigns := hindicator
  simp [isIndicator] at hsigns
  simp [fetchToken, h, Place.startsWithThree, Place.ahead, startsPlain, hindicator, hsigns,
    letter_plain hc]

theorem next_word {word : List Char} (hne : word ≠ []) (hword : ∀ c ∈ word, c.isAlpha)
    (hrest : ∀ c ∈ rest.head?, flow ≠ 0 ∧ isFlowIndicator c) (h : l.At flow ts (word ++ rest)) :
    ∃ l', Next l l' ∧ l'.At flow (ts ++ [.scalar .plain word]) rest := by
  obtain ⟨c, cs, rfl⟩ := List.exists_cons_of_ne_nil hne
  have hc := hword c List.mem_cons_self
  have hmark : c ≠ '\uFEFF' := by
    rintro rfl
    contradiction
  have hseen : Seen (c :: cs ++ rest) := by
    simp [Seen, letter_plain hc, hmark]
  have hfetch : l.fresh.fetchToken = l.fresh.fetchPlain := fetchToken_letter hc h.fresh.rest
  have hshorter : rest.length < (c :: cs ++ rest).length := by
    rw [List.length_append]
    exact Nat.lt_add_of_pos_left (List.length_pos_iff.mpr hne)
  obtain ⟨l', hl', hat⟩ := h.fresh.fetchPlain hne hword hrest
  exact ⟨l', h.next hseen (hfetch.trans hl') hat hshorter, hat⟩

theorem At.fetchValue {scalar : Token} {k : PossibleKey} (hflow : flow ≠ 0)
    (hkey : l.key? = some k) (hnumber : k.number + 1 = l.count)
    (h : l.At flow (ts ++ [scalar]) rest) :
    ∃ l', l.fetchValue = .ok l' ∧ l'.At flow (ts ++ [.key, scalar, .value]) rest.tail := by
  have hinFlow : l.inFlow = true := by simp [inFlow, h.flow, hflow]
  have hnewer : l.count - k.number = 1 := by omega
  have htokens := h.tokens
  rw [List.reverse_append] at htokens
  obtain ⟨placed, older, hplaced, hscalar, holder⟩ := List.map_eq_cons_iff.mp htokens
  have hkeys : ∀ k, some k ∈ (none :: l.keys.tail) → k.required = false := by
    intro k hk
    exact h.optional k (List.mem_of_mem_tail (by simpa using hk))
  -- The key token goes before the newest one, which is the scalar.
  have hinserted : (l.insertAt k.number .key k.mark).At flow (ts ++ [.key, scalar]) rest := by
    refine ⟨?_, h.rest, h.flow, h.margin, h.outer, h.optional, h.unfinished⟩
    simp [insertAt, hnewer, hplaced, hscalar, holder]
  have hroll : ∀ column number t mark, (l.insertAt k.number .key k.mark).roll column number t mark =
      l.insertAt k.number .key k.mark := by
    intro column number t mark
    have hinserted : (l.insertAt k.number .key k.mark).inFlow = true := hinFlow
    simp [roll, hinserted]
  have hat := (hinserted.withKeys hkeys).indicator .value
  simp only [Lexing.fetchValue, hkey, hroll]
  exact ⟨_, rfl, hat.tokens.trans (by simp), hat.rest, hat.flow, hat.margin, hat.outer,
    hat.optional, hat.unfinished⟩

theorem next_colon {scalar : Token} {k : PossibleKey} (hflow : flow ≠ 0)
    (hkey : l.key? = some k) (hfresh : k.isStale l.place = false) (hnumber : k.number + 1 = l.count)
    (h : l.At flow (ts ++ [scalar]) (':' :: rest)) :
    ∃ l', Next l l' ∧ l'.At flow (ts ++ [.key, scalar, .value]) rest := by
  have hseen : Seen (':' :: rest) := by simp [Seen, isBlank, isBreak]
  have hinFlow : l.fresh.inFlow = true := by simp [inFlow, h.fresh.flow, hflow]
  have hfetch : l.fresh.fetchToken = l.fresh.fetchValue := by
    simp [fetchToken, h.fresh.rest, Place.startsWithThree, Place.ahead, hinFlow]
  have hfreshKey : l.fresh.key? = some k := by
    obtain ⟨keys, hkeys⟩ := keys_of_key? hkey
    simp [key?, Lexing.fresh, hkeys, Option.filter, hfresh]
  obtain ⟨l', hl', hat⟩ := h.fresh.fetchValue hflow hfreshKey hnumber
  exact ⟨l', h.next hseen (hfetch.trans hl') hat (Nat.lt_succ_self _), hat⟩

theorem At.fetchEnd (h : l.At flow ts rest) : ∃ l', l.fetchEnd = .ok l' ∧ l'.finished = true ∧
    l'.tokens.map Placed.token = .streamEnd :: ts.reverse ∧
    ∀ k, some k ∈ l'.keys → k.required = false := by
  let m := if l.place.mark.column = 0 then l.place.mark else ⟨l.place.mark.line + 1, 0⟩
  have hat : At { l with place := { l.place with mark := m } } flow ts rest :=
    ⟨h.tokens, h.rest, h.flow, h.margin, h.outer, h.optional, h.unfinished⟩
  have hunroll : Lexing.unroll { l with place := { l.place with mark := m } } 0 =
      { l with place := { l.place with mark := m } } := by
    simp [unroll, h.outer, unrollOuter]
  obtain ⟨keys, hdrop, hkeys⟩ := hat.dropKey
  have hend : l.fetchEnd = (Lexing.unroll { l with place := { l.place with mark := m } } 0).dropKey >>=
    fun l => .ok { l.emit .streamEnd m m with keyAllowed := false, finished := true } := rfl
  rw [hend, hunroll, hdrop]
  exact ⟨_, rfl, rfl, congrArg (Token.streamEnd :: ·) h.tokens, hkeys⟩

end

end Lexing
end ToolRoster.Yaml
