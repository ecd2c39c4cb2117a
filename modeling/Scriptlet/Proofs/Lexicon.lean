import Mathlib.Data.List.TakeWhile
import Scriptlet.Proofs.Lexing

/-!
# Longest lexemes

What the lexemes of the language are is said without an order in which they are
looked for: `Lexicon` lists them, each with what it is read as. A text is read
by maximal munch over this list. `Found` says that the piece that is read is in the
list, and `Covered` that no lexeme in the list goes further. Between the two, the
pieces of a source are determined: they are the longest lexemes, and an illegal
character where there is none.

An attempt that fails may have looked far ahead, as for a string without its
closing quote, but it takes no more than one character.

Results:
* `covered_read`: no lexeme goes beyond the piece that is read.
* `Front.eq_read`: there is one piece at the front of a text.
* `leaves_iff`: the tokens and the errors that pieces leave.
* `tokenize_splits`: the pieces of a source, its tokens and its errors.
-/

namespace Scriptlet

/-! ## The lexicon -/

/-- The lexemes of the language and what they are read as. A text may be two lexemes
    at once: the words with a fixed meaning are spelled like names. -/
inductive Lexicon : List Char → Reading → Prop
  | float {whole fraction : List Char} : whole ≠ [] → (∀ c ∈ whole, c.isDigit) →
      fraction ≠ [] → (∀ c ∈ fraction, c.isDigit) →
      Lexicon (whole ++ '.' :: fraction) (.token (.float
        (Text.nearestFloat (Text.digitsValue (whole ++ fraction)) (-fraction.length))))
  | fraction {fraction : List Char} : fraction ≠ [] → (∀ c ∈ fraction, c.isDigit) →
      Lexicon ('.' :: fraction) (.token (.float
        (Text.nearestFloat (Text.digitsValue fraction) (-fraction.length))))
  | integer {digits : List Char} {n : Int64} : digits ≠ [] → (∀ c ∈ digits, c.isDigit) →
      n.toInt = Text.digitsValue digits → Lexicon digits (.token (.int n))
  | outOfRange {digits : List Char} : digits ≠ [] → (∀ c ∈ digits, c.isDigit) →
      ¬ InRange (Text.digitsValue digits) → Lexicon digits .outOfRange
  | word {t : Token} : t ∈ Token.words → Lexicon t.text.toList (.token t)
  | name {c : Char} {cs : List Char} : Lexeme.startsWord c → (∀ x ∈ cs, Lexeme.continuesWord x) →
      Lexicon (c :: cs) (.token (.name (String.ofList (c :: cs))))
  | comment {text : List Char} : (∀ c ∈ text, Lexeme.inComment c) →
      Lexicon ('#' :: text) (.token (.comment (String.ofList text)))
  | str {text : List Char} : (∀ c ∈ text, Lexeme.inString c) →
      Lexicon ('"' :: (text ++ ['"'])) (.token (.str (String.ofList text)))
  | sign (s : Sign) : Lexicon s.text.toList (.token (.sign s))
  /-- the second spelling of a power -/
  | doubleStar : Lexicon ['*', '*'] (.token (.sign .caret))
  | blanks {text : List Char} : text ≠ [] → (∀ c ∈ text, Lexeme.isBlank c) → Lexicon text .blank
  | lineBreak : Lexicon ['\n'] .lineBreak
  | carriageReturn : Lexicon ['\r', '\n'] .lineBreak

namespace Lexeme

/-! ## Classes of characters -/

theorem isDigit_of_startsWord {c : Char} (h : startsWord c = true) : c.isDigit = false := by
  -- the letters come after the digits
  have hafter (hc : '9'.val < c.val) : c.isDigit = false :=
    Bool.and_eq_false_iff.mpr (.inr (decide_eq_false (UInt32.not_le.mpr hc)))
  rcases Bool.or_eq_true_iff.mp h with halpha | hline
  · rcases Bool.or_eq_true_iff.mp halpha with hupper | hlower
    · have hle : 'A'.val ≤ c.val := (of_decide_eq_true hupper).1
      exact hafter (UInt32.lt_of_lt_of_le (by decide) hle)
    · have hle : 'a'.val ≤ c.val := of_decide_eq_true (Bool.and_eq_true_iff.mp hlower).1
      exact hafter (UInt32.lt_of_lt_of_le (by decide) hle)
  · rw [beq_iff_eq.mp hline]
    decide

theorem isBlank_iff {c : Char} : isBlank c = true ↔ c = ' ' ∨ c = '\t' := by
  simp [isBlank]

/-! ## Words -/

/-- The words with a fixed meaning are spelled like names, each in its own way. -/
theorem words_spelled : ∀ t ∈ Token.words,
    t.text.toList.head?.any startsWord = true ∧ t.text.toList.tail.all continuesWord = true ∧
      Token.ofWord t.text = t := by
  decide +kernel

theorem exists_of_mem_words {t : Token} (h : t ∈ Token.words) :
    ∃ c cs, t.text.toList = c :: cs ∧ startsWord c = true ∧ ∀ x ∈ cs, continuesWord x = true := by
  obtain ⟨hhead, htail, -⟩ := words_spelled t h
  cases htext : t.text.toList with
  | nil =>
    rw [htext] at hhead
    cases hhead
  | cons c cs =>
    rw [htext] at hhead htail
    exact ⟨c, cs, rfl, hhead, List.all_eq_true.mp htail⟩

/-- A word is one with a fixed meaning, or else a name. -/
theorem ofWord_eq (word : String) :
    Token.ofWord word ∈ Token.words ∧ (Token.ofWord word).text = word ∨
      Token.ofWord word = .name word := by
  unfold Token.ofWord
  cases h : Token.words.find? fun t => t.text == word with
  | none => exact .inr rfl
  | some t => exact .inl ⟨List.mem_of_find?_eq_some h, by simpa using List.find?_some h⟩

/-! ## What is read is in the lexicon -/

theorem lexicon_readInt {digits : List Char} (hne : digits ≠ []) (h : ∀ c ∈ digits, c.isDigit) :
    Lexicon digits (readInt digits) := by
  unfold readInt
  split
  · next n hn => exact .integer hne h (word?_eq_some_iff.mp hn)
  · next hn => exact .outOfRange hne h (word?_eq_none_iff.mp hn)

/-- A lexeme that consists of digits is what the digits are read as. -/
theorem readInt_eq {digits : List Char} {n : Int64} (h : n.toInt = Text.digitsValue digits) :
    readInt digits = .token (.int n) := by
  unfold readInt
  rw [word?_eq_some_iff.mpr h]

theorem readInt_eq_outOfRange {digits : List Char} (h : ¬ InRange (Text.digitsValue digits)) :
    readInt digits = .outOfRange := by
  unfold readInt
  rw [word?_eq_none_iff.mpr h]

/-- What is read at the front of a text is a lexeme or, failing that, an illegal
    character. -/
structure Found (c : Char) (cs : List Char) (piece : Nat × Reading) : Prop where
  length : piece.1 ≤ cs.length
  lexeme : Lexicon (c :: cs.take piece.1) piece.2 ∨ piece = (0, .illegal c)

namespace Found

theorem of_append {c : Char} {cs rest : List Char} (text : List Char) {reading : Reading}
    (hcs : cs = text ++ rest) (h : Lexicon (c :: text) reading) :
    Found c cs (text.length, reading) where
  length := by simp [hcs]
  lexeme := .inl (by simpa [hcs] using h)

theorem takeWhile {c : Char} {cs : List Char} {p : Char → Bool} {reading : Reading}
    (h : Lexicon (c :: cs.takeWhile p) reading) : Found c cs ((cs.takeWhile p).length, reading) :=
  of_append _ List.takeWhile_append_dropWhile.symm h

theorem illegal (c : Char) (cs : List Char) : Found c cs (0, .illegal c) :=
  ⟨Nat.zero_le _, .inr rfl⟩

end Found

theorem found_readNumber {c : Char} (hc : c.isDigit = true) (cs : List Char) :
    Found c cs (readNumber c cs) := by
  have hwhole : ∀ x ∈ c :: cs.takeWhile Char.isDigit, x.isDigit = true :=
    List.forall_mem_cons.mpr ⟨hc, fun _ => List.mem_takeWhile_imp⟩
  have hinteger := Found.takeWhile (lexicon_readInt (List.cons_ne_nil _ _) hwhole)
  unfold readNumber
  dsimp only
  split
  · next rest hrest =>
    split
    · exact hinteger
    · next hfraction =>
      have hcs : cs = (cs.takeWhile Char.isDigit ++ '.' :: rest.takeWhile Char.isDigit) ++
          rest.dropWhile Char.isDigit := by
        rw [List.append_assoc, List.cons_append, List.takeWhile_append_dropWhile, ← hrest,
          List.takeWhile_append_dropWhile]
      have hfloat := Found.of_append _ hcs
        (.float (List.cons_ne_nil _ _) hwhole hfraction fun _ => List.mem_takeWhile_imp)
      simpa [readFloat, Nat.add_assoc, Nat.add_comm 1] using hfloat
  · rw [if_pos rfl]
    exact hinteger

theorem lexicon_sign {text : List Char} (s : Sign) (h : s.text.toList = text) :
    Lexicon text (.token (.sign s)) :=
  h ▸ .sign s

theorem found_readSign (c : Char) (cs : List Char) : Found c cs (readSign c cs) := by
  unfold readSign
  split
  all_goals first
    | exact .illegal _ _
    | exact .of_append [] rfl (lexicon_sign _ (by decide))
    | exact .of_append [_] rfl (lexicon_sign _ (by decide))
    | exact .of_append [_] rfl .doubleStar

theorem found_read (c : Char) (cs : List Char) : Found c cs (read c cs) := by
  unfold read
  split
  · next hc => exact found_readNumber hc cs
  split
  · next hc =>
    refine .takeWhile ?_
    rcases ofWord_eq (String.ofList (c :: cs.takeWhile continuesWord)) with ⟨hmem, htext⟩ | hname
    · have hword := Lexicon.word hmem
      rwa [htext, String.toList_ofList] at hword
    · rw [hname]
      exact .name hc fun _ => List.mem_takeWhile_imp
  split
  · next hc =>
    exact .takeWhile (.blanks (List.cons_ne_nil _ _)
      (List.forall_mem_cons.mpr ⟨hc, fun _ => List.mem_takeWhile_imp⟩))
  split
  · dsimp only
    split
    · exact .illegal _ _
    · next h => exact .takeWhile (.fraction h fun _ => List.mem_takeWhile_imp)
  · exact .takeWhile (.comment fun _ => List.mem_takeWhile_imp)
  · split
    · next rest hrest =>
      have hcs : cs = (cs.takeWhile inString ++ ['"']) ++ rest := by
        rw [List.append_assoc, List.singleton_append, ← hrest, List.takeWhile_append_dropWhile]
      simpa using Found.of_append _ hcs (.str fun _ => List.mem_takeWhile_imp)
    · exact .illegal _ _
  · exact .of_append [] rfl .lineBreak
  · split
    · exact .of_append ['\n'] rfl .carriageReturn
    · exact .illegal _ _
  · exact found_readSign c cs

/-! ## No lexeme is longer -/

/-- A text is read as a lexeme that it is, unless it is a word with a fixed meaning. -/
def Preferred (text : List Char) (reading other : Reading) : Prop :=
  reading = other ∨ ∃ t ∈ Token.words, t.text.toList = text ∧ reading = .token t

/-- The lexeme `c :: text` is not longer than a piece that starts with `c`, and as
    long only if the piece is what it is. -/
def Covered (c : Char) (text : List Char) (reading : Reading) (piece : Nat × Reading) : Prop :=
  text.length < piece.1 ∨ text.length = piece.1 ∧ Preferred (c :: text) piece.2 reading

theorem Covered.takeWhile {c : Char} {p : Char → Bool} {text rest : List Char} {reading : Reading}
    (readAs : List Char → Reading) (h : ∀ x ∈ text, p x)
    (hreading : Preferred (c :: text) (readAs text) reading) :
    Covered c text reading
      (((text ++ rest).takeWhile p).length, readAs ((text ++ rest).takeWhile p)) := by
  rw [List.takeWhile_append_of_pos h]
  cases hrest : rest.takeWhile p with
  | nil => exact .inr ⟨by simp, by simpa using hreading⟩
  | cons d ds => exact .inl (by simp)

section Stop

variable {p : Char → Bool} {text : List Char} {c : Char}

theorem takeWhile_append_stop (h : ∀ x ∈ text, p x) (hc : ¬ p c) (rest : List Char) :
    (text ++ c :: rest).takeWhile p = text := by
  rw [List.takeWhile_append_of_pos h, List.takeWhile_cons_of_neg hc, List.append_nil]

theorem dropWhile_append_stop (h : ∀ x ∈ text, p x) (hc : ¬ p c) (rest : List Char) :
    (text ++ c :: rest).dropWhile p = c :: rest := by
  rw [List.dropWhile_append_of_pos h, List.dropWhile_cons_of_neg hc]

end Stop

/-- A number is an integer, or longer than its digits before the point. -/
theorem readNumber_eq_or (c : Char) (cs : List Char) :
    readNumber c cs =
        ((cs.takeWhile Char.isDigit).length, readInt (c :: cs.takeWhile Char.isDigit)) ∨
      (cs.takeWhile Char.isDigit).length < (readNumber c cs).1 := by
  unfold readNumber
  dsimp only
  split
  · split
    · exact .inl rfl
    · exact .inr (by dsimp only; omega)
  · exact .inl rfl

theorem covered_readInt (c : Char) {digits : List Char} (rest : List Char) {reading : Reading}
    (hdigits : ∀ x ∈ digits, x.isDigit) (h : readInt (c :: digits) = reading) :
    Covered c digits reading (readNumber c (digits ++ rest)) := by
  rcases readNumber_eq_or c (digits ++ rest) with hinteger | hlonger
  · rw [hinteger]
    exact .takeWhile (fun text => readInt (c :: text)) hdigits (.inl h)
  · rw [List.takeWhile_append_of_pos hdigits, List.length_append] at hlonger
    exact .inl (by omega)

theorem covered_readFloat (c : Char) {whole fraction : List Char} (rest : List Char)
    (hwhole : ∀ x ∈ whole, x.isDigit) (hne : fraction ≠ [])
    (hfraction : ∀ x ∈ fraction, x.isDigit) :
    Covered c (whole ++ '.' :: fraction) (readFloat (c :: whole) fraction)
      (readNumber c (whole ++ '.' :: (fraction ++ rest))) := by
  have htake := takeWhile_append_stop hwhole (by decide : ¬ Char.isDigit '.') (fraction ++ rest)
  have hdrop := dropWhile_append_stop hwhole (by decide : ¬ Char.isDigit '.') (fraction ++ rest)
  have hlonger : (fraction ++ rest).takeWhile Char.isDigit ≠ [] := by
    rw [List.takeWhile_append_of_pos hfraction]
    exact List.append_ne_nil_of_left_ne_nil hne _
  simp only [readNumber, htake, hdrop, if_neg hlonger]
  rw [List.takeWhile_append_of_pos hfraction]
  cases rest.takeWhile Char.isDigit with
  | nil =>
    rw [List.append_nil]
    refine .inr ⟨?_, .inl rfl⟩
    simp only [List.length_append, List.length_cons]
    omega
  | cons d ds =>
    refine .inl ?_
    simp only [List.length_append, List.length_cons]
    omega

theorem read_digit {c : Char} (hc : c.isDigit = true) (cs : List Char) :
    read c cs = readNumber c cs := by
  unfold read
  exact if_pos hc

theorem read_word {c : Char} (hc : startsWord c = true) (cs : List Char) :
    read c cs = ((cs.takeWhile continuesWord).length,
      .token (.ofWord (String.ofList (c :: cs.takeWhile continuesWord)))) := by
  unfold read
  rw [if_neg (by simp [isDigit_of_startsWord hc]), if_pos hc]

/-- A sign is read, or a longer one that starts like it. -/
theorem covered_sign {s : Sign} {c : Char} {text : List Char} (h : s.text.toList = c :: text)
    (rest : List Char) : Covered c text (.token (.sign s)) (read c (text ++ rest)) := by
  cases s <;> simp only [Sign.text, String.reduceToList, List.cons.injEq] at h <;>
    obtain ⟨rfl, rfl⟩ := h
  case colon | equals | less | greater | star =>
    rcases rest with _ | ⟨d, ds⟩
    · exact .inr ⟨rfl, .inl rfl⟩
    · by_cases hlonger : d = '=' ∨ d = '*'
      · rcases hlonger with rfl | rfl
        all_goals first
          | exact .inl Nat.zero_lt_one
          | exact .inr ⟨rfl, .inl rfl⟩
      · rw [not_or] at hlonger
        refine .inr ⟨?_, .inl ?_⟩ <;>
          simp [read, readSign, hlonger, Char.isDigit, startsWord, isBlank]
  all_goals exact .inr ⟨rfl, .inl rfl⟩

theorem read_blank {c : Char} (hc : isBlank c = true) (cs : List Char) :
    read c cs = ((cs.takeWhile isBlank).length, .blank) := by
  rcases isBlank_iff.mp hc with rfl | rfl <;> rfl

theorem covered_fraction {fraction : List Char} (rest : List Char) (hne : fraction ≠ [])
    (h : ∀ x ∈ fraction, x.isDigit) :
    Covered '.' fraction (readFloat [] fraction) (read '.' (fraction ++ rest)) := by
  have hlonger : (fraction ++ rest).takeWhile Char.isDigit ≠ [] := by
    rw [List.takeWhile_append_of_pos h]
    exact List.append_ne_nil_of_left_ne_nil hne _
  have hread : read '.' (fraction ++ rest) = (((fraction ++ rest).takeWhile Char.isDigit).length,
      readFloat [] ((fraction ++ rest).takeWhile Char.isDigit)) :=
    if_neg hlonger
  rw [hread]
  exact .takeWhile (readFloat []) h (.inl rfl)

/-- The first quote after the opening one ends a string. -/
theorem read_string {text : List Char} (rest : List Char) (h : ∀ x ∈ text, inString x) :
    read '"' (text ++ '"' :: rest) = (text.length + 1, .token (.str (String.ofList text))) := by
  unfold read
  rw [takeWhile_append_stop h (by decide), dropWhile_append_stop h (by decide)]
  rfl

/-- **No lexeme goes beyond the piece that is read.** -/
theorem covered_read {c : Char} {text : List Char} {reading : Reading}
    (h : Lexicon (c :: text) reading) (rest : List Char) :
    Covered c text reading (read c (text ++ rest)) := by
  generalize hwhole : c :: text = whole at h
  cases h with
  | @float digits fraction hne hdigits hfne hfraction =>
    obtain ⟨d, ds, rfl⟩ := List.exists_cons_of_ne_nil hne
    rw [List.cons_append, List.cons.injEq] at hwhole
    obtain ⟨rfl, rfl⟩ := hwhole
    obtain ⟨hc, hds⟩ := List.forall_mem_cons.mp hdigits
    rw [read_digit hc, List.append_assoc, List.cons_append]
    exact covered_readFloat c rest hds hfne hfraction
  | fraction hne hfraction =>
    obtain ⟨rfl, rfl⟩ := List.cons.inj hwhole
    exact covered_fraction rest hne hfraction
  | integer _ hdigits hn =>
    subst hwhole
    obtain ⟨hc, htext⟩ := List.forall_mem_cons.mp hdigits
    rw [read_digit hc]
    exact covered_readInt c rest htext (readInt_eq hn)
  | outOfRange _ hdigits hn =>
    subst hwhole
    obtain ⟨hc, htext⟩ := List.forall_mem_cons.mp hdigits
    rw [read_digit hc]
    exact covered_readInt c rest htext (readInt_eq_outOfRange hn)
  | @word t hmem =>
    obtain ⟨d, ds, htext, hd, hds⟩ := exists_of_mem_words hmem
    obtain ⟨rfl, rfl⟩ := List.cons.inj (hwhole.trans htext)
    rw [read_word hd]
    refine .takeWhile (fun text => .token (.ofWord (String.ofList (c :: text)))) hds
      (.inl ?_)
    rw [← htext, String.ofList_toList, (words_spelled t hmem).2.2]
  | name hc hcs =>
    obtain ⟨rfl, rfl⟩ := List.cons.inj hwhole
    rw [read_word hc]
    refine .takeWhile (fun text => .token (.ofWord (String.ofList (c :: text)))) hcs ?_
    rcases ofWord_eq (String.ofList (c :: text)) with ⟨hmem, htext⟩ | hname
    · exact .inr ⟨_, hmem, by rw [htext, String.toList_ofList], rfl⟩
    · exact .inl (by rw [hname])
  | comment htext =>
    obtain ⟨rfl, rfl⟩ := List.cons.inj hwhole
    exact .takeWhile (fun text => .token (.comment (String.ofList text))) htext (.inl rfl)
  | str htext =>
    obtain ⟨rfl, rfl⟩ := List.cons.inj hwhole
    rw [List.append_assoc, List.singleton_append, read_string rest htext]
    exact .inr ⟨by simp, .inl rfl⟩
  | sign s => exact covered_sign hwhole.symm rest
  | doubleStar =>
    obtain ⟨rfl, rfl⟩ := List.cons.inj hwhole
    exact .inr ⟨rfl, .inl rfl⟩
  | blanks _ hblank =>
    subst hwhole
    obtain ⟨hc, htext⟩ := List.forall_mem_cons.mp hblank
    rw [read_blank hc]
    exact .takeWhile (fun _ => .blank) htext (.inl rfl)
  | lineBreak =>
    obtain ⟨rfl, rfl⟩ := List.cons.inj hwhole
    exact .inr ⟨rfl, .inl rfl⟩
  | carriageReturn =>
    obtain ⟨rfl, rfl⟩ := List.cons.inj hwhole
    exact .inr ⟨rfl, .inl rfl⟩

/-! ## The pieces of a source -/

/-- The longest lexeme at the front of a text; a word with a fixed meaning is preferred
    to the name that is spelled like it. -/
structure Longest (source : List Char) (l : Lexeme) : Prop where
  lexeme : Lexicon l.text l.reading
  front : l.text <+: source
  longest : ∀ text reading, Lexicon text reading → text <+: source → text.length ≤ l.text.length
  word : ∀ t ∈ Token.words, t.text.toList = l.text → l.reading = .token t

/-- The piece at the front of a text. Only where there is no lexeme it is an illegal
    character. -/
inductive Front : List Char → Lexeme → Prop
  | longest {source : List Char} {l : Lexeme} : Longest source l → Front source l
  | illegal {c : Char} {cs : List Char} :
      (∀ text reading, Lexicon text reading → ¬ text <+: c :: cs) →
      Front (c :: cs) ⟨[c], .illegal c⟩

/-- Consecutive pieces that make up a text. -/
inductive Splits : List Char → List Lexeme → Prop
  | nil : Splits [] []
  | cons {l : Lexeme} {rest : List Char} {pieces : List Lexeme} :
      Front (l.text ++ rest) l → Splits rest pieces → Splits (l.text ++ rest) (l :: pieces)

/-- Pieces with their lines: the line of a piece is one more than the number of line
    feeds in the text before it. -/
def located (before : List Char) : List Lexeme → List (Lexeme × Nat)
  | [] => []
  | l :: ls => (l, 1 + before.count '\n') :: located (before ++ l.text) ls

/-- The tokens and the errors that pieces with their lines leave, in the order of the
    pieces: a token for each piece that is one, an error for each number out of range,
    quoting it, and for each illegal character, and nothing for blanks and line breaks. -/
inductive Leaves : List (Lexeme × Nat) → List Lexed → List SourceError → Prop
  | nil : Leaves [] [] []
  | token (text : List Char) (t : Token) (line : Nat) {pieces : List (Lexeme × Nat)}
      {tokens : List Lexed} {errors : List SourceError} : Leaves pieces tokens errors →
      Leaves ((⟨text, .token t⟩, line) :: pieces) (⟨t, line⟩ :: tokens) errors
  | blank (text : List Char) (line : Nat) {pieces : List (Lexeme × Nat)}
      {tokens : List Lexed} {errors : List SourceError} : Leaves pieces tokens errors →
      Leaves ((⟨text, .blank⟩, line) :: pieces) tokens errors
  | lineBreak (text : List Char) (line : Nat) {pieces : List (Lexeme × Nat)}
      {tokens : List Lexed} {errors : List SourceError} : Leaves pieces tokens errors →
      Leaves ((⟨text, .lineBreak⟩, line) :: pieces) tokens errors
  | outOfRange (digits : List Char) (line : Nat) {pieces : List (Lexeme × Nat)}
      {tokens : List Lexed} {errors : List SourceError} : Leaves pieces tokens errors →
      Leaves ((⟨digits, .outOfRange⟩, line) :: pieces) tokens
        (.integerOutOfRange (String.ofList digits) line :: errors)
  | illegal (text : List Char) (c : Char) (line : Nat) {pieces : List (Lexeme × Nat)}
      {tokens : List Lexed} {errors : List SourceError} : Leaves pieces tokens errors →
      Leaves ((⟨text, .illegal c⟩, line) :: pieces) tokens (.illegalCharacter c line :: errors)

theorem ne_nil_of_lexicon {text : List Char} {reading : Reading} (h : Lexicon text reading) :
    text ≠ [] := by
  cases h with
  | float hne => exact List.append_ne_nil_of_left_ne_nil hne _
  | word hmem =>
    obtain ⟨c, cs, htext, -⟩ := exists_of_mem_words hmem
    rw [htext]
    exact List.cons_ne_nil c cs
  | sign s => cases s <;> decide
  | integer hne | outOfRange hne | blanks hne => exact hne
  | fraction | name | comment | str | doubleStar | lineBreak | carriageReturn =>
    exact List.cons_ne_nil _ _

theorem not_lexicon_illegal {text : List Char} {c : Char} : ¬ Lexicon text (.illegal c) :=
  nofun

theorem Front.text_ne_nil {source : List Char} {l : Lexeme} (h : Front source l) :
    l.text ≠ [] := by
  cases h with
  | longest hl => exact ne_nil_of_lexicon hl.lexeme
  | illegal _ => exact List.cons_ne_nil _ _

section Front

variable {c : Char} {cs : List Char}

theorem covered_of_front {text : List Char} {reading : Reading} (h : Lexicon text reading)
    (hfront : text <+: c :: cs) :
    ∃ rest, text = c :: rest ∧ rest <+: cs ∧ Covered c rest reading (read c cs) := by
  obtain ⟨d, rest, rfl⟩ := List.exists_cons_of_ne_nil (ne_nil_of_lexicon h)
  obtain ⟨rfl, after, rfl⟩ := List.cons_prefix_cons.mp hfront
  exact ⟨rest, rfl, List.prefix_append rest after, covered_read h after⟩

theorem no_lexeme_of_illegal (h : read c cs = (0, .illegal c)) {text : List Char}
    {reading : Reading} (hlexeme : Lexicon text reading) : ¬ text <+: c :: cs := by
  intro hfront
  obtain ⟨rest, rfl, -, hcovered⟩ := covered_of_front hlexeme hfront
  rw [h] at hcovered
  obtain hlt | ⟨-, rfl | ⟨t, -, -, ht⟩⟩ := hcovered
  · cases hlt
  · exact not_lexicon_illegal hlexeme
  · cases ht

/-- What is read is the piece at the front. -/
theorem front_read (c : Char) (cs : List Char) :
    Front (c :: cs) ⟨c :: cs.take (read c cs).1, (read c cs).2⟩ := by
  have hlength : (cs.take (read c cs).1).length = (read c cs).1 :=
    List.length_take_of_le (found_read c cs).length
  rcases (found_read c cs).lexeme with hlexeme | hillegal
  · refine .longest ⟨hlexeme, List.cons_prefix_cons.mpr ⟨rfl, List.take_prefix _ _⟩, ?_, ?_⟩
    · intro text reading h hfront
      obtain ⟨rest, rfl, -, hcovered⟩ := covered_of_front h hfront
      rw [List.length_cons, List.length_cons, hlength]
      rcases hcovered with hlt | ⟨heq, -⟩ <;> omega
    · intro t ht htext
      have hcovered := covered_read (htext ▸ Lexicon.word ht) (cs.drop (read c cs).1)
      rw [List.take_append_drop] at hcovered
      rcases hcovered with hlt | ⟨-, heq | ⟨t', ht', htext', hreading⟩⟩
      · omega
      · exact heq
      · have hsame : t' = t := by
          rw [← (words_spelled t' ht').2.2, ← (words_spelled t ht).2.2,
            String.toList_inj.mp (htext'.trans htext.symm)]
        rw [← hsame, hreading]
  · rw [hillegal]
    exact .illegal fun text reading h => no_lexeme_of_illegal hillegal h

/-- There is one piece at the front. -/
theorem Front.eq_read {l : Lexeme} (h : Front (c :: cs) l) :
    l = ⟨c :: cs.take (read c cs).1, (read c cs).2⟩ := by
  cases h with
  | longest hl =>
    have hfits := (found_read c cs).length
    obtain ⟨rest, htext, hrest, hcovered⟩ := covered_of_front hl.lexeme hl.front
    rcases (found_read c cs).lexeme with hlexeme | hillegal
    · have hle := hl.longest _ _ hlexeme (List.cons_prefix_cons.mpr ⟨rfl, List.take_prefix _ _⟩)
      rw [htext, List.length_cons, List.length_cons, List.length_take_of_le hfits] at hle
      obtain hlt | ⟨heq, hreading⟩ := hcovered
      · omega
      · have hsame : l.reading = (read c cs).2 := by
          rcases hreading with hsame | ⟨t, ht, hspelled, hread⟩
          · exact hsame.symm
          · rw [hl.word t ht (hspelled.trans htext.symm), hread]
        rw [← heq, ← List.prefix_iff_eq_take.mp hrest, ← htext, ← hsame]
    · exact absurd hl.front (no_lexeme_of_illegal hillegal hl.lexeme)
  | illegal hnone =>
    rcases (found_read c cs).lexeme with hlexeme | hillegal
    · exact absurd (List.cons_prefix_cons.mpr ⟨rfl, List.take_prefix _ _⟩) (hnone _ _ hlexeme)
    · rw [hillegal]
      rfl

end Front

theorem splits_split (source : List Char) : Splits source (split source) := by
  induction source using split_induction with
  | nil => exact .nil
  | cons c cs ih =>
    have hcs : c :: cs = (c :: cs.take (read c cs).1) ++ cs.drop (read c cs).1 := by
      rw [List.cons_append, List.take_append_drop]
    have hfront := front_read c cs
    rw [split_cons]
    rw [hcs] at hfront ⊢
    exact .cons (l := ⟨c :: cs.take (read c cs).1, (read c cs).2⟩) hfront ih

namespace Splits

variable {source : List Char} {pieces : List Lexeme}

theorem text_ne_nil (h : Splits source pieces) : ∀ l ∈ pieces, l.text ≠ [] := by
  induction h with
  | nil => simp
  | cons hfront _ ih => exact List.forall_mem_cons.mpr ⟨hfront.text_ne_nil, ih⟩

theorem flatMap_text (h : Splits source pieces) : pieces.flatMap text = source := by
  induction h with
  | nil => rfl
  | cons _ _ ih => rw [List.flatMap_cons, ih]

theorem eq_split (h : Splits source pieces) : pieces = split source := by
  induction h with
  | nil => rfl
  | @cons l rest pieces hfront _ ih =>
    obtain ⟨c, cs, hcs⟩ := List.exists_cons_of_ne_nil
      (List.append_ne_nil_of_left_ne_nil hfront.text_ne_nil rest)
    rw [hcs] at hfront ⊢
    have hread := hfront.eq_read
    have hrest : rest = cs.drop (read c cs).1 := by
      rw [hread, List.cons_append, List.cons.injEq] at hcs
      exact List.append_cancel_left (hcs.2.trans (List.take_append_drop _ _).symm)
    rw [split_cons, ← hread, ← hrest, ih]

end Splits

/-- Line breaks are counted where there are line feeds. -/
theorem number_split (before source : List Char) :
    number (1 + before.count '\n') (split source) = located before (split source) := by
  induction source using split_induction generalizing before with
  | nil => rfl
  | cons c cs ih =>
    rw [split_cons, number, located, ← ih, List.count_append, (fits_read c cs).breaks]
    congr 2
    dsimp only
    split <;> omega

/-- What pieces leave is what is picked out of them. -/
theorem leaves_iff {pieces : List (Lexeme × Nat)} {tokens : List Lexed}
    {errors : List SourceError} : Leaves pieces tokens errors ↔
      (pieces.filterMap token?, pieces.filterMap error?) = (tokens, errors) := by
  constructor
  · intro h
    induction h with
    | nil => rfl
    | token | blank | lineBreak | outOfRange | illegal =>
      next ih =>
      obtain ⟨rfl, rfl⟩ := Prod.mk.inj ih
      rfl
  · intro h
    obtain ⟨rfl, rfl⟩ := Prod.mk.inj h
    induction pieces with
    | nil => exact .nil
    | cons piece pieces ih =>
      obtain ⟨⟨text, reading⟩, line⟩ := piece
      cases reading with
      | token t => exact .token text t line (ih rfl)
      | blank => exact .blank text line (ih rfl)
      | lineBreak => exact .lineBreak text line (ih rfl)
      | outOfRange => exact .outOfRange text line (ih rfl)
      | illegal c => exact .illegal text c line (ih rfl)

end Lexeme

open Lexeme

/-- **Lexing loses nothing.** A source is made up of non-empty pieces in one way, each
    being the longest lexeme there or, where there is none, an illegal character. The
    tokens and the errors of a source are those that its pieces leave, each on the line
    of its piece. -/
theorem tokenize_splits (source : String) : ∃ pieces,
    Splits source.toList pieces ∧ (∀ others, Splits source.toList others → others = pieces) ∧
    pieces.flatMap text = source.toList ∧ (∀ l ∈ pieces, l.text ≠ []) ∧
    ∀ tokens errors, tokenize source = (tokens, errors) ↔
      Leaves (located [] pieces) tokens errors := by
  have hsplits := splits_split source.toList
  refine ⟨split source.toList, hsplits, fun _ h => h.eq_split, hsplits.flatMap_text,
    hsplits.text_ne_nil, fun tokens errors => ?_⟩
  rw [leaves_iff, ← number_split]
  rfl

-- a string without its closing quote, and a number without its fraction
example : tokenize "\"if\n1." =
    ([⟨.keyword .ifWord, 1⟩, ⟨.int 1, 2⟩], [.illegalCharacter '"' 1, .illegalCharacter '.' 2]) := by
  decide +kernel

end Scriptlet
