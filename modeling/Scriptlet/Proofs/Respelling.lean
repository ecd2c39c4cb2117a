import Scriptlet.Proofs.Conversion
import Scriptlet.Proofs.Lexicon

/-!
# Tokens are read back from their spelling

A token is shown in one spelling, which need not be the one of the source: an integer
loses its leading zeros, and `**` becomes `^`. This spelling is again a lexeme, it is read
as the token, and it does not go beyond a line. So tokens that are written one below the
other are read back, each on its line. Only floats are left out, whose decimal is another
matter.

That a name is read back is due to where it comes from: it has been read as a name, so it
is no word with a fixed meaning.

Results:
* `readsBack_of_longest`: the spelling of a token of a source is a lexeme that is read as
  the token.
* `split_lines`: the pieces of spellings one below the other.
* `tokenize_lines`: tokens are read back from their spellings.
-/

namespace Scriptlet

open Lexeme

/-- The spelling of a token is a lexeme within a line, and it is read as the token. -/
structure Token.ReadsBack (t : Token) : Prop where
  lexeme : Lexicon t.text.toList (.token t)
  word : ∀ w ∈ Token.words, w.text = t.text → w = t
  last : t.text.toList.getLast? ≠ some '\r'

/-! ## Spellings -/

/-- What does not start like a word is the spelling of none. -/
theorem word_of_startsWord_eq_false {t : Token} {c : Char} {cs : List Char}
    (h : t.text.toList = c :: cs) (hc : startsWord c = false) :
    ∀ w ∈ Token.words, w.text = t.text → w = t := by
  intro w hw htext
  obtain ⟨d, ds, hd, hstarts, -⟩ := exists_of_mem_words hw
  rw [htext, h] at hd
  cases hd
  rw [hc] at hstarts
  cases hstarts

theorem getLast?_ne_of_forall {p : Char → Bool} {text : List Char} (h : ∀ c ∈ text, p c = true)
    (hp : p '\r' = false) : text.getLast? ≠ some '\r' := by
  intro hlast
  have hmem := h _ (List.mem_of_getLast? hlast)
  rw [hp] at hmem
  cases hmem

theorem readsBack_int {n : Int64} {digits : List Char} (h : n.toInt = Text.digitsValue digits) :
    (Token.int n).ReadsBack := by
  have htext : (Token.int n).text.toList = Nat.toDigits 10 (Text.digitsValue digits) := by
    show (toString n.toInt).toList = _
    rw [h]
    exact Nat.toList_repr
  obtain ⟨hne, hdigits⟩ := Text.digits_toDigits (Text.digitsValue digits)
  obtain ⟨c, cs, hcons⟩ := List.exists_cons_of_ne_nil hne
  have hstart : startsWord c = false := by
    by_contra hc
    have hletter := isDigit_of_startsWord (Bool.not_eq_false _ ▸ hc)
    rw [hdigits c (by simp [hcons])] at hletter
    cases hletter
  refine ⟨?_, word_of_startsWord_eq_false (htext.trans hcons) hstart, ?_⟩
  · rw [htext]
    refine .integer hne hdigits ?_
    rw [h, Text.digitsValue_eq (Nat.toDigits _ _), Nat.ofDigitChars_ten_toDigits]
  · rw [htext]
    exact getLast?_ne_of_forall hdigits (by decide)

/-- A word ends within a line. -/
theorem getLast?_ne_of_word {c : Char} {cs : List Char} (hc : startsWord c = true)
    (hcs : ∀ x ∈ cs, continuesWord x = true) : (c :: cs).getLast? ≠ some '\r' := by
  have hcontinues : continuesWord c = true := by
    unfold startsWord at hc
    unfold continuesWord Char.isAlphanum
    rw [Bool.or_right_comm, hc, Bool.true_or]
  exact getLast?_ne_of_forall (List.forall_mem_cons.mpr ⟨hcontinues, hcs⟩) (by decide)

theorem readsBack_of_mem_words {t : Token} (h : t ∈ Token.words) : t.ReadsBack where
  lexeme := .word h
  word w hw htext := by rw [← (words_spelled w hw).2.2, htext, (words_spelled t h).2.2]
  last := by
    obtain ⟨c, cs, htext, hc, hcs⟩ := exists_of_mem_words h
    rw [htext]
    exact getLast?_ne_of_word hc hcs

theorem readsBack_sign (s : Sign) : (Token.sign s).ReadsBack where
  lexeme := .sign s
  word w hw htext := by
    have hnone : ∀ w ∈ Token.words, w.text ≠ s.text := by cases s <;> decide +kernel
    exact absurd htext (hnone w hw)
  last := by cases s <;> decide

theorem readsBack_comment {text : List Char} (h : ∀ c ∈ text, inComment c) :
    (Token.comment (String.ofList text)).ReadsBack := by
  have htext : (Token.comment (String.ofList text)).text.toList = '#' :: text := by
    simp [Token.text]
  refine ⟨htext ▸ .comment h, word_of_startsWord_eq_false htext (by decide), ?_⟩
  rw [htext]
  exact getLast?_ne_of_forall (List.forall_mem_cons.mpr ⟨by decide, h⟩) (by decide)

theorem readsBack_str {text : List Char} (h : ∀ c ∈ text, inString c) :
    (Token.str (String.ofList text)).ReadsBack := by
  have htext : (Token.str (String.ofList text)).text.toList = '"' :: (text ++ ['"']) := by
    simp [Token.text]
  refine ⟨htext ▸ .str h, word_of_startsWord_eq_false htext (by decide), ?_⟩
  rw [htext, ← List.cons_append, List.getLast?_append_cons]
  decide

/-- A name is read back unless it is spelled like a word with a fixed meaning. -/
theorem readsBack_name {c : Char} {cs : List Char} (hc : startsWord c = true)
    (hcs : ∀ x ∈ cs, continuesWord x = true)
    (hword : ∀ w ∈ Token.words, w.text.toList = c :: cs →
      w = .name (String.ofList (c :: cs))) :
    (Token.name (String.ofList (c :: cs))).ReadsBack := by
  have htext : (Token.name (String.ofList (c :: cs))).text.toList = c :: cs :=
    String.toList_ofList
  refine ⟨?_, fun w hw hsame => hword w hw (by rw [hsame, htext]), ?_⟩
  · rw [htext]
    exact .name hc hcs
  · rw [htext]
    exact getLast?_ne_of_word hc hcs

/-- **The spelling of a token of a source** is a lexeme that is read as the token, unless
    it is a float. -/
theorem readsBack_of_longest {source : List Char} {l : Lexeme} {t : Token}
    (hl : Longest source l) (ht : l.reading = .token t) (hfloat : ∀ x, t ≠ .float x) :
    t.ReadsBack := by
  have hlexeme := hl.lexeme
  rw [ht] at hlexeme
  generalize hspelled : l.text = text at hlexeme
  cases hlexeme with
  | float | fraction => exact absurd rfl (hfloat _)
  | integer _ _ hn => exact readsBack_int hn
  | word hmem => exact readsBack_of_mem_words hmem
  | name hc hcs =>
    refine readsBack_name hc hcs fun w hw hsame => ?_
    -- otherwise the piece would have been read as the word
    exact Reading.token.inj ((hl.word w hw (hsame.trans hspelled.symm)).symm.trans ht)
  | comment htext => exact readsBack_comment htext
  | str htext => exact readsBack_str htext
  | sign s => exact readsBack_sign s
  | doubleStar => exact readsBack_sign .caret

/-! ## Lines -/

/-- A spelling is read back as a whole. -/
theorem Token.ReadsBack.split_eq {t : Token} (h : t.ReadsBack) :
    split t.text.toList = [⟨t.text.toList, .token t⟩] := by
  have hfront : Front (t.text.toList ++ []) ⟨t.text.toList, .token t⟩ := by
    refine .longest ⟨h.lexeme, by simp, fun text reading _ hprefix => ?_, fun w hw htext => ?_⟩
    · simpa using hprefix.length_le
    · rw [h.word w hw (String.toList_inj.mp htext)]
  have hsplits : Splits (t.text.toList ++ []) [⟨t.text.toList, .token t⟩] :=
    .cons (l := ⟨t.text.toList, .token t⟩) hfront .nil
  rw [List.append_nil] at hsplits
  exact hsplits.eq_split.symm

/-- Spellings one below the other. -/
def lines (ts : List Token) : String := "\n".intercalate (ts.map Token.text)

theorem lines_cons_cons (t u : Token) (ts : List Token) :
    (lines (t :: u :: ts)).toList = t.text.toList ++ '\n' :: (lines (u :: ts)).toList := by
  unfold lines
  rw [List.map_cons, List.map_cons, String.intercalate_cons_cons]
  simp

/-- The tokens and the errors of spellings one below the other. -/
theorem number_split_lines {ts : List Token} (h : ∀ t ∈ ts, t.ReadsBack) (line : Nat) :
    (number line (split (lines ts).toList)).filterMap token? =
        (ts.zipIdx line).map (fun (t, line) => ⟨t, line⟩) ∧
      (number line (split (lines ts).toList)).filterMap error? = [] := by
  induction ts generalizing line with
  | nil => exact ⟨rfl, rfl⟩
  | cons t ts ih =>
    rw [List.forall_mem_cons] at h
    cases ts with
    | nil =>
      have hsplit : split (lines [t]).toList = [⟨t.text.toList, .token t⟩] := by
        rw [← h.1.split_eq]
        simp [lines]
      rw [hsplit]
      exact ⟨rfl, rfl⟩
    | cons u ts =>
      obtain ⟨htokens, herrors⟩ := ih h.2 (line + 1)
      have hnumber : number line (split (lines (t :: u :: ts)).toList) =
          (⟨t.text.toList, .token t⟩, line) :: (newline, line) ::
            number (line + 1) (split (lines (u :: ts)).toList) := by
        rw [lines_cons_cons, split_append_lineBreak _ _ h.1.last, h.1.split_eq]
        rfl
      rw [hnumber]
      constructor
      · rw [List.filterMap_cons_some (f := token?) (b := ⟨t, line⟩) rfl,
          List.filterMap_cons_none rfl, htokens]
        rfl
      · rw [List.filterMap_cons_none rfl, List.filterMap_cons_none rfl, herrors]

/-- Every piece of a source is at the front of what is left of it. -/
theorem exists_front {source : List Char} {pieces : List Lexeme} (h : Splits source pieces) :
    ∀ l ∈ pieces, ∃ rest, Front (l.text ++ rest) l := by
  induction h with
  | nil => simp
  | @cons l rest pieces hfront _ ih => exact List.forall_mem_cons.mpr ⟨⟨rest, hfront⟩, ih⟩

theorem mem_of_mem_number {line : Nat} {ls : List Lexeme} {piece : Lexeme × Nat}
    (h : piece ∈ number line ls) : piece.1 ∈ ls := by
  induction ls generalizing line with
  | nil => cases h
  | cons l ls ih =>
    rcases List.mem_cons.mp h with rfl | h
    · exact List.mem_cons_self
    · exact List.mem_cons_of_mem _ (ih h)

/-- A token of a source is one of its pieces. -/
theorem exists_of_mem_tokenize {source : String} {t : Lexed} (h : t ∈ (tokenize source).1) :
    ∃ l ∈ split source.toList, l.reading = .token t.token := by
  obtain ⟨piece, hpiece, ht⟩ := List.mem_filterMap.mp h
  refine ⟨piece.1, mem_of_mem_number hpiece, ?_⟩
  unfold token? at ht
  split at ht
  · next hreading =>
    cases ht
    exact hreading
  · cases ht

/-- **Tokens are read back from their spelling.** The tokens of a source without floats,
    spelled one below the other, are read as the same tokens, each on its line, and
    without an error. -/
theorem tokenize_lines (source : String)
    (hfloat : ∀ t ∈ (tokenize source).1, ∀ x, t.token ≠ .float x) :
    let ts := (tokenize source).1.map Lexed.token
    tokenize ("\n".intercalate (ts.map Token.text)) =
      ((ts.zipIdx 1).map (fun (t, line) => ⟨t, line⟩), []) := by
  intro ts
  have hts : ∀ t ∈ ts, t.ReadsBack := by
    intro token htoken
    obtain ⟨t, ht, rfl⟩ := List.mem_map.mp htoken
    obtain ⟨l, hl, hreading⟩ := exists_of_mem_tokenize ht
    obtain ⟨rest, hfront⟩ := exists_front (splits_split source.toList) l hl
    generalize l.text ++ rest = source at hfront
    cases hfront with
    | longest hlongest => exact readsBack_of_longest hlongest hreading (hfloat t ht)
    | illegal => cases hreading
  obtain ⟨htokens, herrors⟩ := number_split_lines hts 1
  unfold tokenize
  dsimp only
  rw [← lines, htokens, herrors]

/-- Leading zeros, the two spellings of a power, a name that starts like a keyword, and
    texts with quotes, signs for comments and a carriage return in them. -/
theorem tokenize_lines_of_spellings :
    let source := "007 ** iffy ^ \"# \r\" print # a \"b\""
    (∀ t ∈ (tokenize source).1, ∀ x, t.token ≠ .float x) ∧
      tokenize "7\n^\niffy\n^\n\"# \r\"\nprint\n# a \"b\"" =
        ([⟨.int 7, 1⟩, ⟨.sign .caret, 2⟩, ⟨.name "iffy", 3⟩, ⟨.sign .caret, 4⟩, ⟨.str "# \r", 5⟩,
          ⟨.keyword .print, 6⟩, ⟨.comment " a \"b\"", 7⟩], []) := by
  intro source
  have htokens : (tokenize source).1.map Lexed.token = [.int 7, .sign .caret, .name "iffy",
      .sign .caret, .str "# \r", .keyword .print, .comment " a \"b\""] := by decide +kernel
  have hfloat : ∀ t ∈ (tokenize source).1, ∀ x, t.token ≠ .float x := by
    intro t ht x heq
    have hmem := List.mem_map_of_mem (f := Lexed.token) ht
    rw [htokens, heq] at hmem
    simp at hmem
  have hlines := tokenize_lines source hfloat
  dsimp only at hlines
  rw [htokens] at hlines
  have htext : "\n".intercalate (List.map Token.text [.int 7, .sign .caret, .name "iffy",
      .sign .caret, .str "# \r", .keyword .print, .comment " a \"b\""]) =
      "7\n^\niffy\n^\n\"# \r\"\nprint\n# a \"b\"" := by decide +kernel
  rw [htext] at hlines
  exact ⟨hfloat, hlines⟩

end Scriptlet
