import Scriptlet.Proofs.Lexicon
import Scriptlet.Proofs.Separators

/-!
# Sources without their comments

The pieces of a source that are comments may be cut out of it. The pieces that are left
are read as before, although some of them are now followed by something else: where a
comment began, a line ends. Names, numbers and signs end there as well, and a quote that
has no other quote in its line still has none.

There is one exception. A carriage return before a comment is an illegal character, and
without the comment it may become part of a line break.

Results:
* `split_stripped`: the pieces that are left.
* `tokenize_withoutComments`: the tokens that are left are on their old lines, and the
  errors are the same.
-/

namespace Scriptlet

namespace Lexeme

/-- Whether a piece is a comment. -/
def isComment (l : Lexeme) : Bool :=
  match l.reading with
  | .token t => t.isComment
  | _ => false

/-- The pieces of a text that are no comments. -/
def remaining (source : List Char) : List Lexeme := (split source).filter fun l => !l.isComment

/-- A text without its comments. -/
def stripped (source : List Char) : List Char := (remaining source).flatMap text

/-- A carriage return that is an illegal character. -/
def lonelyReturn : Lexeme := ⟨['\r'], .illegal '\r'⟩

/-- No comment stands between a carriage return and a line feed. -/
def KeepsBreaks (ls : List Lexeme) : Prop :=
  ∀ c : Lexeme, c.isComment = true → ¬ [lonelyReturn, c, newline] <:+: ls

theorem keepsBreaks_of_notMem {ls : List Lexeme} (h : lonelyReturn ∉ ls) : KeepsBreaks ls :=
  fun _ _ hwithin => h (hwithin.subset List.mem_cons_self)

/-! ## Piece by piece -/

/-- Comments are told by their first character. -/
theorem eq_hash_of_isComment {c : Char} {cs text : List Char}
    (h : (⟨text, (read c cs).2⟩ : Lexeme).isComment = true) : c = '#' := by
  have hreading : ∃ s, (read c cs).2 = .token (.comment s) := by
    unfold isComment at h
    split at h
    · next t ht =>
      cases t with
      | comment s => exact ⟨s, ht⟩
      | _ => cases h
    · cases h
  obtain ⟨s, hs⟩ := hreading
  rcases (found_read c cs).lexeme with hlexeme | hillegal
  · rw [hs] at hlexeme
    generalize hwhole : c :: cs.take (read c cs).1 = whole at hlexeme
    cases hlexeme with
    | word hmem => exact absurd hmem (by simp [Token.words])
    | comment _ => exact (List.cons.inj hwhole).1
  · rw [hillegal] at hs
    cases hs

section Cons

variable {c : Char} {cs : List Char}

/-- A piece that is no comment is left. -/
theorem remaining_cons (hc : c ≠ '#') : remaining (c :: cs) =
    ⟨c :: cs.take (read c cs).1, (read c cs).2⟩ :: remaining (cs.drop (read c cs).1) := by
  unfold remaining
  rw [split_cons, List.filter_cons_of_pos]
  rw [Bool.not_eq_true']
  exact Bool.eq_false_iff.mpr fun h => hc (eq_hash_of_isComment h)

theorem stripped_cons (hc : c ≠ '#') : stripped (c :: cs) =
    c :: (cs.take (read c cs).1 ++ stripped (cs.drop (read c cs).1)) := by
  unfold stripped
  rw [remaining_cons hc, List.flatMap_cons]
  rfl

/-- A comment goes up to the end of its line. -/
theorem drop_read_hash (cs : List Char) : cs.drop (read '#' cs).1 = cs.dropWhile inComment :=
  (congrArg (List.drop _) List.takeWhile_append_dropWhile.symm).trans List.drop_left

/-- A comment is cut out. -/
theorem remaining_hash : remaining ('#' :: cs) = remaining (cs.dropWhile inComment) := by
  unfold remaining
  rw [split_cons, drop_read_hash, List.filter_cons_of_neg]
  simp [read_hash, isComment, Token.isComment]

theorem stripped_hash : stripped ('#' :: cs) = stripped (cs.dropWhile inComment) := by
  unfold stripped
  rw [remaining_hash]

end Cons

/-- A text that does not begin with a comment begins as before. -/
theorem head?_stripped {cs : List Char} (h : cs.head? ≠ some '#') :
    (stripped cs).head? = cs.head? := by
  cases cs with
  | nil => rfl
  | cons c cs =>
    rw [stripped_cons fun hc => h (by rw [hc]; rfl)]
    rfl

/-- After a comment comes the end of its line. -/
theorem head?_dropWhile_inComment {cs : List Char} {d : Char}
    (h : (cs.dropWhile inComment).head? = some d) : d = '\n' ∨ d = '\r' := by
  have hfalse := List.head?_dropWhile_not inComment cs
  rw [h] at hfalse
  simpa [inComment, or_iff_not_imp_left] using hfalse

theorem stops_stripped_dropWhile (cs : List Char) : Stops (stripped (cs.dropWhile inComment)) := by
  have hne : (cs.dropWhile inComment).head? ≠ some '#' := fun h => by
    rcases head?_dropWhile_inComment h with heq | heq <;> cases heq
  intro d hd
  rw [head?_stripped hne] at hd
  exact (head?_dropWhile_inComment hd).imp_right .inl

/-- A text and what is left of it are the same up to the first comment. -/
theorem exists_front_stripped (source : List Char) : ∃ front rest rest',
    source = front ++ rest ∧ stripped source = front ++ rest' ∧ Stops rest ∧ Stops rest' := by
  induction source using split_induction with
  | nil => exact ⟨[], [], [], rfl, rfl, stops_nil, stops_nil⟩
  | cons c cs ih =>
    by_cases hc : c = '#'
    · subst hc
      refine ⟨[], '#' :: cs, stripped ('#' :: cs), rfl, rfl, ?_, ?_⟩
      · exact fun d hd => .inr (.inr (Option.some.inj hd).symm)
      · rw [stripped_hash]
        exact stops_stripped_dropWhile cs
    · obtain ⟨front, rest, rest', hsource, hstripped, hrest, hrest'⟩ := ih
      refine ⟨c :: (cs.take (read c cs).1 ++ front), rest, rest', ?_, ?_, hrest, hrest'⟩
      · rw [List.cons_append, List.append_assoc, ← hsource, List.take_append_drop]
      · rw [stripped_cons hc, hstripped, List.cons_append, List.append_assoc]

/-! ## Quotes -/

/-- A quote comes before the end of the line. -/
def Closes (cs : List Char) : Prop := (cs.dropWhile inString).head? = some '"'

theorem closes_append (xs ys : List Char) :
    Closes (xs ++ ys) ↔ Closes xs ∨ (∀ x ∈ xs, inString x) ∧ Closes ys := by
  unfold Closes
  induction xs with
  | nil => simp
  | cons x xs ih =>
    rw [List.cons_append, List.dropWhile_cons, List.dropWhile_cons, List.forall_mem_cons]
    by_cases hx : inString x = true
    · rw [if_pos hx, if_pos hx, ih]
      simp [hx]
    · rw [if_neg hx, if_neg hx]
      simp [hx]

/-- Without the end of a line, a text is within a string or has a quote. -/
theorem closes_or_forall {xs : List Char} (h : '\n' ∉ xs) :
    Closes xs ∨ ∀ x ∈ xs, inString x := by
  unfold Closes
  induction xs with
  | nil => exact .inr (List.forall_mem_nil _)
  | cons x xs ih =>
    obtain ⟨hne, hxs⟩ := not_or.mp (List.mem_cons.not.mp h)
    rw [List.dropWhile_cons, List.forall_mem_cons]
    by_cases hx : inString x = true
    · rw [if_pos hx]
      exact (ih hxs).imp_right fun hall => ⟨hx, hall⟩
    · rw [if_neg hx]
      have hquote : x = '"' := by
        by_contra hquote
        exact hx (by simp [inString, hquote, Ne.symm hne])
      exact .inl (by rw [hquote]; rfl)

/-- No quote comes into a line. -/
theorem closes_of_stripped {source : List Char} (h : Closes (stripped source)) :
    Closes source := by
  induction source using split_induction with
  | nil => exact h
  | cons c cs ih =>
    by_cases hc : c = '#'
    · subst hc
      rw [drop_read_hash] at ih
      rw [stripped_hash] at h
      have hline : '\n' ∉ '#' :: cs.takeWhile inComment :=
        List.not_mem_cons_of_ne_of_not_mem (by decide) (lineBreak_notMem_takeWhile (by decide) cs)
      rw [← List.takeWhile_append_dropWhile (p := inComment) (l := cs), ← List.cons_append,
        closes_append]
      exact (closes_or_forall hline).imp_right fun hall => ⟨hall, ih h⟩
    · rw [stripped_cons hc, ← List.cons_append, closes_append] at h
      rw [← List.take_append_drop (read c cs).1 cs, ← List.cons_append, closes_append]
      exact h.imp_right fun hrest => ⟨hrest.1, ih hrest.2⟩

/-! ## What is left is read as before -/

theorem KeepsBreaks.tail {l : Lexeme} {ls : List Lexeme} (h : KeepsBreaks (l :: ls)) :
    KeepsBreaks ls :=
  fun c hc hwithin => h c hc (hwithin.trans (List.suffix_cons l ls).isInfix)

/-- A quote that is illegal stays so. -/
theorem read_quote_stripped (cs : List Char) :
    read '"' (cs.take (read '"' cs).1 ++ stripped (cs.drop (read '"' cs).1)) = read '"' cs := by
  by_cases hcloses : Closes cs
  · obtain ⟨rest, hrest⟩ := List.head?_eq_some_iff.mp hcloses
    have hcs : cs = cs.takeWhile inString ++ '"' :: rest := by
      rw [← hrest, List.takeWhile_append_dropWhile]
    have hstring : ∀ x ∈ cs.takeWhile inString, inString x := fun _ => List.mem_takeWhile_imp
    generalize cs.takeWhile inString = text at hcs hstring
    subst hcs
    have htake : (text ++ '"' :: rest).take (text.length + 1) = text ++ ['"'] := by
      rw [List.append_cons, List.take_left' (by rw [List.length_append]; rfl)]
    rw [read_string rest hstring]
    dsimp only
    rw [htake, List.append_assoc, List.singleton_append, read_string _ hstring]
  · have hillegal {ds : List Char} (h : ¬ Closes ds) : read '"' ds = (0, .illegal '"') := by
      rw [read_quote]
      split
      · next heq => exact absurd (by rw [Closes, heq]; rfl) h
      · rfl
    rw [hillegal hcloses]
    exact hillegal fun h => hcloses (closes_of_stripped h)

/-- A carriage return that is illegal stays so, unless a comment stands between it and a
    line feed. -/
theorem read_return_stripped {cs : List Char} (h : KeepsBreaks (split ('\r' :: cs))) :
    read '\r' (cs.take (read '\r' cs).1 ++ stripped (cs.drop (read '\r' cs).1)) =
      read '\r' cs := by
  by_cases hbreak : cs.head? = some '\n'
  · obtain ⟨rest, rfl⟩ := List.head?_eq_some_iff.mp hbreak
    rfl
  · have hillegal {ds : List Char} (h : ds.head? ≠ some '\n') :
        read '\r' ds = (0, .illegal '\r') := by
      cases ds with
      | nil => rfl
      | cons d ds =>
        have hd : d ≠ '\n' := fun hd => h (by rw [hd]; rfl)
        simp [read, hd, Char.isDigit, startsWord, isBlank]
    rw [split_cons, hillegal hbreak] at h
    rw [hillegal hbreak]
    refine hillegal fun hline => ?_
    rw [List.take_zero, List.nil_append, List.drop_zero] at hline
    by_cases hcomment : cs.head? = some '#'
    · obtain ⟨cs, rfl⟩ := List.head?_eq_some_iff.mp hcomment
      rw [stripped_hash] at hline
      have hne : (cs.dropWhile inComment).head? ≠ some '#' := fun h => by
        rcases head?_dropWhile_inComment h with heq | heq <;> cases heq
      rw [head?_stripped hne] at hline
      obtain ⟨rest, hrest⟩ := List.head?_eq_some_iff.mp hline
      -- the pieces are the carriage return, the comment and a line break
      refine h ⟨'#' :: cs.take (read '#' cs).1, (read '#' cs).2⟩ rfl ?_
      rw [List.drop_zero, split_cons, drop_read_hash, hrest, split_cons]
      exact (List.prefix_append [_, _, _] _).isInfix
    · rw [head?_stripped hcomment] at hline
      exact hbreak hline

/-- **A piece is read as before** when the comments after it are cut out. -/
theorem read_stripped {c : Char} {cs : List Char} (hc : c ≠ '#')
    (h : KeepsBreaks (split (c :: cs))) :
    read c (cs.take (read c cs).1 ++ stripped (cs.drop (read c cs).1)) = read c cs := by
  by_cases hquote : c = '"'
  · subst hquote
    exact read_quote_stripped cs
  by_cases hreturn : c = '\r'
  · subst hreturn
    exact read_return_stripped h
  obtain ⟨front, rest, rest', hcut, hstripped, hrest, hrest'⟩ :=
    exists_front_stripped (cs.drop (read c cs).1)
  have hcs : cs = (cs.take (read c cs).1 ++ front) ++ rest := by
    rw [List.append_assoc, ← hcut, List.take_append_drop]
  rw [hstripped, ← List.append_assoc,
    read_append_of_stops hrest' (fun h => absurd h hreturn) hquote hc]
  conv_rhs => rw [hcs, read_append_of_stops hrest (fun h => absurd h hreturn) hquote hc]

/-- **The pieces that are left** when the comments are cut out. -/
theorem split_stripped {source : List Char} (h : KeepsBreaks (split source)) :
    split (stripped source) = remaining source := by
  induction source using split_induction with
  | nil => rfl
  | cons c cs ih =>
    have htail := (split_cons c cs ▸ h).tail
    by_cases hc : c = '#'
    · subst hc
      rw [drop_read_hash] at ih htail
      rw [stripped_hash, remaining_hash, ih htail]
    · have hlength : (cs.take (read c cs).1).length = (read c cs).1 :=
        List.length_take_of_le (found_read c cs).length
      rw [stripped_cons hc, remaining_cons hc, split_cons, read_stripped hc h,
        List.take_left' hlength, List.drop_left' hlength, ih htail]

/-! ## Tokens -/

/-- The tokens and the errors of the pieces that are left. -/
theorem filterMap_number_filter (line : Nat) (ls : List Lexeme) :
    (number line (ls.filter fun l => !l.isComment)).filterMap token? =
        ((number line ls).filterMap token?).filter (fun t => !t.token.isComment) ∧
      (number line (ls.filter fun l => !l.isComment)).filterMap error? =
        (number line ls).filterMap error? := by
  induction ls generalizing line with
  | nil => exact ⟨rfl, rfl⟩
  | cons l ls ih =>
    obtain ⟨htokens, herrors⟩ := ih (if l.reading = .lineBreak then line + 1 else line)
    obtain ⟨text, reading⟩ := l
    by_cases hcomment : (⟨text, reading⟩ : Lexeme).isComment = true
    · obtain ⟨t, rfl, ht⟩ : ∃ t, reading = .token t ∧ t.isComment = true := by
        cases reading with
        | token t => exact ⟨t, rfl, hcomment⟩
        | _ => cases hcomment
      rw [List.filter_cons_of_neg (by simp [hcomment]), number,
        List.filterMap_cons_some (f := token?) (b := ⟨t, line⟩) rfl,
        List.filter_cons_of_neg (by simp [ht]), List.filterMap_cons_none rfl]
      exact ⟨htokens, herrors⟩
    · rw [List.filter_cons_of_pos (by simp [hcomment]), number, number]
      constructor
      · cases reading with
        | token t =>
          have ht : t.isComment = false := Bool.eq_false_iff.mpr hcomment
          rw [List.filterMap_cons_some (f := token?) (b := ⟨t, line⟩) rfl,
            List.filterMap_cons_some (f := token?) (b := ⟨t, line⟩) rfl,
            List.filter_cons_of_pos (by simp [ht]), htokens]
        | _ =>
          rw [List.filterMap_cons_none rfl, List.filterMap_cons_none rfl, htokens]
      · rw [List.filterMap_cons, List.filterMap_cons, herrors]

theorem le_of_mem_number {line : Nat} {ls : List Lexeme} {piece : Lexeme × Nat}
    (h : piece ∈ number line ls) : line ≤ piece.2 := by
  induction ls generalizing line with
  | nil => cases h
  | cons l ls ih =>
    rcases List.mem_cons.mp h with rfl | h
    · exact Nat.le_refl _
    · exact Nat.le_trans (by split <;> omega) (ih h)

end Lexeme

open Lexeme

/-- A source without its comments. -/
def withoutComments (source : String) : String := String.ofList (stripped source.toList)

/-- **A source without its comments** has the same tokens but for the comments, on the
    same lines, and the same errors. -/
theorem tokenize_withoutComments {source : String} (h : KeepsBreaks (split source.toList)) :
    tokenize (withoutComments source) =
      ((tokenize source).1.filter fun t => !t.token.isComment, (tokenize source).2) := by
  obtain ⟨htokens, herrors⟩ := filterMap_number_filter 1 (split source.toList)
  unfold tokenize withoutComments
  rw [String.toList_ofList, split_stripped h]
  unfold remaining
  dsimp only
  rw [htokens, herrors]

/-- The first line of a source is line 1. -/
theorem line_pos_of_mem_tokenize {source : String} {t : Lexed} (h : t ∈ (tokenize source).1) :
    0 < t.line := by
  obtain ⟨piece, hpiece, ht⟩ := List.mem_filterMap.mp h
  have hline := le_of_mem_number hpiece
  unfold token? at ht
  split at ht
  · cases ht
    exact hline
  · cases ht

end Scriptlet
