import Mathlib.Data.List.Basic
import Scriptlet.Token.Lexeme

/-!
# Sources one below the other

No piece of a source but a line break goes beyond the end of a line: strings and
comments end there, and a carriage return at the end of a line belongs to its
line break. So a source that is written below another one, after a semicolon, is
split as it is split alone, with every line moved down.

Results:
* `tokenize_lineBreaks`: a source below empty lines.
* `tokenize_append`: a source below another one.
-/

namespace Scriptlet

/-- A token some lines further down. -/
def Lexed.moveDown (k : Nat) (t : Lexed) : Lexed := { t with line := t.line + k }

/-- An error some lines further down. -/
def SourceError.moveDown (k : Nat) : SourceError → SourceError
  | illegalCharacter c line => illegalCharacter c (line + k)
  | integerOutOfRange digits line => integerOutOfRange digits (line + k)
  | unexpectedToken token line => unexpectedToken token (line + k)
  | unexpectedEnd line => unexpectedEnd (line + k)

theorem SourceError.moveDown_zero (e : SourceError) : e.moveDown 0 = e := by
  cases e <;> rfl

namespace Lexeme

/-! ## Reading up to a stop -/

section TakeWhile

variable {p : Char → Bool} {rest : List Char} (hp : ∀ d, rest.head? = some d → p d = false)

include hp

theorem takeWhile_append_of_head? (cs : List Char) : (cs ++ rest).takeWhile p = cs.takeWhile p := by
  induction cs with
  | nil =>
    cases rest with
    | nil => rfl
    | cons d ds => simp [hp d rfl]
  | cons c cs ih => simp [List.takeWhile_cons, ih]

theorem dropWhile_append_of_head? (cs : List Char) :
    (cs ++ rest).dropWhile p = cs.dropWhile p ++ rest := by
  induction cs with
  | nil =>
    cases rest with
    | nil => rfl
    | cons d ds => simp [hp d rfl]
  | cons c cs ih =>
    simp only [List.cons_append, List.dropWhile_cons, ih]
    split <;> rfl

end TakeWhile

theorem lineBreak_notMem_takeWhile {p : Char → Bool} (hp : p '\n' = false) (cs : List Char) :
    '\n' ∉ cs.takeWhile p := by
  intro hmem
  have htrue : p '\n' = true := List.all_eq_true.mp List.all_takeWhile _ hmem
  rw [hp] at htrue
  cases htrue

/-- A text that begins with the end of a line or with a comment. Only strings and
    comments go on there. -/
def Stops (rest : List Char) : Prop :=
  ∀ d, rest.head? = some d → d = '\n' ∨ d = '\r' ∨ d = '#'

theorem Stops.head? {p : Char → Bool} {rest : List Char} (h : Stops rest) (hline : p '\n' = false)
    (hreturn : p '\r' = false) (hcomment : p '#' = false) :
    ∀ d, rest.head? = some d → p d = false := by
  intro d hd
  rcases h d hd with rfl | rfl | rfl <;> assumption

theorem stops_nil : Stops [] := fun _ hd => by cases hd

theorem stops_lineBreak (rest : List Char) : Stops ('\n' :: rest) :=
  fun _ hd => .inl (Option.some.inj hd).symm

theorem readNumber_append_of_stops (c : Char) (cs : List Char) {rest : List Char}
    (h : Stops rest) : readNumber c (cs ++ rest) = readNumber c cs := by
  have hdigit := h.head? (p := Char.isDigit) (by decide) (by decide) (by decide)
  unfold readNumber
  rw [takeWhile_append_of_head? hdigit, dropWhile_append_of_head? hdigit]
  cases cs.dropWhile Char.isDigit with
  | nil =>
    cases rest with
    | nil => rfl
    | cons d ds =>
      have hd : d ≠ '.' := by rcases h d rfl with rfl | rfl | rfl <;> decide
      simp [hd]
  | cons d ds =>
    by_cases hd : d = '.'
    · subst hd
      simp only [List.cons_append, takeWhile_append_of_head? hdigit]
    · simp [hd]

/-- A sign is read off the first two characters, and no sign has the end of a line or the
    beginning of a comment as its second one. -/
theorem readSign_append_of_stops (c : Char) (cs : List Char) {rest : List Char}
    (h : Stops rest) : readSign c (cs ++ rest) = readSign c cs := by
  cases cs with
  | nil =>
    cases rest with
    | nil => rfl
    | cons d ds =>
      rcases h d rfl with rfl | rfl | rfl <;> unfold readSign <;> split <;> simp_all
  | cons d ds => unfold readSign; split <;> simp_all

/-- What comes after a stop does not change the piece before it, if the piece is no string
    and no comment. A carriage return at the end of a line belongs to the line break. -/
theorem read_append_of_stops {c : Char} {cs rest : List Char} (h : Stops rest)
    (hreturn : c = '\r' → cs ≠ []) (hstring : c ≠ '"') (hcomment : c ≠ '#') :
    read c (cs ++ rest) = read c cs := by
  have hdigit := h.head? (p := Char.isDigit) (by decide) (by decide) (by decide)
  have hword := h.head? (p := continuesWord) (by decide) (by decide) (by decide)
  have hblank := h.head? (p := isBlank) (by decide) (by decide) (by decide)
  unfold read
  rw [readNumber_append_of_stops c cs h, readSign_append_of_stops c cs h,
    takeWhile_append_of_head? hdigit, takeWhile_append_of_head? hword,
    takeWhile_append_of_head? hblank]
  split
  · rfl
  split
  · rfl
  split
  · rfl
  split
  · rfl
  · exact absurd rfl hcomment
  · exact absurd rfl hstring
  · rfl
  · cases cs with
    | nil => exact absurd rfl (hreturn rfl)
    | cons d ds =>
      by_cases hd : d = '\n'
      · subst hd; rfl
      · simp [hd]
  · rfl

/-- A string ends at its closing quote. Without one there is no string. -/
theorem read_quote (cs : List Char) : read '"' cs =
    match cs.dropWhile inString with
    | '"' :: _ => ((cs.takeWhile inString).length + 1,
        .token (.str (String.ofList (cs.takeWhile inString))))
    | _ => (0, .illegal '"') := rfl

theorem read_hash (cs : List Char) : read '#' cs =
    ((cs.takeWhile inComment).length, .token (.comment (String.ofList (cs.takeWhile inComment)))) :=
  rfl

/-- What follows a line break does not change the piece before it. -/
theorem read_append_lineBreak {c : Char} {cs : List Char} (h : c = '\r' → cs ≠ [])
    (rest : List Char) : read c (cs ++ '\n' :: rest) = read c cs := by
  have hhead {p : Char → Bool} (hp : p '\n' = false) :
      ∀ d, ('\n' :: rest).head? = some d → p d = false := by
    rintro _ ⟨⟩
    exact hp
  by_cases hstring : c = '"'
  · subst hstring
    rw [read_quote, read_quote, takeWhile_append_of_head? (hhead (by decide)),
      dropWhile_append_of_head? (hhead (by decide))]
    cases cs.dropWhile inString with
    | nil => rfl
    | cons d ds =>
      by_cases hd : d = '"'
      · subst hd; rfl
      · simp [hd]
  by_cases hcomment : c = '#'
  · subst hcomment
    rw [read_hash, read_hash, takeWhile_append_of_head? (hhead (by decide))]
  · exact read_append_of_stops (stops_lineBreak rest) h hstring hcomment

/-! ## Lines -/

/-- A piece at the front of `c :: cs` does not go beyond the text, and it holds a
    line break only if it is one. -/
structure Fits (c : Char) (cs : List Char) (piece : Nat × Reading) : Prop where
  length : piece.1 ≤ cs.length
  breaks : (c :: cs.take piece.1).count '\n' = if piece.2 = .lineBreak then 1 else 0

/-- A piece within a line. -/
theorem Fits.of_append (text : List Char) (reading : Reading) {c : Char} {cs rest : List Char}
    (hc : c ≠ '\n') (hcs : cs = text ++ rest) (htext : '\n' ∉ text)
    (hreading : reading ≠ .lineBreak) :
    Fits c cs (text.length, reading) where
  length := by simp [hcs]
  breaks := by simp [hcs, hc, hreading, List.count_eq_zero.mpr htext]

theorem Fits.takeWhile {c : Char} {cs : List Char} {p : Char → Bool} {reading : Reading}
    (hc : c ≠ '\n') (hp : p '\n' = false) (hreading : reading ≠ .lineBreak) :
    Fits c cs ((cs.takeWhile p).length, reading) :=
  .of_append _ _ hc List.takeWhile_append_dropWhile.symm (lineBreak_notMem_takeWhile hp cs) hreading

theorem Fits.single {c : Char} {cs : List Char} {reading : Reading} (hc : c ≠ '\n')
    (hreading : reading ≠ .lineBreak) : Fits c cs (0, reading) :=
  .of_append [] _ hc rfl (by simp) hreading

theorem readInt_ne_lineBreak (digits : List Char) : readInt digits ≠ .lineBreak := by
  unfold readInt
  split <;> simp

theorem fits_readNumber {c : Char} (hc : c ≠ '\n') (cs : List Char) :
    Fits c cs (readNumber c cs) := by
  have hdigit : Char.isDigit '\n' = false := by decide
  unfold readNumber
  dsimp only
  split
  · next rest hrest =>
    split
    · exact .takeWhile hc hdigit (readInt_ne_lineBreak _)
    · have hcs : cs = (cs.takeWhile Char.isDigit ++ '.' :: rest.takeWhile Char.isDigit) ++
          rest.dropWhile Char.isDigit := by
        rw [List.append_assoc, List.cons_append, List.takeWhile_append_dropWhile, ← hrest,
          List.takeWhile_append_dropWhile]
      have hfits := Fits.of_append _ (readFloat (c :: cs.takeWhile Char.isDigit)
        (rest.takeWhile Char.isDigit)) hc hcs
        (by simp [lineBreak_notMem_takeWhile hdigit]) (by simp [readFloat])
      simpa [Nat.add_assoc, Nat.add_comm 1] using hfits
  · rw [if_pos rfl]
    exact .takeWhile hc hdigit (readInt_ne_lineBreak _)

theorem fits_readSign {c : Char} (hc : c ≠ '\n') (cs : List Char) : Fits c cs (readSign c cs) := by
  unfold readSign
  split
  all_goals first
    | exact .single hc (by simp)
    | exact .of_append [_] _ hc rfl (by decide) (by simp)

theorem fits_read (c : Char) (cs : List Char) : Fits c cs (read c cs) := by
  by_cases hc : c = '\n'
  · subst hc
    have hread : read '\n' cs = (0, .lineBreak) := rfl
    rw [hread]
    exact ⟨Nat.zero_le _, rfl⟩
  unfold read
  split
  · exact fits_readNumber hc cs
  split
  · exact .takeWhile hc (by decide) (by simp)
  split
  · exact .takeWhile hc (by decide) (by simp)
  split
  · dsimp only
    split
    · exact .single hc (by simp)
    · exact .takeWhile hc (by decide) (by simp [readFloat])
  · exact .takeWhile hc (by decide) (by simp)
  · split
    · next rest hrest =>
      have hcs : cs = (cs.takeWhile inString ++ ['"']) ++ rest := by
        rw [List.append_assoc, List.singleton_append, ← hrest, List.takeWhile_append_dropWhile]
      have hfits := Fits.of_append _ (.token (.str (String.ofList (cs.takeWhile inString)))) hc hcs
        (by simp [lineBreak_notMem_takeWhile (p := inString) (by decide)]) (by simp)
      simpa using hfits
    · exact .single hc (by simp)
  · exact absurd rfl hc
  · split
    · exact ⟨by simp, by simp⟩
    · exact .single hc (by simp)
  · exact fits_readSign hc cs

/-- Induction over the pieces of a source. -/
theorem split_induction {P : List Char → Prop} (nil : P [])
    (cons : ∀ c cs, P (cs.drop (read c cs).1) → P (c :: cs)) : ∀ source, P source
  | [] => nil
  | c :: cs => cons c cs (split_induction nil cons (cs.drop (read c cs).1))
termination_by source => source.length
decreasing_by exact Nat.lt_succ_of_le (by simp)

/-- How many of some pieces are line breaks. -/
def breaks (ls : List Lexeme) : Nat := ls.countP fun l => l.reading = .lineBreak

theorem breaks_split (source : List Char) : breaks (split source) = source.count '\n' := by
  induction source using split_induction with
  | nil => rfl
  | cons c cs ih =>
    calc breaks (split (c :: cs))
        = breaks (split (cs.drop (read c cs).1)) +
            if (read c cs).2 = .lineBreak then 1 else 0 := by
          rw [split_cons, breaks, List.countP_cons]
          simp [breaks]
      _ = (cs.drop (read c cs).1).count '\n' + (c :: cs.take (read c cs).1).count '\n' := by
          rw [ih, (fits_read c cs).breaks]
      _ = (c :: cs).count '\n' := by
          rw [Nat.add_comm, ← List.count_append, List.cons_append, List.take_append_drop]

theorem number_append (line : Nat) (ls ms : List Lexeme) :
    number line (ls ++ ms) = number line ls ++ number (line + breaks ls) ms := by
  induction ls generalizing line with
  | nil => rfl
  | cons l ls ih =>
    have hbreaks : (if l.reading = .lineBreak then line + 1 else line) + breaks ls =
        line + breaks (l :: ls) := by
      simp only [breaks, List.countP_cons, decide_eq_true_eq]
      split <;> omega
    rw [List.cons_append, number, ih, number, List.cons_append, hbreaks]

theorem number_add (line k : Nat) (ls : List Lexeme) :
    number (line + k) ls = (number line ls).map fun piece => (piece.1, piece.2 + k) := by
  induction ls generalizing line with
  | nil => rfl
  | cons l ls ih =>
    rw [number, number, List.map_cons, ← ih]
    congr 2
    split <;> omega

/-- Moving pieces down moves their tokens down. -/
theorem filterMap_token?_add (k : Nat) (pieces : List (Lexeme × Nat)) :
    (pieces.map fun piece => (piece.1, piece.2 + k)).filterMap token? =
      (pieces.filterMap token?).map (Lexed.moveDown k) := by
  have htoken (piece : Lexeme × Nat) :
      token? (piece.1, piece.2 + k) = (token? piece).map (Lexed.moveDown k) := by
    unfold token?
    split <;> simp_all [Lexed.moveDown]
  rw [List.filterMap_map, List.map_filterMap]
  exact congrArg (List.filterMap · pieces) (funext htoken)

/-- Moving pieces down moves their errors down. -/
theorem filterMap_error?_add (k : Nat) (pieces : List (Lexeme × Nat)) :
    (pieces.map fun piece => (piece.1, piece.2 + k)).filterMap error? =
      (pieces.filterMap error?).map (SourceError.moveDown k) := by
  have herror (piece : Lexeme × Nat) :
      error? (piece.1, piece.2 + k) = (error? piece).map (SourceError.moveDown k) := by
    unfold error?
    split <;> simp_all [SourceError.moveDown]
  rw [List.filterMap_map, List.map_filterMap]
  exact congrArg (List.filterMap · pieces) (funext herror)

/-! ## Two sources -/

/-- The piece that is a line break. -/
def newline : Lexeme := ⟨['\n'], .lineBreak⟩

/-- **A source is split line by line.** Only a carriage return at the end of the
    first text would take the line break with it. -/
theorem split_append_lineBreak (source rest : List Char) (h : source.getLast? ≠ some '\r') :
    split (source ++ '\n' :: rest) = split source ++ newline :: split rest := by
  induction source using split_induction with
  | nil => exact split_cons '\n' rest
  | cons c cs ih =>
    have hread : read c (cs ++ '\n' :: rest) = read c cs := by
      refine read_append_lineBreak ?_ rest
      rintro rfl rfl
      exact h rfl
    have hlength := (fits_read c cs).length
    have hlast : (cs.drop (read c cs).1).getLast? ≠ some '\r' := by
      rw [List.getLast?_drop]
      split
      · simp
      · rw [List.getLast?_cons_of_ne_nil (by rintro rfl; simp at *)] at h
        exact h
    rw [List.cons_append, split_cons, split_cons, hread, List.take_append_of_le_length hlength,
      List.drop_append_of_le_length hlength, ih hlast, List.cons_append]

theorem split_newlines (k : Nat) (cs : List Char) :
    split (List.replicate k '\n' ++ cs) = List.replicate k newline ++ split cs := by
  induction k with
  | zero => rfl
  | succ k ih => exact (split_cons '\n' _).trans (congrArg (newline :: ·) ih)

theorem filterMap_number_newlines {α : Type} {f : Lexeme × Nat → Option α}
    (hf : ∀ line, f (newline, line) = none) (line k : Nat) :
    (number line (List.replicate k newline)).filterMap f = [] := by
  induction k generalizing line with
  | zero => rfl
  | succ k ih => rw [List.replicate_succ, number, List.filterMap_cons_none (hf line), ih]

end Lexeme

open Lexeme

/-- Some line breaks. -/
def lineBreaks (k : Nat) : String := String.ofList (List.replicate k '\n')

/-- A source below empty lines. -/
theorem tokenize_lineBreaks (k : Nat) (source : String) :
    tokenize (lineBreaks k ++ source) =
      ((tokenize source).1.map (Lexed.moveDown k),
        (tokenize source).2.map (SourceError.moveDown k)) := by
  have hsplit : split (lineBreaks k ++ source).toList =
      List.replicate k newline ++ split source.toList := by
    rw [String.toList_append, lineBreaks, String.toList_ofList, split_newlines]
  have hbreaks : breaks (List.replicate k newline) = k := by
    simp [breaks, List.countP_replicate, newline]
  unfold tokenize
  dsimp only
  rw [hsplit, number_append, hbreaks, number_add, List.filterMap_append, List.filterMap_append,
    filterMap_token?_add, filterMap_error?_add, filterMap_number_newlines (fun _ => rfl),
    filterMap_number_newlines (fun _ => rfl), List.nil_append, List.nil_append]

/-- **Two sources, one below the other.** -/
theorem tokenize_append (a b : String) (ha : a.toList.getLast? ≠ some '\r') :
    tokenize (a ++ "\n;" ++ b) =
      ((tokenize a).1 ++ ⟨.sign .semicolon, a.toList.count '\n' + 2⟩ ::
          (tokenize b).1.map (Lexed.moveDown (a.toList.count '\n' + 1)),
        (tokenize a).2 ++ (tokenize b).2.map (SourceError.moveDown (a.toList.count '\n' + 1))) := by
  have hsplit : split (a ++ "\n;" ++ b).toList = split a.toList ++ newline ::
      ⟨[';'], .token (.sign .semicolon)⟩ :: split b.toList := by
    rw [String.toList_append, String.toList_append, List.append_assoc]
    exact split_append_lineBreak a.toList (';' :: b.toList) ha
  have hnumber : number 1 (split (a ++ "\n;" ++ b).toList) = number 1 (split a.toList) ++
      (newline, a.toList.count '\n' + 1) ::
      (⟨[';'], .token (.sign .semicolon)⟩, a.toList.count '\n' + 2) ::
      (number 1 (split b.toList)).map fun piece =>
        (piece.1, piece.2 + (a.toList.count '\n' + 1)) := by
    rw [hsplit, number_append, breaks_split, ← number_add]
    simp [number, newline, Nat.add_comm, ← Nat.add_assoc]
  unfold tokenize
  dsimp only
  rw [hnumber, List.filterMap_append, List.filterMap_append, ← filterMap_token?_add,
    ← filterMap_error?_add]
  rfl

end Scriptlet
