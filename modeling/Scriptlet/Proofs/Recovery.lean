import Scriptlet.Proofs.Consecutive
import Scriptlet.Proofs.Progress

/-!
# Programs with errors

A parsed program holds every token of its source: it is read to the end, whatever is
wrong with it. What it costs to go on after errors is known from `Progress`; here it
is put together for whole programs.

Errors do not tell at which position they were found. To say it, the tokens are read
a second time on lines that are their positions. The two parsers stay in step, so the
positions are the same, and they do not depend on the lines of the tokens.

Results:
* `exists_positions`: the positions of the errors, from left to right.
* `exists_ends`: the end of the tokens is found once.
* `parse_recovers`: the outcome for any list of tokens.
-/

namespace Scriptlet.Parser

/-! ## Whole programs -/

/-- **The bound is not used up.** The outermost block of a program comes to something
    under the bound of the program, and its errors are afforded by its tokens. -/
theorem exists_run_start (tokens : List Lexed) (firstId : Nat) : ∃ ns u,
    (statements false (12 * tokens.length + 11)).run (start tokens firstId) = some (ns, u) ∧
      Affords tokens (start tokens firstId) u :=
  let ⟨ns, u, hrun, haffords⟩ := Progress.all tokens (12 * tokens.length + 11) (.statements false)
    (start tokens firstId) (Nat.le_succ _)
  ⟨ns, u, hrun, haffords⟩

theorem length_errors_parse_le (tokens : List Lexed) (firstId : Nat) :
    (parse tokens firstId).errors.length ≤ tokens.length := by
  obtain ⟨ns, u, hrun, haffords⟩ := exists_run_start tokens firstId
  have hspent := haffords.spent
  have hstart : (start tokens firstId).errors.size = 0 := rfl
  have hahead : (start tokens firstId).ahead = tokens := rfl
  rw [errors_parse hrun, Array.length_toList]
  rw [hahead] at hspent
  omega

/-! ## Positions -/

/-- Tokens on lines that tell where they stand. -/
def numbered (tokens : List Lexed) : List Lexed := tokens.mapIdx fun i t => ⟨t.token, i⟩

/-- A parser that reads numbered tokens, beside one that reads the tokens themselves. -/
def byPosition (tokens : List Lexed) : Setting where
  lines i j := (tokens[i]?.map Lexed.line).getD 1 = j
  behind := []
  before := []
  endLine := (tokens.getLast?.map Lexed.line).getD 1
  separated := nofun
  settled := nofun

section Positions

variable {tokens others : List Lexed} (h : others.map Lexed.token = tokens.map Lexed.token)

include h

theorem token_getElem? (i : Nat) : others[i]?.map Lexed.token = tokens[i]?.map Lexed.token := by
  rw [← List.getElem?_map, h, List.getElem?_map]

theorem beside_numbered (firstId firstId' : Nat) :
    Beside (byPosition others) (start (numbered tokens) firstId) (start others firstId') where
  ahead := by
    have hlength : others.length = tokens.length := by simpa using congrArg List.length h
    refine ⟨others, List.forall₂_iff_get.mpr ⟨?_, fun i hi hi' => ⟨?_, ?_⟩⟩,
      (List.append_nil others).symm⟩
    · simp [start, numbered, hlength]
    · have htoken := token_getElem? h i
      have hi'' : i < tokens.length := by omega
      simpa [start, numbered, hi', hi''] using htoken.symm
    · simp [start, numbered, byPosition, hi']
  errors := ⟨[], .nil, rfl⟩
  endLine := rfl
  ends _ := by
    have hlength : others.length = tokens.length := by simpa using congrArg List.length h
    simp only [start, byPosition, numbered, List.getLast?_mapIdx, Option.map_map]
    cases hlast : tokens.getLast? with
    | none =>
      obtain rfl := List.getLast?_eq_none_iff.mp hlast
      obtain rfl := List.eq_nil_of_length_eq_zero hlength
      rfl
    | some last => simp [List.getLast?_eq_getElem?, hlength]

/-- Errors at numbered tokens tell where the tokens stand. -/
theorem errorAt_of_like {p : Nat} {e : SourceError}
    (he : SourceError.Like (byPosition others).lines (errorAt (numbered tokens) p) e) :
    e = errorAt others p := by
  have hlength : others.length = tokens.length := by simpa using congrArg List.length h
  have hnumbered : (numbered tokens).length = tokens.length := List.length_mapIdx
  by_cases hp : p < tokens.length
  · have hp' : p < others.length := hlength ▸ hp
    have hp'' : p < (numbered tokens).length := hnumbered ▸ hp
    have hposition : (numbered tokens)[p] = ⟨tokens[p].token, p⟩ := by simp [numbered]
    have htoken : others[p].token = tokens[p].token := by
      simpa [hp, hp'] using token_getElem? h p
    rw [errorAt_of_lt hp'', hposition] at he
    rw [errorAt_of_lt hp', htoken]
    cases he with
    | unexpectedToken hline =>
      refine congrArg _ (hline.symm.trans ?_)
      rw [List.getElem?_eq_getElem hp']
      rfl
  · have hends := (beside_numbered h 0 0).ends rfl
    have hp' : others.length ≤ p := by omega
    rw [errorAt_of_le (by omega)] at he
    rw [errorAt_of_le hp']
    cases he with
    | unexpectedEnd hline => exact congrArg _ (hline.symm.trans hends)

end Positions

/-- **Errors are found from left to right.** Where they are found depends on the tokens
    only, not on their lines. -/
theorem exists_positions (tokens : List Lexed) : ∃ positions : List Nat,
    positions.Pairwise (fun p q => p ≤ q ∧ p < tokens.length) ∧
    (∀ p ∈ positions, p ≤ tokens.length) ∧
    ∀ others firstId, others.map Lexed.token = tokens.map Lexed.token →
      (parse others firstId).errors = positions.map (errorAt others) := by
  obtain ⟨ns, u, hrun, haffords⟩ := exists_run_start (numbered tokens) 0
  obtain ⟨positions, herrors, hsorted, hpositions⟩ :=
    (haffords.trail (.start (numbered tokens) 0)).errors
  have hlength : (numbered tokens).length = tokens.length := List.length_mapIdx
  rw [hlength] at hsorted hpositions
  refine ⟨positions, hsorted, fun p hp => Nat.le_of_add_right_le (hpositions p hp), ?_⟩
  intro others firstId h
  obtain ⟨_, ns', u', hrun'⟩ := exists_run_statements false (start others firstId)
  obtain ⟨_, hfirst, hsecond⟩ := exists_common_bound hrun hrun'
  obtain ⟨ms, t, ms', _, ht, -, -, hmore⟩ := statements_alongside (beside_numbered h 0 firstId)
    hfirst hsecond fun hbehind => absurd rfl hbehind
  obtain ⟨-, rfl⟩ := run_statements_of_nil (ht.nil (ahead_of_run_statements hfirst)) hmore
  obtain ⟨errors, hlike, heq⟩ := ht.errors
  have hlike' : List.Forall₂ (SourceError.Like (byPosition others).lines)
      (positions.map (errorAt (numbered tokens))) errors := herrors ▸ hlike
  have hsame : List.Forall₂ (· = ·) (positions.map (errorAt others)) errors :=
    List.forall₂_map_left_iff.mpr
      ((List.forall₂_map_left_iff.mp hlike').imp fun _ _ he => (errorAt_of_like h he).symm)
  rw [List.forall₂_eq_eq_eq] at hsame
  rw [errors_parse hrun', heq, hsame]
  rfl

theorem unexpectedEnd_notMem {tokens : List Lexed} {positions : List Nat}
    (h : ∀ p ∈ positions, p < tokens.length) (line : Nat) :
    .unexpectedEnd line ∉ positions.map (errorAt tokens) := by
  intro hmem
  obtain ⟨p, hp, he⟩ := List.mem_map.mp hmem
  rw [errorAt_of_lt (h p hp)] at he
  cases he

/-- The end is found at most once, at last, and on the line of the last token. -/
theorem exists_ends {tokens : List Lexed} {positions : List Nat}
    (hsorted : positions.Pairwise fun p q => p ≤ q ∧ p < tokens.length)
    (hlength : positions.length ≤ tokens.length) :
    ∃ before ends, positions.map (errorAt tokens) = before ++ ends ∧
      (∀ line, .unexpectedEnd line ∉ before) ∧
      (ends = [] ∨ ∃ t, tokens.getLast? = some t ∧ ends = [.unexpectedEnd t.line]) := by
  by_cases hend : ∃ p ∈ positions, tokens.length ≤ p
  · obtain ⟨p, hmem, hp⟩ := hend
    obtain ⟨before, rfl⟩ := List.getLast?_eq_some_iff.mp (getLast?_eq_of_pairwise hsorted hmem hp)
    have hbefore : ∀ q ∈ before, q < tokens.length := fun q hq =>
      ((List.pairwise_append.mp hsorted).2.2 q hq p (List.mem_singleton_self p)).2
    have hne : tokens ≠ [] := by
      rintro rfl
      simp at hlength
    have hlast := List.getLast?_eq_some_getLast hne
    refine ⟨before.map (errorAt tokens), [errorAt tokens p], List.map_append,
      unexpectedEnd_notMem hbefore, .inr ⟨tokens.getLast hne, hlast, ?_⟩⟩
    rw [errorAt_of_le hp, hlast]
    rfl
  · refine ⟨positions.map (errorAt tokens), [], (List.append_nil _).symm,
      unexpectedEnd_notMem fun p hp => ?_, .inl rfl⟩
    exact Nat.not_le.mp fun hle => hend ⟨p, hp, hle⟩

/-- **Error recovery always progresses.** A bound of `Parser.fuel` is never used up, nor
    is a larger one: the outermost block comes to the same tree, with every token read.
    There are not more errors than tokens, they are found from left to right at positions
    that depend on the tokens only, and the end of the tokens is found at most once, at
    last. -/
theorem parse_recovers (tokens : List Lexed) (firstId : Nat) :
    (∃ body last, (∀ fuel, Parser.fuel tokens ≤ fuel →
        (block false fuel).run (start tokens firstId) = some (body, last)) ∧
      last.ahead = [] ∧ (∃ statements, body.form = .block statements) ∧
      parse tokens firstId =
        ⟨⟨last.nextId, 1, .program body⟩, last.errors.toList, last.nextId + 1⟩) ∧
    (parse tokens firstId).errors.length ≤ tokens.length ∧
    (∃ positions : List Nat, positions.Pairwise (· ≤ ·) ∧ (∀ p ∈ positions, p ≤ tokens.length) ∧
      ∀ others id, others.map Lexed.token = tokens.map Lexed.token →
        (parse others id).errors = positions.map (errorAt others)) ∧
    ∃ before ends, (parse tokens firstId).errors = before ++ ends ∧
      (∀ line, .unexpectedEnd line ∉ before) ∧
      (ends = [] ∨ ∃ t, tokens.getLast? = some t ∧ ends = [.unexpectedEnd t.line]) := by
  obtain ⟨positions, hsorted, hpositions, herrors⟩ := exists_positions tokens
  have hlength := length_errors_parse_le tokens firstId
  refine ⟨?_, hlength, ⟨positions, hsorted.imp And.left, hpositions, herrors⟩, ?_⟩
  · obtain ⟨ns, u, hrun, -⟩ := exists_run_start tokens firstId
    have hblock : (block false (Parser.fuel tokens)).run (start tokens firstId) = _ :=
      run_block hrun
    have hahead : u.ahead = [] := ahead_of_run_statements hrun
    refine ⟨_, _, ?_, ?_, ?_, parse_eq hblock⟩
    · exact fun fuel hfuel => (outcome_mono hfuel (.block false)).run hblock
    · exact hahead
    · exact ⟨ns, rfl⟩
  · rw [herrors tokens firstId rfl] at hlength ⊢
    exact exists_ends hsorted (by simpa using hlength)

-- a stray parenthesis, and one that is not closed
example : (parse [⟨.sign .closeParen, 1⟩, ⟨.pi, 1⟩, ⟨.sign .openParen, 2⟩] 0).errors =
    [.unexpectedToken (.sign .closeParen) 1, .unexpectedEnd 2] := by
  decide +kernel

end Scriptlet.Parser
