import Scriptlet.Proofs.Lexing
import Scriptlet.Proofs.Lockstep

/-!
# Parsing sources one below the other

A semicolon ends every statement, also one that fails. So if the end of some
tokens is not met inside a statement, then the statements and the errors of
these tokens, a semicolon and further tokens are those of the tokens on either
side of the semicolon.

Results:
* `parse_moveDown`: parsing tokens that are moved down.
* `parse_append`: parsing tokens on both sides of a semicolon.
* `parse_semicolon`: the statements and the errors on both sides, each as if it stood
  alone.
-/

namespace Scriptlet

/-- The statements of the outermost block of a program. -/
def Node.outermost (n : Node) : List Node :=
  match n.form with
  | .program body => body.statements?.getD []
  | _ => []

namespace SourceError.Like

variable {e e' : SourceError} {es es' : List SourceError} {k : Nat}

theorem eq_moveDown (h : e.Like (fun i j => j = i + k) e') : e' = e.moveDown k := by
  cases h with
  | unexpectedToken h => rw [h]; rfl
  | unexpectedEnd h => rw [h]; rfl

theorem eq_map_moveDown (h : List.Forall₂ (SourceError.Like fun i j => j = i + k) es es') :
    es' = es.map (moveDown k) := by
  induction h with
  | nil => rfl
  | cons h _ ih => rw [List.map_cons, h.eq_moveDown, ih]

theorem eq_of_eq (h : List.Forall₂ (SourceError.Like Eq) es es') : es' = es := by
  induction h with
  | nil => rfl
  | cons h _ ih =>
    rw [ih]
    cases h with
    | unexpectedToken h => rw [h]
    | unexpectedEnd h => rw [h]

end SourceError.Like

namespace Parser

section Outermost

variable {tokens : List Lexed} {firstId fuel : Nat} {ns : List Node} {u : State}
  (h : (statements false fuel).run (start tokens firstId) = some (ns, u))

include h

theorem outermost_parse : (parse tokens firstId).tree.outermost = ns := by
  rw [parse_eq_of_run h]
  rfl

theorem errors_parse : (parse tokens firstId).errors = u.errors.toList := by
  rw [parse_eq_of_run h]

end Outermost

/-- A parsed program is a program around its outermost block. -/
theorem tree_parse (tokens : List Lexed) (firstId : Nat) :
    ∃ id id' line, (parse tokens firstId).tree =
      ⟨id, 1, .program ⟨id', line, .block (parse tokens firstId).tree.outermost⟩⟩ := by
  obtain ⟨fuel, ns, u, hrun⟩ := exists_run_statements false (start tokens firstId)
  rw [outermost_parse hrun, parse_eq_of_run hrun]
  exact ⟨_, _, _, rfl⟩

/-- The line on which tokens that are moved down end. -/
theorem endLine_moveDown {tokens : List Lexed} (h : tokens ≠ []) (before : List Lexed)
    (k i j : Nat) :
    (start (before ++ tokens.map (Lexed.moveDown k)) j).endLine = (start tokens i).endLine + k := by
  obtain ⟨last, hlast⟩ : ∃ last, tokens.getLast? = some last :=
    ⟨_, List.getLast?_eq_some_getLast h⟩
  simp [start, List.getLast?_append, List.getLast?_map, hlast, Lexed.moveDown]

/-- Tokens that are moved down, read after others whose end was not met inside a
    statement. -/
theorem statements_moveDown {tokens : List Lexed} {t u : State} {k i fuel : Nat} {ns : List Node}
    (hahead : t.ahead = tokens.map (Lexed.moveDown k))
    (hend : ∀ line, .unexpectedEnd line ∉ t.errors.toList)
    (hline : tokens ≠ [] → t.endLine = (start tokens i).endLine + k)
    (hrun : (statements false fuel).run t = some (ns, u)) :
    List.Forall₂ (Node.Matches fun i j => j = i + k) (parse tokens i).tree.outermost ns ∧
      ∃ es, List.Forall₂ (SourceError.Like fun i j => j = i + k) (parse tokens i).errors es ∧
        u.errors.toList = t.errors.toList ++ es := by
  obtain ⟨fuel₀, ns₀, u₀, hrun₀⟩ := exists_run_statements false (start tokens i)
  rw [outermost_parse hrun₀, errors_parse hrun₀]
  by_cases hempty : tokens = []
  · subst hempty
    obtain ⟨rfl, rfl⟩ := run_statements_of_nil rfl hrun₀
    obtain ⟨rfl, rfl⟩ := run_statements_of_nil hahead hrun
    exact ⟨.nil, [], .nil, (List.append_nil _).symm⟩
  · have hsettled : ∀ line, t.errors.toList.getLast? ≠ some (.unexpectedEnd line) :=
      fun line hlast => hend line (List.mem_of_getLast? hlast)
    let S : Setting :=
      ⟨fun i j => j = i + k, [], t.errors.toList, t.endLine, by simp, hsettled⟩
    have hstart : Beside S (start tokens i) t := by
      refine ⟨⟨t.ahead, ?_, by simp [S]⟩, ⟨[], .nil, by simp [S]⟩, rfl, fun _ => hline hempty⟩
      rw [hahead, start, List.forall₂_map_right_iff, List.forall₂_same]
      exact fun x _ => ⟨rfl, rfl⟩
    obtain ⟨most, hfirst, hsecond⟩ := exists_common_bound hrun₀ hrun
    obtain ⟨ms, t', ms', _, ht, hms, rfl, hmore⟩ :=
      statements_alongside hstart hfirst hsecond fun h => absurd rfl h
    obtain ⟨rfl, rfl⟩ :=
      run_statements_of_nil (ht.nil (ahead_of_run_statements hfirst)) hmore
    rw [List.append_nil]
    exact ⟨hms, ht.errors⟩

/-- **Tokens that are moved down** give the same statements and the same errors,
    moved down as well. -/
theorem parse_moveDown (tokens : List Lexed) (k i j : Nat) :
    List.Forall₂ (Node.Matches fun i j => j = i + k) (parse tokens i).tree.outermost
        (parse (tokens.map (Lexed.moveDown k)) j).tree.outermost ∧
      (parse (tokens.map (Lexed.moveDown k)) j).errors =
        (parse tokens i).errors.map (SourceError.moveDown k) := by
  obtain ⟨fuel, ns, u, hrun⟩ :=
    exists_run_statements false (start (tokens.map (Lexed.moveDown k)) j)
  obtain ⟨hns, es, hes, herrors⟩ :=
    statements_moveDown rfl (by simp [start]) (fun h => endLine_moveDown h [] k i j) hrun
  rw [outermost_parse hrun, errors_parse hrun, herrors, ← SourceError.Like.eq_map_moveDown hes]
  exact ⟨hns, rfl⟩

/-- Parsing finds errors of syntax only. -/
theorem like_of_mem_errors_parse {tokens : List Lexed} {i : Nat} {e : SourceError}
    (h : e ∈ (parse tokens i).errors) : ∃ e', e.Like (fun i j => j = i + 0) e' := by
  obtain ⟨fuel, ns, u, hrun⟩ :=
    exists_run_statements false (start (tokens.map (Lexed.moveDown 0)) i)
  obtain ⟨-, es, hes, -⟩ :=
    statements_moveDown rfl (by simp [start]) (fun h => endLine_moveDown h [] 0 i i) hrun
  generalize (parse tokens i).errors = errors at hes h
  induction hes with
  | nil => cases h
  | cons he _ ih =>
    rcases List.mem_cons.mp h with rfl | h
    · exact ⟨_, he⟩
    · exact ih h

/-- **Tokens on both sides of a semicolon**, those behind it moved down, give the
    statements and the errors of either side. -/
theorem parse_append {as : List Lexed} {x : Lexed} (hx : x.token = .sign .semicolon)
    (bs : List Lexed) (k i j m : Nat) (hend : ∀ line, .unexpectedEnd line ∉ (parse as i).errors) :
    ∃ ms ns, (parse (as ++ x :: bs.map (Lexed.moveDown k)) m).tree.outermost = ms ++ ns ∧
      List.Forall₂ (Node.Matches Eq) (parse as i).tree.outermost ms ∧
      List.Forall₂ (Node.Matches fun i j => j = i + k) (parse bs j).tree.outermost ns ∧
      (parse (as ++ x :: bs.map (Lexed.moveDown k)) m).errors =
        (parse as i).errors ++ (parse bs j).errors.map (SourceError.moveDown k) := by
  generalize hbs : bs.map (Lexed.moveDown k) = bs'
  obtain ⟨_, ns₀, u₀, hrun₀⟩ := exists_run_statements false (start as i)
  obtain ⟨_, ns, u, hrun⟩ := exists_run_statements false (start (as ++ x :: bs') m)
  rw [outermost_parse hrun, errors_parse hrun, outermost_parse hrun₀]
  let S : Setting :=
    ⟨Eq, x :: bs', [], (start (as ++ x :: bs') m).endLine, by rintro _ ⟨⟩; exact hx, by simp⟩
  have hstart : Beside S (start as i) (start (as ++ x :: bs') m) := by
    refine ⟨⟨as, ?_, rfl⟩, ⟨[], .nil, rfl⟩, rfl, nofun⟩
    exact List.forall₂_same.mpr fun x _ => ⟨rfl, rfl⟩
  obtain ⟨_, hfirst, hsecond⟩ := exists_common_bound hrun₀ hrun
  obtain ⟨ms, t, ms', fuel, ht, hms, rfl, hmore⟩ :=
    statements_alongside hstart hfirst hsecond fun _ => errors_parse hrun₀ ▸ hend
  have herrors : t.errors.toList = (parse as i).errors := by
    obtain ⟨es, hes, herrors⟩ := ht.errors
    rw [herrors, errors_parse hrun₀, ← SourceError.Like.eq_of_eq hes]
    rfl
  have hendLine : bs ≠ [] → t.endLine = (start bs j).endLine + k := by
    intro hne
    rw [ht.endLine, ← endLine_moveDown hne (as ++ [x]) k j m, List.append_assoc, hbs]
    rfl
  obtain ⟨fuel, hrest⟩ :=
    exists_of_run_separator (ht.nil (ahead_of_run_statements hfirst)) hx hmore
  obtain ⟨hns, es, hes, hmore⟩ :=
    statements_moveDown (t := { t with ahead := bs' }) hbs.symm (herrors ▸ hend) hendLine hrest
  rw [hmore, herrors, SourceError.Like.eq_map_moveDown hes]
  exact ⟨ms, ms', rfl, hms, hns, rfl⟩

theorem map_moveDown_zero (tokens : List Lexed) : tokens.map (Lexed.moveDown 0) = tokens :=
  List.map_id'' (fun _ => rfl) tokens

/-- **Parsing is local across a semicolon, errors included.** Unless the first tokens
    alone end inside a statement, the tokens on both sides of a semicolon give one block
    with the statements of the first tokens and then those of the second, each on its
    line, and the errors of the first and then those of the second. -/
theorem parse_semicolon (as bs : List Lexed) (line i j m : Nat)
    (hend : ∀ l, .unexpectedEnd l ∉ (parse as i).errors) :
    ∃ id id' line' ms ns,
      (parse (as ++ [⟨.sign .semicolon, line⟩] ++ bs) m).tree =
        ⟨id, 1, .program ⟨id', line', .block (ms ++ ns)⟩⟩ ∧
      List.Forall₂ (Node.Matches Eq) (parse as i).tree.outermost ms ∧
      List.Forall₂ (Node.Matches Eq) (parse bs j).tree.outermost ns ∧
      (parse (as ++ [⟨.sign .semicolon, line⟩] ++ bs) m).errors =
        (parse as i).errors ++ (parse bs j).errors := by
  have hsame : (parse bs j).errors.map (SourceError.moveDown 0) = (parse bs j).errors :=
    List.map_id'' SourceError.moveDown_zero _
  obtain ⟨ms, ns, hblock, hms, hns, herrors⟩ :=
    parse_append (x := ⟨.sign .semicolon, line⟩) rfl bs 0 i j m hend
  rw [map_moveDown_zero] at hblock herrors
  rw [hsame] at herrors
  rw [List.append_assoc, List.singleton_append]
  obtain ⟨id, id', line', htree⟩ := tree_parse (as ++ ⟨.sign .semicolon, line⟩ :: bs) m
  rw [hblock] at htree
  exact ⟨id, id', line', ms, ns, htree, hms, hns.imp fun _ _ h => h.mono fun _ _ => Eq.symm,
    herrors⟩

/-- Errors in the first tokens, one of them inside braces, and a statement that the second
    tokens do not finish. -/
theorem parse_semicolon_of_errors :
    let as := (tokenize "{ ) } x + * 2").1
    let bs := (tokenize "y := 3; z := (").1
    (parse as 0).errors = [.unexpectedToken (.sign .closeParen) 1, .unexpectedToken (.sign .star) 1,
        .unexpectedToken (.sign .star) 1] ∧
      (parse bs 0).errors = [.unexpectedEnd 1] ∧
      ∃ id id' line' ms ns,
        (parse (as ++ [⟨.sign .semicolon, 1⟩] ++ bs) 0).tree =
          ⟨id, 1, .program ⟨id', line', .block (ms ++ ns)⟩⟩ ∧
        List.Forall₂ (Node.Matches Eq) (parse as 0).tree.outermost ms ∧
        List.Forall₂ (Node.Matches Eq) (parse bs 0).tree.outermost ns ∧
        (parse (as ++ [⟨.sign .semicolon, 1⟩] ++ bs) 0).errors =
          (parse as 0).errors ++ (parse bs 0).errors := by
  intro as bs
  have herrors : (parse as 0).errors = [.unexpectedToken (.sign .closeParen) 1,
      .unexpectedToken (.sign .star) 1, .unexpectedToken (.sign .star) 1] := by decide +kernel
  have hend : ∀ l, .unexpectedEnd l ∉ (parse as 0).errors := by simp [herrors]
  exact ⟨herrors, by decide +kernel, parse_semicolon as bs 1 0 0 0 hend⟩

end Parser

end Scriptlet
