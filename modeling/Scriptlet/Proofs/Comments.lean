import Scriptlet.Proofs.InPace
import Scriptlet.Proofs.OptimizedShape
import Scriptlet.Proofs.Sources
import Scriptlet.Proofs.Stripping
import Scriptlet.Proofs.Uncommenting

/-!
# Comments between statements do not change a run

A comment is a token, and the parser takes it for a statement of its own. So a comment
may stand where a statement may begin, and nowhere else: after an operand it ends the
statement, and in parentheses or after `:=` it is read as the statement that is wanted
there. `CommentsApart` says that the comments of a source stand between its statements:
two semicolons in place of a comment are not reported, and no token after a comment goes
on with an operand or a name before it. Two details of the text are left out as well: a carriage
return that a comment parts from its line feed, and a source that ends unexpectedly after
a comment on a later line than its last other token.

A run of such a source and a run without its comments have the same tree but for comments
in blocks, lines of blocks and ids, also after optimisation, and they begin in the same
context, with the same errors.

Results:
* `runs_withoutComments`: the comments of such a source do not change its run.
* `not_runs_withoutComments`: a comment inside a statement changes it.
-/

namespace Scriptlet

open Lexeme Optimize

/-! ## Runs of trees that are the same up to comments -/

theorem isProgram_eliminate {p : Node} (h : p.IsProgram) : (eliminate p).IsProgram := by
  rw [eliminate_eq]
  split
  · exact isProgram_eliminate (isProgram_sweepProgram h)
  · exact isProgram_sweepProgram h
termination_by p.size

namespace Session

theorem isProgram_optimize (s : Session) {p : Node} (h : p.IsProgram) :
    (s.optimize p).1.IsProgram := by
  unfold optimize
  split
  · cases hdrop : s.options.dropDeadCode with
    | true => exact isProgram_eliminate (isProgram_simplify h s.nextId)
    | false => exact isProgram_simplify h s.nextId
  · exact h

/-- Trees that are the same up to comments are so after they were optimised. -/
theorem recommented_optimize {s t : Session} (hoptions : s.options = t.options) {m n : Node}
    (h : m.Recommented n) : (s.optimize m).1.Recommented (t.optimize n).1 := by
  unfold optimize
  rw [hoptions]
  split
  · exact Node.Parallel.Relined.recommented
      (relined_optimize h t.options.dropDeadCode s.nextId t.nextId)
  · exact h

end Session

/-- A program is evaluated as one that is the same up to comments. -/
theorem report_of_recommented {p q : Node} (hp : p.IsProgram) (h : p.Recommented q) {c : Context}
    (hc : c.functions = []) {bound : Nat} {r : Report}
    (hr : ((eval bound p).run c).map Report.ofRun = some r) :
    ((eval bound q).run c).map Report.ofRun = some r := by
  obtain ⟨body, hform, hbody⟩ := hp
  obtain ⟨⟨value, c'⟩, hrun, rfl⟩ := Option.map_eq_some_iff.mp hr
  cases h with
  | block _ _ _ _ => cases hform
  | node pairs _ hchildren =>
    cases pairs with
    | program pair =>
      obtain rfl : pair.1 = body := Form.program.inj hform
      cases bound with
      | zero => cases hrun
      | succ bound =>
        have htied : c.Tied Node.ShapedAlike c :=
          ⟨rfl, by rw [hc]; exact .nil, rfl, rfl, rfl, rfl, rfl, rfl⟩
        have hpair := hchildren pair (by simp [Form.children])
        obtain ⟨d', hrun', hd'⟩ := couples_eval_recommented bound pair.1 pair.2
          ⟨hbody.shaped, hpair⟩ c c value c' htied hrun
        refine Option.map_eq_some_iff.mpr ⟨(value, d'), hrun', ?_⟩
        rw [Report.ofRun, Report.ofRun, hd'.output_eq, hd'.diagnostics_eq]
    | _ => cases hform

/-- Two programs that are the same as a third one up to comments have the same runs. -/
theorem map_ofRun_eq_some_iff {o p q : Node} (ho : o.IsProgram) (hp : p.IsProgram)
    (hq : q.IsProgram) (hop : o.Recommented p) (hoq : o.Recommented q) {c : Context}
    (hc : c.functions = []) (bound : Nat) (r : Report) :
    ((eval bound p).run c).map Report.ofRun = some r ↔
      ((eval bound q).run c).map Report.ofRun = some r :=
  ⟨fun hr => report_of_recommented ho hoq hc (report_of_recommented hp hop.symm hc hr),
    fun hr => report_of_recommented ho hop hc (report_of_recommented hq hoq.symm hc hr)⟩

/-! ## Comments that stand apart -/

/-- The line on which a source ends that has no comments. -/
def lastLine (source : String) : Nat :=
  (((tokenize source).1.filter fun t => !t.token.isComment).getLast?.map Lexed.line).getD 1

/-- The comments of a source stand between its statements. -/
structure CommentsApart (source : String) : Prop where
  /-- none of them parts a carriage return from a line feed -/
  breaks : KeepsBreaks (split source.toList)
  /-- the parser reports no semicolon of those in their places -/
  between : Parser.markFound ∉ (parse (Parser.marked (tokenize source).1) 0).errors
  /-- no token after them goes on with an operand or a name before them -/
  separated : Parser.Separated (tokenize source).1
  /-- if the source ends unexpectedly, it does not do so on the line of a comment -/
  ends : ∀ line, .unexpectedEnd line ∈ (parse (tokenize source).1 0).errors →
    line = lastLine source

namespace CommentsApart

variable {source : String}

/-- A parser that reads the tokens of a source but for the comments that are not kept. -/
def screen (h : CommentsApart source) (keeps : Lexed → Bool)
    (hkeeps : ∀ t, t.token.isComment = false → keeps t = true) : Parser.Screen where
  tokens := (tokenize source).1
  keeps := keeps
  keeps_of_not_isComment := hkeeps
  onLines _ := line_pos_of_mem_tokenize
  separated := h.separated

/-- Where the source ends does not depend on its comments, if it ends unexpectedly. -/
theorem relocate_eq (h : CommentsApart source) {endLine : Nat} {errors : List SourceError}
    (herrors : (parse (tokenize source).1 0).errors = errors.map (SourceError.relocate endLine)) :
    errors.map (SourceError.relocate (lastLine source)) = (parse (tokenize source).1 0).errors := by
  rw [herrors]
  refine List.map_congr_left fun e he => ?_
  cases e with
  | unexpectedEnd line =>
    have hmem : .unexpectedEnd endLine ∈ (parse (tokenize source).1 0).errors := by
      rw [herrors]
      exact List.mem_map.mpr ⟨_, he, rfl⟩
    rw [SourceError.relocate, SourceError.relocate, h.ends endLine hmem]
  | _ => rfl

/-- The tree of the source is the same as one with marks in place of its comments, and so is
    the tree of the source without its comments. The errors of both are the same. -/
theorem exists_recommented (h : CommentsApart source) :
    ∃ marked : Node, marked.IsProgram ∧
      marked.Recommented (parse (tokenize source).1 0).tree ∧
      marked.Recommented (parse (tokenize (withoutComments source)).1 0).tree ∧
      (parse (tokenize (withoutComments source)).1 0).errors =
        (parse (tokenize source).1 0).errors := by
  obtain ⟨hwhole, herrors⟩ := Parser.recommented_parse (h.screen (fun _ => true) fun _ _ => rfl)
    0 0 h.between
  obtain ⟨hrest, herrors'⟩ := Parser.recommented_parse
    (h.screen (fun t => !t.token.isComment) fun _ ht => by rw [ht]; rfl) 0 0 h.between
  have hkept : (h.screen (fun _ => true) fun _ _ => rfl).kept = (tokenize source).1 :=
    List.filter_true _
  rw [hkept] at hwhole herrors
  rw [tokenize_withoutComments h.breaks]
  exact ⟨_, isProgram_parse _ _, hwhole, hrest, herrors'.trans (h.relocate_eq herrors)⟩

end CommentsApart

/-- **Comments between statements do not change a run.** With any options, a source whose
    comments stand apart and the source without its comments have the same runs: they end
    with the same value, the same output and the same diagnostics, or both do not end. -/
theorem runs_withoutComments {source : String} (h : CommentsApart source) (options : Options)
    (r : Report) : Runs options source r ↔ Runs options (withoutComments source) r := by
  obtain ⟨marked, hmarked, hwhole, hrest, herrors⟩ := h.exists_recommented
  have hlexed : (tokenize (withoutComments source)).2 = (tokenize source).2 := by
    rw [tokenize_withoutComments h.breaks]
  -- the errors are the same, and so are the contexts in which the trees are evaluated
  have hcontext : (parsed options (withoutComments source)).2.context =
      (parsed options source).2.context := by
    rw [context_parsed, context_parsed, hlexed, herrors]
  rw [← tree_parsed options] at hwhole hrest
  have hoptions := (options_parsed options source).trans
    (options_parsed options (withoutComments source)).symm
  refine exists_congr fun bound => ?_
  rw [runSource_eq, runSource_eq, hcontext]
  exact map_ofRun_eq_some_iff (Session.isProgram_optimize (parsed options source).2 hmarked)
    (Session.isProgram_optimize _ (shaped_parsed options source))
    (Session.isProgram_optimize _ (shaped_parsed options (withoutComments source)))
    (Session.recommented_optimize rfl hwhole) (Session.recommented_optimize hoptions hrest)
    (functions_parsed options source) bound r

/-- Comments in a block, between a print and an operator that does not go on with it, beside
    a token that is dropped, and at both ends. -/
theorem runs_withoutComments_of_blocks :
    let source := "# head\nx = 2 # two\nif (x > 1) \x7b # in\n  print(f(x)) # p\n- x \x7d" ++
      " # out\n) # drop\nx + 1 #"
    CommentsApart source ∧
      withoutComments source =
        "\nx = 2 \nif (x > 1) \x7b \n  print(f(x)) \n- x \x7d \n) \nx + 1 " ∧
      ∀ options r, Runs options source r ↔ Runs options (withoutComments source) r := by
  intro source
  have herrors : (parse (tokenize source).1 0).errors =
      [.unexpectedToken (.sign .minus) 5, .unexpectedToken (.sign .closeParen) 6] := by
    decide +kernel
  have h : CommentsApart source := {
    breaks := keepsBreaks_of_notMem (by decide +kernel)
    between := by decide +kernel
    separated := by decide +kernel
    ends line hline := by simp [herrors] at hline }
  exact ⟨h, by decide +kernel, runs_withoutComments h⟩

/-- Two sources whose runs end with different diagnostics. -/
theorem not_iff_of_diagnostics_ne {source source' : String} {bound : Nat} {ds ds' : List Diagnostic}
    (h : (runSource {} bound source).map Report.diagnostics = some ds)
    (h' : (runSource {} bound source').map Report.diagnostics = some ds') (hne : ds ≠ ds') :
    ¬ ∀ r, Runs {} source r ↔ Runs {} source' r := by
  intro hsame
  obtain ⟨r, hr, rfl⟩ := Option.map_eq_some_iff.mp h
  obtain ⟨r', hr', rfl⟩ := Option.map_eq_some_iff.mp h'
  exact hne (congrArg Report.diagnostics (((hsame r).mp ⟨bound, hr⟩).unique ⟨bound, hr'⟩))

/-- **Where a comment changes a run**: before what goes on with a statement, inside a
    statement, between a carriage return and a line feed, and at an unexpected end. -/
theorem not_runs_withoutComments :
    (¬ ∀ r, Runs {} "1 # c\n+ 2" r ↔ Runs {} (withoutComments "1 # c\n+ 2") r) ∧
    (¬ ∀ r, Runs {} "x = # c\n2" r ↔ Runs {} (withoutComments "x = # c\n2") r) ∧
    (¬ ∀ r, Runs {} "1 \r# c\n" r ↔ Runs {} (withoutComments "1 \r# c\n") r) ∧
    (¬ ∀ r, Runs {} "\x7b 1\n# c" r ↔ Runs {} (withoutComments "\x7b 1\n# c") r) := by
  refine ⟨?_, ?_, ?_, ?_⟩
  · have hwith : (runSource {} 9 "1 # c\n+ 2").map Report.diagnostics =
        some [.source (.unexpectedToken (.sign .plus) 2)] := by decide +kernel
    have hwithout : (runSource {} 9 (withoutComments "1 # c\n+ 2")).map Report.diagnostics =
        some [] := by decide +kernel
    exact not_iff_of_diagnostics_ne hwith hwithout (by decide)
  · have hwith : (runSource {} 9 "x = # c\n2").map Report.diagnostics =
        some [.runtime (.mismatch (.noValue none)) 1] := by decide +kernel
    have hwithout : (runSource {} 9 (withoutComments "x = # c\n2")).map Report.diagnostics =
        some [] := by decide +kernel
    exact not_iff_of_diagnostics_ne hwith hwithout (by decide)
  · have hwith : (runSource {} 9 "1 \r# c\n").map Report.diagnostics =
        some [.source (.illegalCharacter '\r' 1)] := by decide +kernel
    have hwithout : (runSource {} 9 (withoutComments "1 \r# c\n")).map Report.diagnostics =
        some [] := by decide +kernel
    exact not_iff_of_diagnostics_ne hwith hwithout (by decide)
  · have hwith : (runSource {} 9 "\x7b 1\n# c").map Report.diagnostics =
        some [.source (.unexpectedEnd 2)] := by decide +kernel
    have hwithout : (runSource {} 9 (withoutComments "\x7b 1\n# c")).map Report.diagnostics =
        some [.source (.unexpectedEnd 1)] := by decide +kernel
    exact not_iff_of_diagnostics_ne hwith hwithout (by decide)

end Scriptlet
