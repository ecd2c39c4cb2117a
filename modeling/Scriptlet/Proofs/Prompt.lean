import Scriptlet.Proofs.Bound
import Scriptlet.Proofs.Consecutive
import Scriptlet.Proofs.Faithful
import Scriptlet.Proofs.Lines
import Scriptlet.Proofs.Simplified
import Scriptlet.Session

/-!
# Splitting a program over several runs

Two sources that a session runs one after the other may as well be run at once,
the second one below the first one and behind a semicolon. Splitting, parsing and
simplification treat them one by one, and evaluation goes on where the first one
ended. What changes are ids, and the lines of the second source: its diagnostics
move down with it. Functions that were known before do not move, and neither do
the faults in their bodies.

Results:
* `Session.run_eq_some_iff`: a run evaluates the statements of its source.
* `Session.run_lineBreaks`: a run of a source below empty lines.
* `Session.run_joined`: a run of two sources that are joined by a semicolon.
* `Session.run_append`: one run instead of two.
-/

namespace Scriptlet

open Eval

/-! ## Statements in order -/

theorem sequence_append (ev : Evaluator) (last : Option Value) (ms ns : List Node) :
    Eval.sequence ev last (ms ++ ns) =
      Eval.sequence ev last ms >>= fun value => Eval.sequence ev value ns := by
  induction ms generalizing last with
  | nil => simp [Eval.sequence]
  | cons m ms ih =>
    simp only [List.cons_append, Eval.sequence]
    split
    · exact ih last
    · simp [ih]

/-- The value from before some statements only matters if all of them are
    comments. -/
theorem run_sequence_last {ev : Evaluator} {ns : List Node} {last value : Option Value}
    {c c' : Context} (h : (Eval.sequence ev last ns).run c = some (value, c'))
    (last' : Option Value) :
    (Eval.sequence ev last' ns).run c =
      some (if ns.all Node.isComment then last' else value, c') := by
  induction ns generalizing last last' with
  | nil =>
    obtain ⟨-, rfl⟩ := run_pure_eq_some.mp h
    rfl
  | cons n ns ih =>
    cases hcomment : n.isComment with
    | true =>
      simp only [Eval.sequence, hcomment, if_true, List.all_cons, Bool.true_and] at h ⊢
      exact ih h last'
    | false =>
      simp only [Eval.sequence, hcomment, Bool.false_eq_true, if_false, List.all_cons,
        Bool.false_and] at h ⊢
      exact h

/-- The statements that are evaluated for the statements of a program: themselves,
    or what simplification makes of them. -/
def prepared (optimize : Bool) (id : Nat) (ns : List Node) : List Node :=
  if optimize then ((ns.mapM Optimize.simplify).run id).1.filter fun n => !n.isComment else ns

theorem prepared_append (optimize : Bool) (id : Nat) (ms ns : List Node) :
    ∃ id', prepared optimize id (ms ++ ns) =
      prepared optimize id ms ++ prepared optimize id' ns := by
  unfold prepared
  split
  · refine ⟨((ms.mapM Optimize.simplify).run id).2, ?_⟩
    rw [← List.filter_append, List.mapM_append]
    rfl
  · exact ⟨id, rfl⟩

theorem forall₂_prepared {L : Nat → Nat → Prop} {ms ns : List Node}
    (h : List.Forall₂ (Node.Matches L) ms ns) (optimize : Bool) (i j : Nat) :
    List.Forall₂ (Node.Matches L) (prepared optimize i ms) (prepared optimize j ns) := by
  unfold prepared
  split
  · exact Node.forall₂_filter_isComment (fun _ _ hmn => hmn.isComment_eq)
      (forall₂_mapM (h.imp fun _ _ hmn => hmn.simplify) i j)
  · exact h

theorem Node.Matches.all_isComment_eq {L : Nat → Nat → Prop} {ms ns : List Node}
    (h : List.Forall₂ (Node.Matches L) ms ns) :
    ns.all Node.isComment = ms.all Node.isComment := by
  induction h with
  | nil => rfl
  | cons hmn _ ih => rw [List.all_cons, List.all_cons, hmn.isComment_eq, ih]

theorem all_isComment_prepared (optimize : Bool) (id : Nat) (ns : List Node) :
    (prepared optimize id ns).all Node.isComment = ns.all Node.isComment := by
  unfold prepared
  split
  · rw [List.all_filter]
    simp only [Bool.not_not, Bool.or_self]
    induction ns generalizing id with
    | nil => rfl
    | cons n ns ih =>
      have hn : ((Optimize.simplify n).run id).1.isComment = n.isComment :=
        Optimize.Rewritten.isComment_eq ⟨id, rfl⟩
      simp only [List.mapM_cons, StateT.run_bind, StateT.run_pure]
      exact congrArg₂ (· && ·) hn (ih _)
  · rfl

/-! ## A run as an evaluation of statements -/

/-- A context in which errors of a source are recorded. -/
def Context.withErrors (c : Context) (errors : List SourceError) : Context :=
  { c with diagnostics := c.diagnostics ++ (errors.map Diagnostic.source).toArray }

theorem Context.withErrors_nil (c : Context) : c.withErrors [] = c := by
  simp [withErrors]

theorem foldl_record {c : Context} (h : c.echo = false) (errors : List SourceError) :
    errors.foldl (fun c e => c.record (.source e)) c = c.withErrors errors := by
  induction errors generalizing c with
  | nil => simp [Context.withErrors]
  | cons e errors ih =>
    rw [List.foldl_cons, Context.record_of_silent h]
    refine (ih ?_).trans ?_
    · exact h
    · simp [Context.withErrors]

namespace Session

/-- What parsing a source gives. -/
def parsing (s : Session) (source : String) : Parsed :=
  Scriptlet.parse (Scriptlet.tokenize source).1 s.nextId

/-- What is wrong with a source. -/
def errors (s : Session) (source : String) : List SourceError :=
  (Scriptlet.tokenize source).2 ++ (s.parsing source).errors

/-- The statements that a run of a source evaluates. -/
def statements (s : Session) (source : String) : List Node :=
  prepared s.options.optimize (s.parsing source).nextId (s.parsing source).tree.outermost

variable {s : Session}

theorem parse_of_silent (h : s.context.echo = false) (source : String) :
    s.parse source = ((s.parsing source).tree,
      ⟨s.options, s.context.withErrors (s.errors source), (s.parsing source).nextId⟩) := by
  have hcontext : (s.parsing source).errors.foldl (fun c e => c.record (.source e))
      ((Scriptlet.tokenize source).2.foldl (fun c e => c.record (.source e)) s.context) =
      s.context.withErrors (s.errors source) := by
    rw [← List.foldl_append]
    exact foldl_record h _
  rw [← hcontext]
  rfl

/-- Without dead code elimination, a program is optimised statement by
    statement. -/
theorem optimize_of_keep (h : s.options.dropDeadCode = false) (id id' line : Nat)
    (ns : List Node) :
    ∃ nextId, s.optimize ⟨id, 1, .program ⟨id', line, .block ns⟩⟩ =
      (⟨id, 1, .program ⟨id', line, .block (prepared s.options.optimize s.nextId ns)⟩⟩,
        { s with nextId }) := by
  unfold optimize prepared
  cases s.options.optimize with
  | false => exact ⟨s.nextId, rfl⟩
  | true =>
    refine ⟨((ns.mapM Optimize.simplify).run s.nextId).2, ?_⟩
    rw [h]
    simp only [if_true, Scriptlet.optimize, Bool.false_eq_true, if_false, Optimize.simplify,
      Optimize.simplifyAll_eq_mapM]
    rfl

/-- A run evaluates the statements of its source one after the other. -/
theorem run_eq_some_iff (hkeep : s.options.dropDeadCode = false) (hecho : s.context.echo = false)
    (source : String) :
    ∃ nextId, ∀ n value s', s.run n source = some (value, s') ↔
      ∃ bound c, n = bound + 2 ∧ s' = ⟨s.options, c, nextId⟩ ∧
        (Eval.sequence (eval bound) none (s.statements source)).run
          (s.context.withErrors (s.errors source)) = some (value, c) := by
  obtain ⟨id, id', line, htree⟩ := Parser.tree_parse (Scriptlet.tokenize source).1 s.nextId
  obtain ⟨nextId, hoptimize⟩ := optimize_of_keep
    (s := ⟨s.options, s.context.withErrors (s.errors source), (s.parsing source).nextId⟩) hkeep
    id id' line (s.parsing source).tree.outermost
  refine ⟨nextId, fun n value s' => ?_⟩
  have hrun : s.run n source =
      ((eval n ⟨id, 1, .program ⟨id', line, .block (s.statements source)⟩⟩).run
        (s.context.withErrors (s.errors source))).map fun ended =>
          (ended.1, ⟨s.options, ended.2, nextId⟩) := by
    have hparse : s.parse source = (⟨id, 1, .program ⟨id', line, .block
        (s.parsing source).tree.outermost⟩⟩, _) := (parse_of_silent hecho source).trans
          (congrArg (·, _) htree)
    simp only [run, hparse, hoptimize]
    rfl
  rw [hrun, Option.map_eq_some_iff]
  constructor
  · rintro ⟨⟨value, c⟩, heval, ⟨⟩⟩
    -- The tree and its block take one step each.
    cases n with
    | zero => cases heval
    | succ n =>
      cases n with
      | zero => cases heval
      | succ bound => exact ⟨bound, c, rfl, rfl, heval⟩
  · rintro ⟨bound, c, rfl, rfl, heval⟩
    exact ⟨(value, c), heval, rfl⟩

end Session

/-! ## Lines that move and lines that stay -/

/-- A line on which a node of a tree stands. -/
def Node.HasLine (n : Node) (line : Nat) : Prop := ∃ m ∈ n.preorder, m.line = line

/-- A line on which a node in the body of a function stands. -/
def Context.FunctionLine (c : Context) (line : Nat) : Prop :=
  ∃ f ∈ c.functions, f.body.HasLine line

/-- The lines of one source move down, those of functions known before stay. -/
def Shifts (k : Nat) (own old : Nat → Prop) (i j : Nat) : Prop :=
  own i ∧ j = i + k ∨ old i ∧ j = i

theorem Node.hasLine_of_mem_outermost {n m : Node} {line : Nat} (hm : m ∈ n.outermost)
    (h : m.HasLine line) : n.HasLine line := by
  obtain ⟨id, l, form⟩ := n
  cases form with
  | program body =>
    obtain ⟨id', l', form⟩ := body
    cases form with
    | block ns =>
      obtain ⟨k, hk, rfl⟩ := h
      refine ⟨k, ?_, rfl⟩
      simp only [preorder_eq ⟨id, l, _⟩, preorder_eq ⟨id', l', _⟩, children, Form.children,
        List.flatMap_cons, List.flatMap_nil, List.append_nil]
      exact List.mem_cons_of_mem _ (List.mem_cons_of_mem _ (List.mem_flatMap.mpr ⟨m, hm, hk⟩))
    | _ => cases hm
  | _ => cases hm

/-- Statements that match a program's statements further down. -/
theorem Node.forall₂_shifts {n : Node} {k : Nat} {ns : List Node}
    (h : List.Forall₂ (Node.Matches fun i j => j = i + k) n.outermost ns) (old : Nat → Prop) :
    List.Forall₂ (Node.Matches (Shifts k n.HasLine old)) n.outermost ns := by
  have hlines : ∀ m ∈ n.outermost, ∀ line, m.HasLine line → n.HasLine line :=
    fun m hm line => Node.hasLine_of_mem_outermost hm
  generalize n.outermost = ms at h hlines
  induction h with
  | nil => exact .nil
  | cons hmn _ ih =>
    obtain ⟨hm, hms⟩ := List.forall_mem_cons.mp hlines
    refine .cons (hmn.restrict.mono fun i j => ?_) (ih hms)
    rintro ⟨hij, hline⟩
    exact .inl ⟨hm i hline, hij⟩

/-- Functions that match functions known before. -/
theorem Context.forall₂_shifts {c d : Context}
    (h : FunctionTable.Rel (Definition.Like Eq) c.functions d.functions) (k : Nat)
    (own : Nat → Prop) :
    FunctionTable.Rel (Definition.Like (Shifts k own c.FunctionLine)) c.functions d.functions := by
  have hlines : ∀ f ∈ c.functions, ∀ line, f.body.HasLine line → c.FunctionLine line :=
    fun f hf line h => ⟨f, hf, h⟩
  generalize c.functions = fs at h hlines
  generalize d.functions = gs at h
  induction h with
  | nil => exact .nil
  | cons hfg _ ih =>
    obtain ⟨hf, hfs⟩ := List.forall_mem_cons.mp hlines
    obtain ⟨hkey, hname, hparams, hbody⟩ := hfg
    refine .cons ⟨hkey, hname, hparams, hbody.restrict.mono fun i j => ?_⟩ (ih hfs)
    rintro ⟨rfl, hline⟩
    exact .inr ⟨hf i hline, rfl⟩

/-- Faults on equal lines are equal. -/
theorem Diagnostic.Like.eq_of_eq {ds es : List Diagnostic}
    (h : List.Forall₂ (Diagnostic.Like Eq) ds es) : es = ds := by
  induction h with
  | nil => rfl
  | cons h _ ih =>
    obtain ⟨rfl⟩ := h
    rw [ih]

namespace Context.Like

variable {L M : Nat → Nat → Prop} {before before' : List Diagnostic} {c d : Context}

theorem refl (h : c.echo = false) :
    c.Like Eq c.diagnostics.toList c.diagnostics.toList c where
  scopes_eq := rfl
  functions := .refl fun _ _ => ⟨rfl, rfl, .refl _ fun _ _ => rfl⟩
  maxCallDepth_eq := rfl
  callDepth_eq := rfl
  writer_eq := rfl
  output_eq := rfl
  silent := ⟨h, h⟩
  diagnostics := ⟨[], [], by simp, by simp, .nil⟩

/-- What is recorded so far, and errors of two sources, count as recorded before
    from now on. -/
theorem rebase (h : c.Like L before before' d)
    (hfunctions : FunctionTable.Rel (Definition.Like M) c.functions d.functions)
    (es es' : List SourceError) :
    (c.withErrors es).Like M (c.diagnostics.toList ++ es.map .source)
      (d.diagnostics.toList ++ es'.map .source) (d.withErrors es') :=
  { h with
    functions := hfunctions
    diagnostics := ⟨[], [], by simp [withErrors], by simp [withErrors], .nil⟩ }

end Context.Like

/-! ## Runs -/

namespace Session

variable {s s₁ s₂ : Session}

theorem errors_lineBreaks (s : Session) (k : Nat) (b : String) :
    s.errors (lineBreaks k ++ b) = (s.errors b).map (SourceError.moveDown k) := by
  unfold errors parsing
  rw [tokenize_lineBreaks, (Parser.parse_moveDown _ k s.nextId s.nextId).2, List.map_append]

/-- **A source below empty lines** runs as the source alone, with its lines moved
    down. -/
theorem run_lineBreaks (hkeep : s.options.dropDeadCode = false) (hecho : s.context.echo = false)
    {b : String} {n : Nat} {value : Option Value} (h : s.run n b = some (value, s₁)) (k : Nat) :
    ∃ t, s.run n (lineBreaks k ++ b) = some (value, t) ∧
      s₁.context.Like (Shifts k (s.parsing b).tree.HasLine s.context.FunctionLine)
        (s.context.diagnostics.toList ++ (s.errors b).map .source)
        (s.context.diagnostics.toList ++ ((s.errors b).map (.moveDown k)).map .source)
        t.context := by
  obtain ⟨_, hrun⟩ := run_eq_some_iff hkeep hecho b
  obtain ⟨nextId, hrun'⟩ := run_eq_some_iff hkeep hecho (lineBreaks k ++ b)
  obtain ⟨bound, c, rfl, rfl, hc⟩ := (hrun _ _ _).mp h
  have hstatements : List.Forall₂
      (Node.Matches (Shifts k (s.parsing b).tree.HasLine s.context.FunctionLine))
      (s.statements b) (s.statements (lineBreaks k ++ b)) := by
    refine forall₂_prepared (Node.forall₂_shifts ?_ _) _ _ _
    unfold parsing
    rw [tokenize_lineBreaks]
    exact (Parser.parse_moveDown _ k s.nextId s.nextId).1
  have hstart := (Context.Like.refl hecho).rebase
    (Context.forall₂_shifts (Context.Like.refl hecho).functions k (s.parsing b).tree.HasLine)
    (s.errors b) ((s.errors b).map (.moveDown k))
  obtain ⟨d, hd, hlike⟩ :=
    Retraces.sequence (retraces_eval bound) hstatements none _ _ _ _ hstart hc
  refine ⟨⟨s.options, d, nextId⟩, (hrun' _ _ _).mpr ⟨bound, d, rfl, rfl, ?_⟩, hlike⟩
  rw [errors_lineBreaks]
  exact hd

theorem run_keeps (hkeep : s.options.dropDeadCode = false) (hecho : s.context.echo = false)
    {source : String} {n : Nat} {value : Option Value} (h : s.run n source = some (value, s₁)) :
    s₁.options = s.options ∧ s₁.context.echo = false := by
  obtain ⟨_, -, hlike⟩ := run_lineBreaks hkeep hecho h 0
  obtain ⟨_, hrun⟩ := run_eq_some_iff hkeep hecho source
  obtain ⟨_, _, -, rfl, -⟩ := (hrun _ _ _).mp h
  exact ⟨rfl, hlike.silent.1⟩

/-- The tokens of a source are those of two others, those of the second one some
    lines further down and behind a semicolon. -/
def Joins (k : Nat) (a b joined : String) : Prop :=
  ∃ x : Lexed, x.token = .sign .semicolon ∧ Scriptlet.tokenize joined =
    ((Scriptlet.tokenize a).1 ++ x :: (Scriptlet.tokenize b).1.map (.moveDown k),
      (Scriptlet.tokenize a).2 ++ (Scriptlet.tokenize b).2.map (.moveDown k))

section Joined

variable {a b joined : String} {k : Nat} (hjoins : Joins k a b joined)
  (hend : ∀ line, .unexpectedEnd line ∉ (s.parsing a).errors)

include hjoins hend

/-- What is wrong with two sources that are joined. -/
theorem errors_joined (s₁ : Session) :
    s.errors joined = (Scriptlet.tokenize a).2 ++ (Scriptlet.tokenize b).2.map (.moveDown k) ++
      ((s.parsing a).errors ++ (s₁.parsing b).errors.map (.moveDown k)) := by
  obtain ⟨x, hx, htokens⟩ := hjoins
  obtain ⟨-, -, -, -, -, herrors⟩ := Parser.parse_append hx (Scriptlet.tokenize b).1 k
    s.nextId s₁.nextId s.nextId hend
  unfold errors parsing
  rw [htokens, herrors]

/-- The statements of two sources that are joined. -/
theorem statements_joined (s₁ : Session) (hoptions : s₁.options = s.options) (old : Nat → Prop) :
    ∃ ms ns, s.statements joined = ms ++ ns ∧
      List.Forall₂ (Node.Matches Eq) (s.statements a) ms ∧
      List.Forall₂ (Node.Matches (Shifts k (s₁.parsing b).tree.HasLine old)) (s₁.statements b)
        ns := by
  obtain ⟨x, hx, htokens⟩ := hjoins
  obtain ⟨ms, ns, hjoined, hms, hns, -⟩ := Parser.parse_append hx (Scriptlet.tokenize b).1 k
    s.nextId s₁.nextId s.nextId hend
  have hstatements : s.statements joined =
      prepared s.options.optimize (s.parsing joined).nextId (ms ++ ns) := by
    rw [statements, ← hjoined]
    unfold parsing
    rw [htokens]
  obtain ⟨id, hprepared⟩ := prepared_append s.options.optimize (s.parsing joined).nextId ms ns
  refine ⟨_, _, hstatements.trans hprepared, forall₂_prepared hms _ _ _, ?_⟩
  rw [statements, hoptions]
  exact forall₂_prepared (Node.forall₂_shifts hns old) _ _ _

/-- **Two sources that are joined** run as one after the other. The faults are
    those of the first source. -/
theorem run_joined (hkeep : s.options.dropDeadCode = false) (hecho : s.context.echo = false)
    {n₁ n₂ : Nat} {va vb : Option Value} (ha : s.run n₁ a = some (va, s₁))
    (hb : s₁.run n₂ b = some (vb, s₂)) :
    ∃ t faults, s.run (max n₁ n₂) joined =
        some (if (s₁.parsing b).tree.outermost.all Node.isComment then va else vb, t) ∧
      List.Forall₂ (Diagnostic.Like Eq) faults faults ∧
      s₁.context.diagnostics.toList =
        s.context.diagnostics.toList ++ (s.errors a).map .source ++ faults ∧
      s₂.context.Like (Shifts k (s₁.parsing b).tree.HasLine s₁.context.FunctionLine)
        (s₁.context.diagnostics.toList ++ (s₁.errors b).map .source)
        (s.context.diagnostics.toList ++ (s.errors joined).map .source ++ faults) t.context := by
  obtain ⟨id₁, hrun₁⟩ := run_eq_some_iff hkeep hecho a
  obtain ⟨bound₁, c₁, rfl, rfl, hc₁⟩ := (hrun₁ _ _ _).mp ha
  obtain ⟨ms, ns, hjoined, hms, hns⟩ :=
    statements_joined hjoins hend ⟨s.options, c₁, id₁⟩ rfl c₁.FunctionLine
  -- The first source; all errors of both sources are recorded already.
  have hstart := (Context.Like.refl hecho).rebase (Context.Like.refl hecho).functions
    (s.errors a) (s.errors joined)
  obtain ⟨d₁, hd₁, hlike₁⟩ :=
    Retraces.sequence (retraces_eval bound₁) hms none _ _ _ _ hstart hc₁
  obtain ⟨_, faults, hdiagnostics₁, hdiagnostics, hfaults⟩ := hlike₁.diagnostics
  obtain rfl := Diagnostic.Like.eq_of_eq hfaults
  -- The second source goes on where the first one ended.
  obtain ⟨id₂, hrun₂⟩ := run_eq_some_iff (s := ⟨s.options, c₁, id₁⟩) hkeep hlike₁.silent.1 b
  obtain ⟨bound₂, c₂, rfl, rfl, hc₂⟩ := (hrun₂ _ _ _).mp hb
  have hstart₂ := hlike₁.rebase
    (Context.forall₂_shifts hlike₁.functions k (parsing ⟨s.options, c₁, id₁⟩ b).tree.HasLine)
    (errors ⟨s.options, c₁, id₁⟩ b) []
  obtain ⟨d₂, hd₂, hlike₂⟩ :=
    Retraces.sequence (retraces_eval bound₂) hns none _ _ _ _ hstart₂ hc₂
  rw [Context.withErrors_nil] at hd₂
  rw [List.map_nil, List.append_nil, hdiagnostics] at hlike₂
  obtain ⟨id, hrun⟩ := run_eq_some_iff hkeep hecho joined
  refine ⟨⟨s.options, d₂, id⟩, faults, (hrun _ _ _).mpr ⟨max bound₁ bound₂, d₂, by omega, rfl, ?_⟩,
    hfaults, hdiagnostics₁, hlike₂⟩
  rw [hjoined, sequence_append]
  have hcomments : ns.all Node.isComment =
      (parsing ⟨s.options, c₁, id₁⟩ b).tree.outermost.all Node.isComment := by
    rw [Node.Matches.all_isComment_eq hns, statements, all_isComment_prepared]
  rw [← hcomments]
  have hd₁' := Extends.sequence (eval_mono (Nat.le_max_left bound₁ bound₂)) ms none _ _ hd₁
  have hd₂' := Extends.sequence (eval_mono (Nat.le_max_right bound₁ bound₂)) ns none _ _ hd₂
  exact run_bind_eq_some.mpr ⟨va, d₁, hd₁', run_sequence_last hd₂' va⟩

end Joined

theorem joins_append (a b : String) (h : a.toList.getLast? ≠ some '\r') :
    Joins (a.toList.count '\n' + 1) a b (a ++ "\n;" ++ b) :=
  ⟨⟨.sign .semicolon, _⟩, rfl, tokenize_append a b h⟩

theorem joins_append_lineBreaks (a b : String) (h : a.toList.getLast? ≠ some '\r') :
    Joins 0 a (lineBreaks (a.toList.count '\n' + 1) ++ b) (a ++ "\n;" ++ b) := by
  refine ⟨⟨.sign .semicolon, a.toList.count '\n' + 2⟩, rfl, (tokenize_append a b h).trans ?_⟩
  rw [tokenize_lineBreaks]
  simp [Lexed.moveDown, SourceError.moveDown_zero]

end Session

/-! ## Diagnostics -/

/-- The part of a run in which a failure was found. -/
inductive Stage where
  | lexing
  | parsing
  | running
  deriving DecidableEq

/-- The part of a run in which a diagnostic was recorded. -/
def Diagnostic.stage : Diagnostic → Stage
  | source (.illegalCharacter _ _) => .lexing
  | source (.integerOutOfRange _ _) => .lexing
  | source (.unexpectedToken _ _) => .parsing
  | source (.unexpectedEnd _) => .parsing
  | runtime _ _ => .running

/-- A diagnostic some lines further down. -/
def Diagnostic.moveDown (k : Nat) : Diagnostic → Diagnostic
  | source e => source (e.moveDown k)
  | runtime fault line => runtime fault (line + k)

/-- How the diagnostics of a source differ that is run some lines further down:
    those about the source move down with it, and faults in the bodies of functions
    known before stay where they are. -/
inductive Diagnostic.Moves (k : Nat) (own old : Nat → Prop) : Diagnostic → Diagnostic → Prop
  | moved {d : Diagnostic} : (d.stage = .running → own d.line) → Moves k own old d (d.moveDown k)
  | kept {d : Diagnostic} : d.stage = .running → old d.line → Moves k own old d d

theorem stage_of_mem_tokenize {source : String} {e : SourceError}
    (h : e ∈ (tokenize source).2) : (Diagnostic.source e).stage = .lexing := by
  obtain ⟨piece, -, hpiece⟩ := List.mem_filterMap.mp h
  unfold Lexeme.error? at hpiece
  split at hpiece
  · cases hpiece
    rfl
  · cases hpiece
    rfl
  · cases hpiece

theorem stage_of_mem_parse {tokens : List Lexed} {i : Nat} {e : SourceError}
    (h : e ∈ (parse tokens i).errors) : (Diagnostic.source e).stage = .parsing := by
  obtain ⟨_, hlike⟩ := Parser.like_of_mem_errors_parse h
  cases hlike <;> rfl

theorem stage_source_ne_running (e : SourceError) : (Diagnostic.source e).stage ≠ .running := by
  cases e <;> simp [Diagnostic.stage]

theorem stage_moveDown (k : Nat) (d : Diagnostic) : (d.moveDown k).stage = d.stage := by
  cases d with
  | source e => cases e <;> rfl
  | runtime fault line => rfl

theorem stage_of_mem_append {es es' : List SourceError} {stage : Stage}
    (h : ∀ e ∈ es, (Diagnostic.source e).stage = stage)
    (h' : ∀ e ∈ es', (Diagnostic.source e).stage = stage) (k : Nat) :
    ∀ d ∈ es.map Diagnostic.source ++ (es'.map (SourceError.moveDown k)).map Diagnostic.source,
      d.stage = stage := by
  rw [List.forall_mem_append, List.map_map, List.forall_mem_map, List.forall_mem_map]
  exact ⟨h, fun e he => (stage_moveDown k (.source e)).trans (h' e he)⟩

theorem filter_eq_nil_of_stage {ds : List Diagnostic} {stage stage' : Stage}
    (h : ∀ d ∈ ds, d.stage = stage) (hne : stage ≠ stage') :
    (ds.filter fun d => d.stage = stage') = [] := by
  refine List.filter_eq_nil_iff.mpr fun d hd => ?_
  rw [h d hd]
  simpa using hne

theorem Diagnostic.Like.moves {k : Nat} {own old : Nat → Prop} {d e : Diagnostic}
    (h : d.Like (Shifts k own old) e) : d.Moves k own old e := by
  obtain ⟨⟨hown, rfl⟩ | ⟨hold, rfl⟩⟩ := h
  · exact .moved fun _ => hown
  · exact .kept rfl hold

theorem Diagnostic.Like.eq_of_shifts_zero {own old : Nat → Prop} {ds es : List Diagnostic}
    (h : List.Forall₂ (Diagnostic.Like (Shifts 0 own old)) ds es) : es = ds := by
  refine eq_of_eq (h.imp fun d e hde => ?_)
  obtain ⟨⟨-, rfl⟩ | ⟨-, rfl⟩⟩ := hde
  · exact .runtime rfl
  · exact .runtime rfl

/-- The errors of two sources may be recorded all at once or source by source, if
    the stages are looked at one by one. -/
theorem filter_stage_joined {lexed lexed' parsed parsed' faults : List Diagnostic}
    (hlexed : ∀ d ∈ lexed ++ lexed', d.stage = .lexing)
    (hparsed : ∀ d ∈ parsed ++ parsed', d.stage = .parsing)
    (hfaults : ∀ d ∈ faults, d.stage = .running) (before after : List Diagnostic) (stage : Stage) :
    ((before ++ (lexed ++ lexed' ++ (parsed ++ parsed')) ++ faults ++ after).filter fun d =>
        d.stage = stage) =
      (before ++ (lexed ++ parsed) ++ faults ++ (lexed' ++ parsed' ++ after)).filter fun d =>
        d.stage = stage := by
  rw [List.forall_mem_append] at hlexed hparsed
  simp only [List.filter_append]
  cases stage with
  | lexing =>
    rw [filter_eq_nil_of_stage hparsed.1 (by simp), filter_eq_nil_of_stage hparsed.2 (by simp),
      filter_eq_nil_of_stage hfaults (by simp)]
    simp
  | parsing =>
    rw [filter_eq_nil_of_stage hlexed.1 (by simp), filter_eq_nil_of_stage hlexed.2 (by simp),
      filter_eq_nil_of_stage hfaults (by simp)]
    simp
  | running =>
    rw [filter_eq_nil_of_stage hlexed.1 (by simp), filter_eq_nil_of_stage hlexed.2 (by simp),
      filter_eq_nil_of_stage hparsed.1 (by simp), filter_eq_nil_of_stage hparsed.2 (by simp)]
    simp

/-! ## Splitting a program -/

namespace Session

/-- **Two runs or one.** If a session without dead code elimination and without
    echo runs `a` and then `b`, then it may as well run `b` below `a`, behind a
    semicolon: with the same output, variables and functions, and, stage by stage,
    with the same diagnostics, each of `b` moved down unless it is a fault in the
    body of a function that was known before `b`. Which of them move is what `b`
    itself reports if it is run on the lines where it stands below `a`. -/
theorem run_append {s s₁ s₂ : Session} {a b : String} {n₁ n₂ : Nat}
    {va vb : Option Value} (hkeep : s.options.dropDeadCode = false)
    (hecho : s.context.echo = false) (hreturn : a.toList.getLast? ≠ some '\r')
    (hend : ∀ line, .unexpectedEnd line ∉ (s.parsing a).errors)
    (ha : s.run n₁ a = some (va, s₁)) (hb : s₁.run n₂ b = some (vb, s₂)) :
    let k := a.toList.count '\n' + 1
    ∃ t lowered added moved,
      s.run (max n₁ n₂) (a ++ "\n;" ++ b) =
        some (if (s₁.parsing b).tree.outermost.all Node.isComment then va else vb, t) ∧
      t.context.output = s₂.context.output ∧ t.context.scopes = s₂.context.scopes ∧
      FunctionTable.Rel (Definition.Like fun _ _ => True) s₂.context.functions
        t.context.functions ∧
      s₂.context.diagnostics.toList = s₁.context.diagnostics.toList ++ added ∧
      s₁.run n₂ (lineBreaks k ++ b) = some (vb, lowered) ∧
      lowered.context.diagnostics.toList = s₁.context.diagnostics.toList ++ moved ∧
      List.Forall₂
        (Diagnostic.Moves k (s₁.parsing b).tree.HasLine s₁.context.FunctionLine) added moved ∧
      ∀ stage, (t.context.diagnostics.toList.filter fun d => d.stage = stage) =
        (s₁.context.diagnostics.toList ++ moved).filter fun d => d.stage = stage := by
  intro k
  obtain ⟨hoptions₁, hecho₁⟩ := run_keeps hkeep hecho ha
  -- The joined sources against the two sources,
  obtain ⟨t, faults, hrun, hfaults, hs₁, hlike⟩ :=
    run_joined (joins_append a b hreturn) hend hkeep hecho ha hb
  -- and against the two sources with the second one at the place where it stands in them.
  obtain ⟨lowered, hlowered, -⟩ := run_lineBreaks (hoptions₁ ▸ hkeep) hecho₁ hb k
  obtain ⟨t', faults', hrun', -, hs₁', hlike'⟩ :=
    run_joined (joins_append_lineBreaks a b hreturn) hend hkeep hecho ha hlowered
  obtain rfl : t = t' := congrArg Prod.snd (Option.some.inj (hrun.symm.trans hrun'))
  obtain rfl : faults = faults' := List.append_cancel_left (hs₁.symm.trans hs₁')
  obtain ⟨ds, es, hds, hes, hmoves⟩ := hlike.diagnostics
  obtain ⟨_, es', hds', hes', hsame⟩ := hlike'.diagnostics
  obtain rfl : es = es' := List.append_cancel_left (hes.symm.trans hes')
  obtain rfl := Diagnostic.Like.eq_of_shifts_zero hsame
  rw [errors_lineBreaks] at hds'
  refine ⟨t, lowered, (s₁.errors b).map .source ++ ds,
    ((s₁.errors b).map (.moveDown k)).map .source ++ es, hrun, hlike.output_eq, hlike.scopes_eq,
    ?_, ?_, hlowered, ?_, ?_, ?_⟩
  · exact hlike.functions.imp fun f g h =>
      ⟨h.name_eq, h.params_eq, h.body.mono fun _ _ _ => trivial⟩
  · rw [hds, List.append_assoc]
  · rw [hds', List.append_assoc]
  · refine List.rel_append ?_ (hmoves.imp fun d e h => h.moves)
    rw [List.map_map, List.forall₂_map_left_iff, List.forall₂_map_right_iff, List.forall₂_same]
    exact fun e _ => .moved (d := .source e) fun h => absurd h (stage_source_ne_running e)
  · intro stage
    rw [hes, hs₁, errors_joined (joins_append a b hreturn) hend s₁]
    simp only [errors, List.map_append]
    refine filter_stage_joined ?_ ?_ ?_ _ _ stage
    · exact stage_of_mem_append (fun _ => stage_of_mem_tokenize) (fun _ => stage_of_mem_tokenize) k
    · exact stage_of_mem_append (fun _ => stage_of_mem_parse) (fun _ => stage_of_mem_parse) k
    · intro d hd
      obtain ⟨_⟩ := List.forall₂_same.mp hfaults d hd
      rfl

/-- A call of a function from the first source and a fault of the second one, both
    reported on line 1 by the second run: the fault in the function stays there, and the
    other one moves. -/
theorem run_append_of_call :
    let s := start { dropDeadCode := false } true
    let a := "function f() = { y }; x := 1; )\nx = 1"
    let b := "print(x + 1); f(); z"
    ∃ s₁ s₂ t, s.run 9 a = some (none, s₁) ∧ s₁.run 9 b = some (none, s₂) ∧
      s.run 9 (a ++ "\n;" ++ b) = some (none, t) ∧ s₂.context.output = #[.printed "2"] ∧
      t.context.output = s₂.context.output ∧
      (s₂.context.diagnostics.toList.filter fun d => d.stage = .running) =
        [.runtime (.undeclared "y") 1, .runtime (.undeclared "z") 1] ∧
      (t.context.diagnostics.toList.filter fun d => d.stage = .running) =
        [.runtime (.undeclared "y") 1, .runtime (.undeclared "z") 3] := by
  intro s a b
  have hends : (s.run 9 a).bind (fun r₁ => (r₁.2.run 9 b).bind fun r₂ =>
      (r₁.2.run 9 (lineBreaks (a.toList.count '\n' + 1) ++ b)).map fun r =>
        (r₁.1, r₂.1, r₂.2.context.output,
          r₂.2.context.diagnostics.toList.filter fun d => d.stage = .running,
          r.2.context.diagnostics.toList.filter fun d => d.stage = .running)) =
      some (none, none, #[.printed "2"],
        [.runtime (.undeclared "y") 1, .runtime (.undeclared "z") 1],
        [.runtime (.undeclared "y") 1, .runtime (.undeclared "z") 3]) := by decide +kernel
  have hend : (s.parsing a).errors = [.unexpectedToken (.sign .closeParen) 1] := by decide +kernel
  obtain ⟨⟨va, s₁⟩, ha, hends⟩ := Option.bind_eq_some_iff.mp hends
  obtain ⟨⟨vb, s₂⟩, hb, hends⟩ := Option.bind_eq_some_iff.mp hends
  obtain ⟨⟨vl, lowered'⟩, hlowered', hends⟩ := Option.map_eq_some_iff.mp hends
  simp only [Prod.mk.injEq] at hends
  obtain ⟨rfl, rfl, houtput, hfaults, hfaults'⟩ := hends
  obtain ⟨t, lowered, added, moved, hrun, hsame, -, -, -, hlowered, hmoved, -, hstages⟩ :=
    run_append rfl rfl (by decide) (by simp [hend]) ha hb
  rw [ite_self] at hrun
  obtain ⟨-, rfl⟩ := Prod.mk.inj (Option.some.inj (hlowered.symm.trans hlowered'))
  refine ⟨s₁, s₂, t, ha, hb, hrun, houtput, hsame, hfaults, ?_⟩
  rw [hstages, ← hmoved, hfaults']

/-- A run has one result at most. -/
theorem run_unique {s : Session} {source : String} {n n' : Nat}
    {r r' : Option Value × Session} (h : s.run n source = some r)
    (h' : s.run n' source = some r') : r = r' := by
  obtain ⟨⟨value, c⟩, hc, rfl⟩ := Option.map_eq_some_iff.mp h
  obtain ⟨⟨value', c'⟩, hc', rfl⟩ := Option.map_eq_some_iff.mp h'
  obtain ⟨rfl, rfl⟩ := Evaluates.unique ⟨n, hc⟩ ⟨n', hc'⟩
  rfl

/-- **A fault in a function from before stays**: the body of `f` is not part of the
    second source, and does not move with it. -/
theorem not_moveDown_of_call :
    let s := start { dropDeadCode := false } true
    let a := "function f() = { x + 1 }"
    let b := "f()"
    ∃ s₁ s₂ added, a.toList.getLast? ≠ some '\r' ∧
      (∀ line, .unexpectedEnd line ∉ (s.parsing a).errors) ∧
      s.run 9 a = some (none, s₁) ∧ s₁.run 9 b = some (none, s₂) ∧
      s₂.context.diagnostics.toList = s₁.context.diagnostics.toList ++ added ∧
      ¬ ∃ bound value t, s.run bound (a ++ "\n;" ++ b) = some (value, t) ∧
        ∀ stage, (t.context.diagnostics.toList.filter fun d => d.stage = stage) =
          (s₁.context.diagnostics.toList ++
            added.map (Diagnostic.moveDown (a.toList.count '\n' + 1))).filter fun d =>
              d.stage = stage := by
  intro s a b
  have hends : (s.run 9 a).bind (fun r₁ => (r₁.2.run 9 b).map fun r₂ =>
      (r₁.1, r₂.1, r₁.2.context.diagnostics.toList, r₂.2.context.diagnostics.toList)) =
      some (none, none, [], [.runtime (.undeclared "x") 1]) := by decide +kernel
  have hjoined : (s.run 9 (a ++ "\n;" ++ b)).map (fun r => r.2.context.diagnostics.toList) =
      some [.runtime (.undeclared "x") 1] := by decide +kernel
  have hend : (s.parsing a).errors = [] := by decide +kernel
  obtain ⟨⟨va, s₁⟩, ha, hends⟩ := Option.bind_eq_some_iff.mp hends
  obtain ⟨⟨vb, s₂⟩, hb, hends⟩ := Option.map_eq_some_iff.mp hends
  simp only [Prod.mk.injEq] at hends
  obtain ⟨rfl, rfl, hs₁, hs₂⟩ := hends
  refine ⟨s₁, s₂, _, by decide, by simp [hend], ha, hb, by rw [hs₁, hs₂]; rfl, ?_⟩
  rintro ⟨bound, value, t, hrun, hstages⟩
  obtain ⟨r, hrun', hr⟩ := Option.map_eq_some_iff.mp hjoined
  obtain rfl := run_unique hrun hrun'
  have hrunning := hstages .running
  rw [hr, hs₁] at hrunning
  revert hrunning
  decide

end Session

end Scriptlet
