import Scriptlet.Proofs.Coupling
import Scriptlet.Proofs.Invariant

/-!
# Output does not matter

A program cannot see its output. Whether diagnostics are echoed and whether the
writer works changes what is written and nothing else: two sessions that differ
in this only, and take the same steps, give the same answers, record the same
diagnostics and hold the same variables and functions.

What is echoed is told apart from what is printed. In a session that echoes, with
a writer that works, the echoed lines are the recorded diagnostics in order, also
those that were taken out in between; without them the output is that of the
session that does not echo. A reader of the written text sees the messages of these
diagnostics, each on a line of its own, woven into the lines that were printed.

Results:
* `Diagnostic.exists_message_eq`: a message begins with the line of the failure.
* `woven_outputText`: the text of some lines, and of those that were printed.
* `blind_eval`: evaluation does not look at the output.
* `lasting_shows`: what is recorded is echoed, and nothing else is.
* `Session.converse_output`: both facts for whole sessions.
-/

namespace Scriptlet

open Eval

/-! ## Lines -/

/-- The diagnostic that a line shows. -/
def OutputLine.diagnostic? : OutputLine → Option Diagnostic
  | printed _ => none
  | echoed d => some d

/-- The lines of an output that a program printed. -/
def printedLines (lines : Array OutputLine) : List OutputLine :=
  lines.toList.filter fun line => line.diagnostic?.isNone

/-- The diagnostics that an output shows. -/
def echoedDiagnostics (lines : Array OutputLine) : List Diagnostic :=
  lines.toList.filterMap OutputLine.diagnostic?

@[simp] theorem printedLines_push_printed (lines : Array OutputLine) (text : String) :
    printedLines (lines.push (.printed text)) = printedLines lines ++ [.printed text] := by
  simp [printedLines, OutputLine.diagnostic?]

@[simp] theorem printedLines_push_echoed (lines : Array OutputLine) (d : Diagnostic) :
    printedLines (lines.push (.echoed d)) = printedLines lines := by
  simp [printedLines, OutputLine.diagnostic?]

@[simp] theorem echoedDiagnostics_push_printed (lines : Array OutputLine) (text : String) :
    echoedDiagnostics (lines.push (.printed text)) = echoedDiagnostics lines := by
  simp [echoedDiagnostics, List.filterMap_cons, OutputLine.diagnostic?]

@[simp] theorem echoedDiagnostics_push_echoed (lines : Array OutputLine) (d : Diagnostic) :
    echoedDiagnostics (lines.push (.echoed d)) = echoedDiagnostics lines ++ [d] := by
  simp [echoedDiagnostics, OutputLine.diagnostic?]

/-- An output that shows no diagnostic is what was printed. -/
theorem printedLines_eq_toList {lines : Array OutputLine} (h : echoedDiagnostics lines = []) :
    printedLines lines = lines.toList := by
  rw [printedLines, List.filter_eq_self]
  intro line hline
  rw [List.filterMap_eq_nil_iff.mp h line hline]
  rfl

/-! ## The written text -/

/-- Every message says first on which line the failure is. -/
theorem Diagnostic.exists_message_eq (d : Diagnostic) :
    ∃ details, d.message = s!"Error on line {d.line}: " ++ details := by
  cases d with
  | source e => exact ⟨e.details, rfl⟩
  | runtime fault line => exact ⟨fault.message, rfl⟩

/-- A text with messages and without them: `loud` is made of the lines `texts`, each with
    its line break, and `messages` between them; in `quiet` the messages are missing. -/
inductive Woven : List String → List String → String → String → Prop
  | nothing : Woven [] [] "" ""
  | printed {messages texts : List String} {loud quiet : String} (text : String) :
      Woven messages texts loud quiet →
      Woven messages (text :: texts) (text ++ "\n" ++ loud) (text ++ "\n" ++ quiet)
  | echoed {messages texts : List String} {loud quiet : String} (message : String) :
      Woven messages texts loud quiet →
      Woven (message :: messages) texts (message ++ "\n" ++ loud) quiet

theorem outputText_cons (line : OutputLine) (lines : List OutputLine) :
    outputText (line :: lines) = line.text ++ "\n" ++ outputText lines := by
  simp [outputText, String.join_cons]

/-- **What is written.** The messages of the echoed diagnostics are woven into the lines
    that were printed. -/
theorem woven_outputText (lines : List OutputLine) : ∃ texts,
    lines.filter (fun line => line.diagnostic?.isNone) = texts.map .printed ∧
      Woven ((lines.filterMap OutputLine.diagnostic?).map Diagnostic.message) texts
        (outputText lines) (outputText (texts.map .printed)) := by
  induction lines with
  | nil => exact ⟨[], rfl, .nothing⟩
  | cons line lines ih =>
    obtain ⟨texts, hprinted, hwoven⟩ := ih
    cases line with
    | printed text =>
      refine ⟨text :: texts, congrArg _ hprinted, ?_⟩
      rw [List.map_cons, outputText_cons, outputText_cons]
      exact .printed text hwoven
    | echoed d =>
      refine ⟨texts, hprinted, ?_⟩
      rw [outputText_cons]
      exact .echoed d.message hwoven

/-- Every write works. -/
def Writer.Works (w : Writer) : Prop := ∀ k, w.works k = true

theorem Writer.Works.accepts {w : Writer} (h : w.Works) : w.accepts = true := h w.tried

/-! ## What is echoed -/

/-- A property that only the output and the diagnostics decide is an invariant, if
    writing and recording keep it. -/
theorem Lasting.of_output {P : Context → Prop}
    (state : ∀ (c : Context) s fs depth, P c →
      P { c with scopes := s, functions := fs, callDepth := depth })
    (write : ∀ (c : Context) text, P c → P (c.write (.printed text)))
    (record : ∀ (c : Context) d, P c → P (c.record d)) :
    Lasting fun c c' => P c → P c' where
  refl _ h := h
  trans hab hbc h := hbc (hab h)
  record c d := record c d
  write c text := write c text
  declare {c _ _ s} _ := state c s c.functions c.callDepth
  define {c _ _ s} _ := state c s c.functions c.callDepth
  assign {c _ _ s} _ := state c s c.functions c.callDepth
  register {c c' d} h hc := by
    obtain ⟨-, -, rfl⟩ := Context.register_eq_ok.mp h
    exact state c c.scopes (⟨d, d.name⟩ :: c.functions) c.callDepth hc
  leave {c c'} h hc := by
    have hc' := h (state c c.scopes.push c.functions c.callDepth hc)
    exact state c' c'.scopes.pop c'.functions c'.callDepth hc'
  returned {c c' _ _ s} _ h hc := by
    have hc' := h (state c s c.functions (c.callDepth + 1) hc)
    exact state c' c'.scopes.pop c'.functions (c'.callDepth - 1) hc'

/-- Whether diagnostics are echoed does not change. -/
theorem lasting_echo (echo : Bool) : Lasting fun c c' => c.echo = echo → c'.echo = echo :=
  .of_output (fun _ _ _ _ h => h) (fun _ _ h => h) fun c d h => by
    unfold Context.record Context.write
    split <;> exact h

theorem echo_of_eval {bound : Nat} {n : Node} {c c' : Context} {value : Option Value}
    (h : (eval bound n).run c = some (value, c')) : c'.echo = c.echo :=
  (lasting_echo c.echo).relates_eval bound n c value c' h rfl

namespace Context

/-- A context with a writer that works. If it echoes, the lines show what was recorded,
    `before` being what was taken out since; else they show no diagnostic. -/
structure Shows (echo : Bool) (before : List Diagnostic) (c : Context) : Prop where
  echo_eq : c.echo = echo
  works : c.writer.Works
  echoed_eq : echoedDiagnostics c.output = if echo then before ++ c.diagnostics.toList else []

variable {echo : Bool} {before : List Diagnostic} {c : Context}

theorem Shows.write (h : c.Shows echo before) (text : String) :
    (c.write (.printed text)).Shows echo before where
  echo_eq := h.echo_eq
  works := h.works
  echoed_eq := by
    unfold Context.write
    rw [h.works.accepts, if_pos rfl, echoedDiagnostics_push_printed]
    exact h.echoed_eq

theorem Shows.record (h : c.Shows echo before) (d : Diagnostic) :
    (c.record d).Shows echo before := by
  have hlines := h.echoed_eq
  unfold Context.record
  rw [h.echo_eq]
  cases echo with
  | false => exact ⟨h.echo_eq, h.works, hlines⟩
  | true =>
    unfold Context.write
    rw [if_pos rfl, h.works.accepts, if_pos rfl]
    exact ⟨h.echo_eq, h.works, by simp [hlines]⟩

end Context

/-- **What is recorded is echoed**, if anything is, and nothing else is. -/
theorem lasting_shows (echo : Bool) (before : List Diagnostic) :
    Lasting fun c c' => c.Shows echo before → c'.Shows echo before :=
  .of_output (fun _ _ _ _ h => ⟨h.echo_eq, h.works, h.echoed_eq⟩) (fun _ text h => h.write text)
    fun _ d h => h.record d

/-! ## Contexts that differ in their output -/

/-- Two contexts that agree but for the output and how it is handled. What they have
    printed agrees if both can write. -/
structure Context.Twin (c d : Context) : Prop where
  scopes_eq : d.scopes = c.scopes
  functions_eq : d.functions = c.functions
  maxCallDepth_eq : d.maxCallDepth = c.maxCallDepth
  callDepth_eq : d.callDepth = c.callDepth
  diagnostics_eq : d.diagnostics = c.diagnostics
  printed_eq : c.writer.Works → d.writer.Works → printedLines d.output = printedLines c.output

namespace Context.Twin

variable {c d : Context}

theorem symm (h : c.Twin d) : d.Twin c where
  scopes_eq := h.scopes_eq.symm
  functions_eq := h.functions_eq.symm
  maxCallDepth_eq := h.maxCallDepth_eq.symm
  callDepth_eq := h.callDepth_eq.symm
  diagnostics_eq := h.diagnostics_eq.symm
  printed_eq hd hc := (h.printed_eq hc hd).symm

theorem write (h : c.Twin d) (text : String) :
    (c.write (.printed text)).Twin (d.write (.printed text)) where
  scopes_eq := h.scopes_eq
  functions_eq := h.functions_eq
  maxCallDepth_eq := h.maxCallDepth_eq
  callDepth_eq := h.callDepth_eq
  diagnostics_eq := h.diagnostics_eq
  printed_eq hc hd := by
    have hc' : c.writer.Works := hc
    have hd' : d.writer.Works := hd
    unfold Context.write
    rw [hc'.accepts, hd'.accepts, if_pos rfl, if_pos rfl, printedLines_push_printed,
      printedLines_push_printed, h.printed_eq hc' hd']

/-- Recording changes the diagnostics, and what was written, but not what was
    printed. -/
theorem record_eq (c : Context) (x : Diagnostic) :
    ∃ w lines, c.record x =
        { c with writer := w, output := lines, diagnostics := c.diagnostics.push x } ∧
      w.works = c.writer.works ∧ printedLines lines = printedLines c.output := by
  unfold Context.record Context.write
  split
  · refine ⟨_, _, rfl, rfl, ?_⟩
    split
    · exact printedLines_push_echoed _ _
    · rfl
  · exact ⟨_, _, rfl, rfl, rfl⟩

theorem record (h : c.Twin d) (x : Diagnostic) : (c.record x).Twin (d.record x) := by
  obtain ⟨w, lines, hc, hw, hlines⟩ := record_eq c x
  obtain ⟨w', lines', hd, hw', hlines'⟩ := record_eq d x
  rw [hc, hd]
  refine { h with
    diagnostics_eq := by simp only [h.diagnostics_eq]
    printed_eq := fun hworks hworks' => ?_ }
  have hold := h.printed_eq (fun k => hw ▸ hworks k) (fun k => hw' ▸ hworks' k)
  dsimp only
  rw [hlines, hlines', hold]

end Context.Twin

/-! ## Steps that do not look at the output -/

/-- Contexts that differ in their output only do so again after the step, which ends
    in both or in none, with the same result. -/
def Blind {α : Type} (m : Eval α) : Prop :=
  ∀ c d a c', c.Twin d → m.run c = some (a, c') → ∃ d', m.run d = some (a, d') ∧ c'.Twin d'

/-- The same moves keep the contexts in agreement. -/
theorem coupling_twin : Coupling Eq Eq Context.Twin where
  scopes_eq h := h.scopes_eq
  maxCallDepth_eq h := h.maxCallDepth_eq
  callDepth_eq h := h.callDepth_eq
  function? h f := by
    refine FunctionTable.Rel.named? ?_ f
    rw [h.functions_eq]
    exact .refl fun _ _ => ⟨rfl, rfl, rfl⟩
  state h _ _ := { h with scopes_eq := rfl, callDepth_eq := rfl }
  register h hfg := { h with functions_eq := by rw [hfg.eq, h.functions_eq] }
  write h text := h.write text
  report {c d i j} h hij fault := by
    subst hij
    exact h.record (.runtime fault i)
  size_eq_iff h h₁ := by rw [h.diagnostics_eq, h₁.diagnostics_eq]

/-- **Evaluation does not look at the output.** -/
theorem blind_eval (bound : Nat) (n : Node) : Blind (eval bound n) :=
  couples_eval coupling_twin reports_eq (fun n _ h => h ▸ .refl n) bound n n rfl

/-! ## Sessions -/

/-- What a step of a session gives back. -/
inductive Answer where
  | tokens (ts : List Lexed)
  | tree (n : Node)
  | value (v : Option Value)
  | diagnostics (ds : List Diagnostic)

/-- The diagnostics that a step takes out of a session. -/
def Answer.taken : Answer → List Diagnostic
  | diagnostics ds => ds
  | _ => []

namespace Session

/-- What a step gives back, and the session after it, if the step is completed. -/
def perform (s : Session) : Action → Option (Answer × Session)
  | .tokenize source => some (.tokens (s.tokenize source).1, (s.tokenize source).2)
  | .parse source => some (.tree (s.parse source).1, (s.parse source).2)
  | .parseTokens tokens => some (.tree (s.parseTokens tokens).1, (s.parseTokens tokens).2)
  | .optimize n => some (.tree (s.optimize n).1, (s.optimize n).2)
  | .evaluate bound n => (s.evaluate bound n).map fun r => (.value r.1, r.2)
  | .run bound source => (s.run bound source).map fun r => (.value r.1, r.2)
  | .takeDiagnostics => some (.diagnostics s.takeDiagnostics.1, s.takeDiagnostics.2)

/-- What some steps give back, and the session after them, if all of them are
    completed. -/
def converse (s : Session) : List Action → Option (List Answer × Session)
  | [] => some ([], s)
  | action :: actions => do
    let (answer, s) ← s.perform action
    let (answers, s) ← s.converse actions
    return (answer :: answers, s)

/-- A session that begins with any writer. -/
def opened (options : Options) (writer : Writer) : Session :=
  let s := start options true
  { s with context := { s.context with writer } }

/-! ### One session -/

section Lasting

variable {R : Context → Context → Prop} {s s' : Session}

theorem relates_recordAll (hR : Reporting R) (s : Session) (errors : List SourceError) :
    R s.context (s.recordAll errors).context := by
  induction errors generalizing s with
  | nil => exact hR.refl _
  | cons e errors ih =>
    exact hR.trans (hR.record s.context (.source e))
      (ih { s with context := s.context.record (.source e) })

theorem relates_parse (hR : Reporting R) (s : Session) (source : String) :
    R s.context (s.parse source).2.context :=
  hR.trans (relates_recordAll hR s _) (relates_recordAll hR _ _)

theorem context_optimize (s : Session) (n : Node) : (s.optimize n).2.context = s.context := by
  unfold Session.optimize
  split <;> rfl

theorem relates_evaluate (hR : Lasting R) {bound : Nat} {n : Node} {value : Option Value}
    (h : s.evaluate bound n = some (value, s')) : R s.context s'.context := by
  obtain ⟨⟨_, c⟩, hrun, hs'⟩ := Option.map_eq_some_iff.mp h
  cases hs'
  exact hR.relates_eval bound n s.context value c hrun

theorem relates_run (hR : Lasting R) {bound : Nat} {source : String} {value : Option Value}
    (h : s.run bound source = some (value, s')) : R s.context s'.context := by
  refine hR.trans (relates_parse hR.toReporting s source) ?_
  rw [← context_optimize (s.parse source).2 (s.parse source).1]
  exact relates_evaluate hR h

/-- A lasting relation holds between the two ends of every step that takes no
    diagnostics out. -/
theorem relates_perform (hR : Lasting R) {action : Action} {answer : Answer}
    (h : s.perform action = some (answer, s')) :
    answer = .diagnostics s.takeDiagnostics.1 ∧ s' = s.takeDiagnostics.2 ∨
      answer.taken = [] ∧ R s.context s'.context := by
  have hreporting := hR.toReporting
  cases action with
  | tokenize source =>
    obtain ⟨rfl, rfl⟩ := Prod.mk.inj (Option.some.inj h)
    exact .inr ⟨rfl, relates_recordAll hreporting s _⟩
  | parse source =>
    obtain ⟨rfl, rfl⟩ := Prod.mk.inj (Option.some.inj h)
    exact .inr ⟨rfl, relates_parse hreporting s source⟩
  | parseTokens tokens =>
    obtain ⟨rfl, rfl⟩ := Prod.mk.inj (Option.some.inj h)
    exact .inr ⟨rfl, relates_recordAll hreporting s _⟩
  | optimize n =>
    obtain ⟨rfl, rfl⟩ := Prod.mk.inj (Option.some.inj h)
    rw [context_optimize]
    exact .inr ⟨rfl, hR.refl _⟩
  | evaluate bound n =>
    obtain ⟨⟨value, t⟩, hrun, ht⟩ := Option.map_eq_some_iff.mp h
    obtain ⟨rfl, rfl⟩ := Prod.mk.inj ht
    exact .inr ⟨rfl, relates_evaluate hR hrun⟩
  | run bound source =>
    obtain ⟨⟨value, t⟩, hrun, ht⟩ := Option.map_eq_some_iff.mp h
    obtain ⟨rfl, rfl⟩ := Prod.mk.inj ht
    exact .inr ⟨rfl, relates_run hR hrun⟩
  | takeDiagnostics =>
    obtain ⟨rfl, rfl⟩ := Prod.mk.inj (Option.some.inj h)
    exact .inl ⟨rfl, rfl⟩

end Lasting

section Converse

variable {s s' : Session} {actions : List Action} {answers : List Answer}

theorem converse_cons {action : Action} :
    s.converse (action :: actions) = some (answers, s') ↔
      ∃ first t rest, s.perform action = some (first, t) ∧ t.converse actions = some (rest, s') ∧
        answers = first :: rest := by
  simp only [converse, Option.bind_eq_bind, Option.bind_eq_some_iff, Option.pure_def,
    Option.some.injEq, Prod.exists, Prod.mk.injEq]
  constructor
  · rintro ⟨first, t, hfirst, rest, _, hrest, rfl, rfl⟩
    exact ⟨first, t, rest, hfirst, hrest, rfl⟩
  · rintro ⟨first, t, rest, hfirst, hrest, rfl⟩
    exact ⟨first, t, hfirst, rest, s', hrest, rfl, rfl⟩

/-- All that was recorded is shown, also what was taken out. -/
theorem shows_converse {echo : Bool} {before : List Diagnostic} (hs : s.context.Shows echo before)
    (h : s.converse actions = some (answers, s')) :
    s'.context.Shows echo (before ++ answers.flatMap Answer.taken) := by
  induction actions generalizing s before answers with
  | nil =>
    cases h
    simpa using hs
  | cons action actions ih =>
    obtain ⟨first, t, rest, hfirst, hrest, rfl⟩ := converse_cons.mp h
    have ht : t.context.Shows echo (before ++ first.taken) := by
      rcases relates_perform (lasting_shows echo before) hfirst with ⟨rfl, rfl⟩ | ⟨hnone, hkept⟩
      · exact ⟨hs.echo_eq, hs.works, by simpa [Answer.taken, takeDiagnostics] using hs.echoed_eq⟩
      · rw [hnone, List.append_nil]
        exact hkept hs
    simpa using ih ht hrest

end Converse

/-! ### Two sessions -/

/-- Two sessions that agree but for the output and how it is handled. -/
structure Twin (s t : Session) : Prop where
  context : s.context.Twin t.context
  optimize_eq : t.options.optimize = s.options.optimize
  dropDeadCode_eq : t.options.dropDeadCode = s.options.dropDeadCode
  nextId_eq : t.nextId = s.nextId

namespace Twin

variable {s t : Session}

theorem symm (h : s.Twin t) : t.Twin s :=
  ⟨h.context.symm, h.optimize_eq.symm, h.dropDeadCode_eq.symm, h.nextId_eq.symm⟩

theorem recordAll (h : s.Twin t) (errors : List SourceError) :
    (s.recordAll errors).Twin (t.recordAll errors) := by
  induction errors generalizing s t with
  | nil => exact h
  | cons e errors ih =>
    exact ih (s := { s with context := s.context.record (.source e) })
      (t := { t with context := t.context.record (.source e) })
      { h with context := h.context.record (.source e) }

theorem parseTokens (h : s.Twin t) (tokens : List Lexed) :
    (s.parseTokens tokens).1 = (t.parseTokens tokens).1 ∧
      (s.parseTokens tokens).2.Twin (t.parseTokens tokens).2 := by
  unfold Session.parseTokens
  rw [h.nextId_eq]
  exact ⟨rfl, { h.recordAll _ with nextId_eq := rfl }⟩

theorem parse (h : s.Twin t) (source : String) :
    (s.parse source).1 = (t.parse source).1 ∧ (s.parse source).2.Twin (t.parse source).2 :=
  (h.recordAll _).parseTokens _

theorem optimize (h : s.Twin t) (n : Node) :
    (s.optimize n).1 = (t.optimize n).1 ∧ (s.optimize n).2.Twin (t.optimize n).2 := by
  unfold Session.optimize
  rw [h.optimize_eq, h.dropDeadCode_eq, h.nextId_eq]
  split
  · exact ⟨rfl, { h with nextId_eq := rfl }⟩
  · exact ⟨rfl, h⟩

theorem evaluate (h : s.Twin t) {bound : Nat} {n : Node} {value : Option Value} {s' : Session}
    (hs : s.evaluate bound n = some (value, s')) :
    ∃ t', t.evaluate bound n = some (value, t') ∧ s'.Twin t' := by
  obtain ⟨⟨_, c⟩, hrun, hs'⟩ := Option.map_eq_some_iff.mp hs
  cases hs'
  obtain ⟨d, hd, htwin⟩ := blind_eval bound n _ _ value c h.context hrun
  exact ⟨{ t with context := d }, Option.map_eq_some_iff.mpr ⟨_, hd, rfl⟩,
    { h with context := htwin }⟩

theorem run (h : s.Twin t) {bound : Nat} {source : String} {value : Option Value} {s' : Session}
    (hs : s.run bound source = some (value, s')) :
    ∃ t', t.run bound source = some (value, t') ∧ s'.Twin t' := by
  obtain ⟨htree, hparsed⟩ := h.parse source
  obtain ⟨htree', hoptimized⟩ := hparsed.optimize (s.parse source).1
  unfold Session.run at hs ⊢
  dsimp only at hs ⊢
  rw [← htree, ← htree']
  exact hoptimized.evaluate hs

theorem takeDiagnostics (h : s.Twin t) :
    s.takeDiagnostics.1 = t.takeDiagnostics.1 ∧ s.takeDiagnostics.2.Twin t.takeDiagnostics.2 := by
  unfold Session.takeDiagnostics
  rw [h.context.diagnostics_eq]
  exact ⟨rfl, { h with context := { h.context with diagnostics_eq := rfl } }⟩

/-- One step. -/
theorem perform (h : s.Twin t) {action : Action} {answer : Answer} {s' : Session}
    (hs : s.perform action = some (answer, s')) :
    ∃ t', t.perform action = some (answer, t') ∧ s'.Twin t' := by
  cases action with
  | tokenize source =>
    obtain ⟨rfl, rfl⟩ := Prod.mk.inj (Option.some.inj hs)
    exact ⟨_, rfl, h.recordAll _⟩
  | parse source =>
    obtain ⟨rfl, rfl⟩ := Prod.mk.inj (Option.some.inj hs)
    obtain ⟨htree, htwin⟩ := h.parse source
    exact ⟨_, by rw [Session.perform, htree], htwin⟩
  | parseTokens tokens =>
    obtain ⟨rfl, rfl⟩ := Prod.mk.inj (Option.some.inj hs)
    obtain ⟨htree, htwin⟩ := h.parseTokens tokens
    exact ⟨_, by rw [Session.perform, htree], htwin⟩
  | optimize n =>
    obtain ⟨rfl, rfl⟩ := Prod.mk.inj (Option.some.inj hs)
    obtain ⟨htree, htwin⟩ := h.optimize n
    exact ⟨_, by rw [Session.perform, htree], htwin⟩
  | evaluate bound n =>
    obtain ⟨⟨value, s₁⟩, hrun, hs₁⟩ := Option.map_eq_some_iff.mp hs
    obtain ⟨rfl, rfl⟩ := Prod.mk.inj hs₁
    obtain ⟨t', ht', htwin⟩ := h.evaluate hrun
    exact ⟨t', Option.map_eq_some_iff.mpr ⟨_, ht', rfl⟩, htwin⟩
  | run bound source =>
    obtain ⟨⟨value, s₁⟩, hrun, hs₁⟩ := Option.map_eq_some_iff.mp hs
    obtain ⟨rfl, rfl⟩ := Prod.mk.inj hs₁
    obtain ⟨t', ht', htwin⟩ := h.run hrun
    exact ⟨t', Option.map_eq_some_iff.mpr ⟨_, ht', rfl⟩, htwin⟩
  | takeDiagnostics =>
    obtain ⟨rfl, rfl⟩ := Prod.mk.inj (Option.some.inj hs)
    obtain ⟨htaken, htwin⟩ := h.takeDiagnostics
    exact ⟨_, by rw [Session.perform, htaken], htwin⟩

/-- All steps. -/
theorem converse (h : s.Twin t) {actions : List Action} {answers : List Answer} {s' : Session}
    (hs : s.converse actions = some (answers, s')) :
    ∃ t', t.converse actions = some (answers, t') ∧ s'.Twin t' := by
  induction actions generalizing s t answers with
  | nil =>
    cases hs
    exact ⟨t, rfl, h⟩
  | cons action actions ih =>
    obtain ⟨first, s₁, rest, hfirst, hrest, rfl⟩ := converse_cons.mp hs
    obtain ⟨t₁, ht₁, h₁⟩ := h.perform hfirst
    obtain ⟨t', ht', h'⟩ := ih h₁ hrest
    exact ⟨t', converse_cons.mpr ⟨first, t₁, rest, ht₁, ht', rfl⟩, h'⟩

/-- Whatever does not depend on the output is the same after all steps, and the steps
    are completed in both sessions or in none. -/
theorem map_converse_eq {α : Type} {view : List Answer × Session → α} (h : s.Twin t)
    (actions : List Action)
    (hview : ∀ answers s' t', s.converse actions = some (answers, s') →
      t.converse actions = some (answers, t') → s'.Twin t' →
      view (answers, s') = view (answers, t')) :
    (s.converse actions).map view = (t.converse actions).map view := by
  cases hs : s.converse actions with
  | none =>
    cases ht : t.converse actions with
    | none => rfl
    | some r =>
      obtain ⟨s', hs', -⟩ := h.symm.converse ht
      cases hs.symm.trans hs'
  | some r =>
    obtain ⟨t', ht, htwin⟩ := h.converse hs
    rw [ht]
    exact congrArg some (hview r.1 r.2 t' hs ht htwin)

end Twin

theorem twin_opened (options : Options) (echo echo' : Bool) (w w' : Writer) :
    (opened { options with echo } w).Twin (opened { options with echo := echo' } w') :=
  ⟨⟨rfl, rfl, rfl, rfl, rfl, fun _ _ => rfl⟩, rfl, rfl, rfl⟩

theorem shows_opened (options : Options) (echo : Bool) :
    (opened { options with echo } (.steady true)).context.Shows echo [] :=
  ⟨rfl, fun _ => rfl, by cases echo <;> rfl⟩

/-- **Output handling never influences a session.** The answers to any steps, and the
    variables, functions and diagnostics after them, are the same whether diagnostics
    are echoed or not and whichever writes fail. With a writer that works, what a session
    that echoes has written is what one that does not has written, line by line, with the
    messages of the diagnostics recorded woven into it, in order: those taken out, and
    those that are left. These lines are told apart from the printed ones. -/
theorem converse_output (options : Options) (actions : List Action) :
    (∀ (echo echo' : Bool) (w w' : Writer),
      let view (r : List Answer × Session) :=
        (r.1, r.2.context.scopes, r.2.context.functions, r.2.context.diagnostics)
      ((opened { options with echo } w).converse actions).map view =
        ((opened { options with echo := echo' } w').converse actions).map view) ∧
    ∀ answers s,
      (opened { options with echo := true } (.steady true)).converse actions = some (answers, s) →
      ∃ t texts,
        (opened { options with echo := false } (.steady true)).converse actions =
          some (answers, t) ∧
        let shown := answers.flatMap Answer.taken ++ s.context.diagnostics.toList
        Woven (shown.map Diagnostic.message) texts (outputText s.context.output.toList)
          (outputText t.context.output.toList) ∧
        t.context.output.toList = texts.map .printed ∧
        printedLines s.context.output = t.context.output.toList ∧
        echoedDiagnostics s.context.output = shown := by
  refine ⟨fun echo echo' w w' => ?_, fun answers s hloud => ?_⟩
  · refine (twin_opened options echo echo' w w').map_converse_eq actions fun _ _ _ _ _ htwin => ?_
    have hcontext := htwin.context
    simp only [hcontext.scopes_eq, hcontext.functions_eq, hcontext.diagnostics_eq]
  · obtain ⟨t, hquiet, htwin⟩ := (twin_opened options true false _ _).converse hloud
    have hs : s.context.Shows true ([] ++ answers.flatMap Answer.taken) :=
      shows_converse (shows_opened options true) hloud
    have ht : t.context.Shows false ([] ++ answers.flatMap Answer.taken) :=
      shows_converse (shows_opened options false) hquiet
    have hprinted : printedLines s.context.output = t.context.output.toList := by
      rw [← htwin.context.printed_eq hs.works ht.works]
      exact printedLines_eq_toList ht.echoed_eq
    have hshown : echoedDiagnostics s.context.output = _ := hs.echoed_eq
    obtain ⟨texts, htexts, hwoven⟩ := woven_outputText s.context.output.toList
    have hquietLines : t.context.output.toList = texts.map .printed := hprinted.symm.trans htexts
    rw [← hquietLines, show List.filterMap _ _ = _ from hshown] at hwoven
    exact ⟨t, texts, hquiet, hwoven, hquietLines, hprinted, hshown⟩

/-- One failure is taken out, and one is left. -/
theorem converse_output_of_failures :
    let actions : List Action :=
      [.run 9 "print(1); x; print(2)", .takeDiagnostics, .run 9 "1 / 0"]
    ∃ answers s t texts,
      (opened { echo := true } (.steady true)).converse actions = some (answers, s) ∧
      (opened { echo := false } (.steady true)).converse actions = some (answers, t) ∧
      outputText s.context.output.toList =
        "1\nError on line 1: Undeclared name 'x'.\n2\n" ++
          "Error on line 1: Arithmetic error: division by zero.\n" ∧
      outputText t.context.output.toList = "1\n2\n" ∧
      Woven ((answers.flatMap Answer.taken ++ s.context.diagnostics.toList).map Diagnostic.message)
        texts (outputText s.context.output.toList) (outputText t.context.output.toList) := by
  intro actions
  have hloudText : ((opened { echo := true } (.steady true)).converse actions).map
      (fun r => outputText r.2.context.output.toList) =
        some ("1\nError on line 1: Undeclared name 'x'.\n2\n" ++
          "Error on line 1: Arithmetic error: division by zero.\n") := by
    decide +kernel
  have hquietText : ((opened { echo := false } (.steady true)).converse actions).map
      (fun r => outputText r.2.context.output.toList) = some "1\n2\n" := by
    decide +kernel
  obtain ⟨⟨answers, s⟩, hloud, htext⟩ := Option.map_eq_some_iff.mp hloudText
  obtain ⟨t, texts, hquiet, hwoven, -⟩ := (converse_output {} actions).2 answers s hloud
  rw [hquiet] at hquietText
  exact ⟨answers, s, t, texts, hloud, hquiet, htext, Option.some.inj hquietText, hwoven⟩

end Session

end Scriptlet
