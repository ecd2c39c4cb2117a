import Scriptlet.Proofs.Bound
import Scriptlet.Proofs.Shape
import Scriptlet.Session

/-!
# Runs of a source

A source that is run in a session of its own is parsed, optimised and evaluated.
Here the three are told apart: the tree and the session that parsing leaves, and
the evaluation of the tree, optimised or not, in the context of that session.

Results:
* `runSource_eq`: a run of a source as an evaluation of its tree.
* `Runs.unique`: a source has one report at most.
-/

namespace Scriptlet

/-- A source run in a session of its own ends with this report. -/
def Runs (options : Options) (source : String) (r : Report) : Prop :=
  ∃ bound, runSource options bound source = some r

/-- What a run came to, read off its value and its last context. -/
def Report.ofRun (ended : Option Value × Context) : Report :=
  ⟨ended.1, ended.2.output.toList, ended.2.diagnostics.toList⟩

/-- The tree of a source and the session that parsed it. -/
def parsed (options : Options) (source : String) : Node × Session :=
  (Session.start options true).parse source

theorem runSource_eq (options : Options) (bound : Nat) (source : String) :
    runSource options bound source =
      ((eval bound ((parsed options source).2.optimize (parsed options source).1).1).run
        (parsed options source).2.context).map Report.ofRun := by
  have hcontext : ((parsed options source).2.optimize (parsed options source).1).2.context =
      (parsed options source).2.context := by
    unfold Session.optimize
    split <;> rfl
  rw [← hcontext]
  simp only [runSource, Session.run, Session.evaluate, Option.map_map]
  rfl

/-- A source has one report at most. -/
theorem Runs.unique {options : Options} {source : String} {r₁ r₂ : Report}
    (h₁ : Runs options source r₁) (h₂ : Runs options source r₂) : r₁ = r₂ := by
  obtain ⟨b₁, h₁⟩ := h₁
  obtain ⟨b₂, h₂⟩ := h₂
  rw [runSource_eq] at h₁ h₂
  obtain ⟨⟨v₁, c₁⟩, e₁, rfl⟩ := Option.map_eq_some_iff.mp h₁
  obtain ⟨⟨v₂, c₂⟩, e₂, rfl⟩ := Option.map_eq_some_iff.mp h₂
  obtain ⟨rfl, rfl⟩ := Evaluates.unique ⟨b₁, e₁⟩ ⟨b₂, e₂⟩
  rfl

theorem shaped_parsed (options : Options) (source : String) :
    ∃ body, (parsed options source).1.form = .program body ∧ body.Is Form.isBlock :=
  shaped_parse _ _

theorem tree_parsed (options : Options) (source : String) :
    (parsed options source).1 = (parse (tokenize source).1 0).tree := rfl

theorem options_parsed (options : Options) (source : String) :
    (parsed options source).2.options = options := rfl

/-- A session that has only parsed has recorded the errors of the source. -/
theorem context_parsed (options : Options) (source : String) :
    (parsed options source).2.context =
      ((tokenize source).2 ++ (parse (tokenize source).1 0).errors).foldl
        (fun c e => c.record (.source e)) (Session.start options true).context := by
  rw [List.foldl_append]
  rfl

/-- A session that has only parsed knows no function. -/
theorem functions_parsed (options : Options) (source : String) :
    (parsed options source).2.context.functions = [] := by
  have hrecord : ∀ (errors : List SourceError) (c : Context),
      (errors.foldl (fun c e => c.record (.source e)) c).functions = c.functions := by
    intro errors
    induction errors with
    | nil => intro c; rfl
    | cons e errors ih =>
      intro c
      rw [List.foldl_cons, ih]
      unfold Context.record Context.write
      split <;> rfl
  rw [context_parsed, hrecord]
  rfl

end Scriptlet
