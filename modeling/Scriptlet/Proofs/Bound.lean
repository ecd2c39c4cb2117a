import Scriptlet.Proofs.Run

/-!
# Larger bounds

The bound of an evaluation only says how far it is followed. A step extends
another if it gives the same result wherever the other gives one; the rules of
evaluation pass this on from the evaluator of the children to the node. So a
larger bound never changes a result, and a node evaluates to one result at most.

Results:
* `Extends.step`: a rule extends the same rule with a smaller evaluator or fewer
  turns.
* `eval_mono`: a larger bound keeps every result.
* `Evaluates.unique`: evaluation has at most one result.
-/

namespace Scriptlet

open Eval

variable {α β : Type}

/-- Wherever the first step ends, the second one ends with the same result. -/
def Extends (m m' : Eval α) : Prop := ∀ c result, m.run c = some result → m'.run c = some result

namespace Extends

theorem refl (m : Eval α) : Extends m m := fun _ _ h => h

theorem bind {m m' : Eval α} {f f' : α → Eval β} (hm : Extends m m')
    (hf : ∀ a, Extends (f a) (f' a)) : Extends (m >>= f) (m' >>= f') := by
  rintro c ⟨b, c''⟩ h
  obtain ⟨a, c', h1, h2⟩ := run_bind_eq_some.mp h
  exact run_bind_eq_some.mpr ⟨a, c', hm c _ h1, hf a c' _ h2⟩

theorem exhausted (m : Eval α) : Extends exhausted m := by
  intro c result h
  cases h

theorem inScope {m m' : Eval α} (h : Extends m m') : Extends (inScope m) (inScope m') :=
  bind (refl _) fun _ => bind h fun _ => refl _

section Evaluator

variable {ev ev' : Evaluator} (hev : ∀ n, Extends (ev n) (ev' n))

include hev

theorem required (missing : Fault) (n : Node) :
    Extends (required ev missing n) (required ev' missing n) :=
  bind (refl _) fun _ => bind (hev n) fun _ => refl _

theorem operand (n : Node) : Extends (operand ev n) (operand ev' n) := required hev _ n

theorem combine (line : Nat) (left right : Node) (f : Value → Value → Except Fault Value) :
    Extends (combine ev line left right f) (combine ev' line left right f) :=
  bind (operand hev left) fun _ => bind (operand hev right) fun _ => refl _

theorem transform (line : Nat) (n : Node) (f : Value → Except Fault Value) :
    Extends (transform ev line n f) (transform ev' line n f) :=
  bind (operand hev n) fun _ => refl _

theorem sequence (ns : List Node) :
    ∀ last, Extends (sequence ev last ns) (sequence ev' last ns) := by
  induction ns with
  | nil => intro last; exact refl _
  | cons n ns ih =>
    intro last
    simp only [Eval.sequence]
    split
    · exact ih last
    · exact bind (hev n) ih

theorem guard (n : Node) : Extends (guard ev n) (guard ev' n) :=
  bind (operand hev n) fun _ => refl _

/-- More turns may be taken than before. -/
theorem repeatWhile (guardNode : Node) {turn turn' : Eval (Option Value)}
    (hturn : Extends turn turn') {bound bound' : Nat} (hbound : bound ≤ bound') :
    ∀ last, Extends (repeatWhile ev guardNode turn bound last)
      (repeatWhile ev' guardNode turn' bound' last) := by
  induction bound generalizing bound' with
  | zero => intro last; exact exhausted _
  | succ bound ih =>
    intro last
    obtain ⟨more, rfl⟩ : ∃ more, bound' = more + 1 := ⟨bound' - 1, by omega⟩
    refine bind (guard hev guardNode) fun g => ?_
    split
    · exact bind hturn (ih (by omega))
    · exact refl _

theorem operands (ns : List Node) : Extends (operands ev ns) (operands ev' ns) := by
  induction ns with
  | nil => exact refl _
  | cons n ns ih => exact bind (operand hev n) fun _ => bind ih fun _ => refl _

theorem apply (line : Nat) (d : Definition) (values : List (Option Value)) :
    Extends (apply ev line d values) (apply ev' line d values) := by
  refine bind (refl _) fun c => ?_
  split
  · exact refl _
  · split
    · exact refl _
    · split
      · exact refl _
      · exact refl _
      · exact bind (refl _) fun _ => bind (hev d.body) fun _ => refl _

theorem call (line : Nat) (f : String) (args : Option Node) :
    Extends (call ev line f args) (call ev' line f args) := by
  refine bind (refl _) fun c => ?_
  split
  · exact refl _
  · exact bind (operands hev _) fun _ => apply hev line _ _

/-- A rule extends the same rule with a smaller evaluator or fewer turns. -/
theorem step {bound bound' : Nat} (hbound : bound ≤ bound') (n : Node) :
    Extends (step ev bound n) (step ev' bound' n) := by
  obtain ⟨id, line, form⟩ := n
  cases form with
  | program body => exact hev body
  | block statements => exact sequence hev statements none
  | scope body => exact inScope (hev body)
  | branch guardNode body =>
    refine bind (guard hev guardNode) fun g => ?_
    split
    · exact inScope (hev body)
    · exact refl _
  | whileLoop guardNode body =>
    exact inScope (repeatWhile hev guardNode (hev body) hbound none)
  | forLoop start guardNode stepNode body =>
    refine inScope (bind (hev start) fun _ => repeatWhile hev guardNode ?_ hbound none)
    exact bind (hev body) fun _ => bind (hev stepNode) fun _ => refl _
  | relation rel left right => exact combine hev line left right _
  | arith op left right => exact combine hev line left right _
  | print value => exact bind (hev value) fun _ => refl _
  | assign name value => exact bind (operand hev value) fun _ => refl _
  | declare name ty => exact refl _
  | define name value => exact bind (required hev _ value) fun _ => refl _
  | cast value ty =>
    simp only [Eval.step]
    split
    · exact transform hev line value _
    · exact refl _
  | function name params body => exact refl _
  | call name args =>
    simp only [Eval.step]
    split
    · exact call hev line _ args
    · exact refl _
  | math fn argument => exact transform hev line argument _
  | _ => exact refl _

end Evaluator

end Extends

/-- **A larger bound never changes a result.** -/
theorem eval_mono {bound bound' : Nat} (h : bound ≤ bound') (n : Node) :
    Extends (eval bound n) (eval bound' n) := by
  induction bound generalizing bound' n with
  | zero => exact .exhausted _
  | succ bound ih =>
    obtain ⟨more, rfl⟩ : ∃ more, bound' = more + 1 := ⟨bound' - 1, by omega⟩
    exact .step (fun m => ih (by omega) m) (by omega) n

/-- Evaluation has at most one result. -/
theorem Evaluates.unique {n : Node} {c c₁ c₂ : Context} {v₁ v₂ : Option Value}
    (h₁ : Evaluates n c v₁ c₁) (h₂ : Evaluates n c v₂ c₂) : v₁ = v₂ ∧ c₁ = c₂ := by
  obtain ⟨b₁, h₁⟩ := h₁
  obtain ⟨b₂, h₂⟩ := h₂
  have h₁' := eval_mono (Nat.le_max_left b₁ b₂) n c _ h₁
  rw [eval_mono (Nat.le_max_right b₁ b₂) n c _ h₂] at h₁'
  cases h₁'
  exact ⟨rfl, rfl⟩

end Scriptlet
