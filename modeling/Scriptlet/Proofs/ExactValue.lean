import Scriptlet.Optimize
import Scriptlet.Proofs.Folding
import Scriptlet.Proofs.Origins

/-!
# Exact values of integer expressions

An expression of integer literals, sums, differences and products has an exact value
among the integers of mathematics. Optimisation computes it if no part of the expression
leaves the range of words, whatever the value of the whole is. If some part does, then
the innermost such parts are where the computation fails: each of them stays in the tree
with literals as its operands, everything around it stays as well, and a run reports the
overflow of each of them, from left to right, and nothing else.

The invariant of the induction is the outcome of an operand: it yields a word and reports
nothing, or it yields nothing and has reported something, so that the operator around it
has no operand to complain about.

Results:
* `rewritten_of_exactValue?`: an integer expression becomes a literal or stays an operator,
  and what a run makes of it.
* `optimize_int_iff`: it becomes the literal of its exact value just if all its parts
  fit, and otherwise its overflows are what is reported.
-/

namespace Scriptlet

open Eval Optimize

/-- The exact result of a sum, a difference or a product. -/
def Arith.exactResult? : Arith → Int → Int → Option Int
  | .add, a, b => some (a + b)
  | .sub, a, b => some (a - b)
  | .mul, a, b => some (a * b)
  | .div, _, _ => none
  | .pow, _, _ => none

namespace Node

/-- The exact value of an expression of integer literals, sums, differences and products.
    Trees that are no such expressions have none. -/
def exactValue? : Node → Option Int
  | ⟨_, _, .int w⟩ => some w.toInt
  | ⟨_, _, .arith op left right⟩ =>
    left.exactValue?.bind fun a => right.exactValue?.bind fun b => op.exactResult? a b
  | _ => none
termination_by structural n => n

/-- The exact value of a node is in the range of words. -/
def Fits (n : Node) : Prop := n.exactValue?.all fun v => InRange v

instance : DecidablePred Fits := fun n =>
  inferInstanceAs (Decidable (n.exactValue?.all fun v => InRange v))

/-- The value of a node is out of range, and that of no part below it is. -/
def IsOverflow (n : Node) : Prop := ¬ n.Fits ∧ ∀ m ∈ n.children, m.All Fits

instance : DecidablePred IsOverflow := fun n =>
  inferInstanceAs (Decidable (¬ n.Fits ∧ ∀ m ∈ n.children, m.All Fits))

/-- The minimal parts of a tree with a value out of range, from left to right. -/
def overflows (n : Node) : List Node := n.preorder.filter fun m => m.IsOverflow

/-- What is reported for an operator whose result is out of range. -/
inductive Overflow : Node → Diagnostic → Prop
  | mk {id line : Nat} {op : Arith} {left right : Node} {a b : Int64}
      (left_eq : left.exactValue? = some a.toInt) (right_eq : right.exactValue? = some b.toInt) :
      Overflow ⟨id, line, .arith op left right⟩
        (.runtime (.arithmetic (.overflow op a b)) line)

theorem overflows_eq (n : Node) :
    n.overflows = (if n.IsOverflow then [n] else []) ++ n.children.flatMap overflows := by
  have hchildren : n.children.flatMap overflows =
      (n.children.flatMap preorder).filter fun m => m.IsOverflow := by
    rw [List.filter_flatMap]
    rfl
  unfold overflows at hchildren ⊢
  rw [hchildren, preorder_eq, List.filter_cons]
  simp only [decide_eq_true_eq]
  split <;> rfl

theorem overflows_of_all {n : Node} (h : n.All Fits) : n.overflows = [] :=
  List.filter_eq_nil_iff.mpr fun m hm hover => (of_decide_eq_true hover).1 (h m hm)

theorem fits_iff {n : Node} {v : Int} (h : n.exactValue? = some v) : n.Fits ↔ InRange v := by
  simp [Fits, h]

/-- An operator with an exact value has operands with exact values. -/
theorem exactValue?_arith {id line : Nat} {op : Arith} {left right : Node} {v : Int}
    (h : exactValue? ⟨id, line, .arith op left right⟩ = some v) :
    ∃ a b, left.exactValue? = some a ∧ right.exactValue? = some b ∧
      op.exactResult? a b = some v := by
  simp only [exactValue?, Option.bind_eq_some_iff] at h
  obtain ⟨a, ha, b, hb, hv⟩ := h
  exact ⟨a, b, ha, hb, hv⟩

end Node

/-- Words are added, subtracted and multiplied exactly or not at all. -/
theorem apply_of_exactResult? {op : Arith} {a b : Int64} {v : Int}
    (h : op.exactResult? a.toInt b.toInt = some v) :
    Value.apply op (.int a) (.int b) = Value.inWord op a b (word? v) := by
  cases op <;> cases h <;> rfl

theorem diagnostics_foldl_record (ds : List Diagnostic) (c : Context) :
    (ds.foldl Context.record c).diagnostics = c.diagnostics ++ ds := by
  induction ds generalizing c with
  | nil => simp
  | cons d ds ih =>
    have hone : (c.record d).diagnostics = c.diagnostics.push d := by
      unfold Context.record Context.write
      split <;> rfl
    rw [List.foldl_cons, ih, hone]
    simp

namespace Gives

variable {s : Scopes}

/-- Of an operand that reports something or has a value nothing further is reported. -/
theorem operand_of_settled {ev : Evaluator} {n : Node} {x : Option Value} {ds : List Diagnostic}
    (h : Gives s (ev n) x ds) (hds : x = none → ds ≠ []) : Gives s (Eval.operand ev n) x ds := by
  intro c hc
  refine run_bind_eq_some.mpr ⟨c, c, rfl, ?_⟩
  refine run_bind_eq_some.mpr ⟨_, _, h c hc, ?_⟩
  refine run_bind_eq_some.mpr ⟨_, _, rfl, ?_⟩
  have hsize := Context.Records.size_eq ds c
  have hreported : ¬ (x.isNone ∧
      (ds.foldl Context.record c).diagnostics.size = c.diagnostics.size) := by
    rintro ⟨hnone, hsame⟩
    have hlength := List.length_pos_iff.mpr (hds (Option.isNone_iff_eq_none.mp hnone))
    omega
  rw [if_neg hreported]
  rfl

/-- Two operands of which one has no value are not combined. -/
theorem combine_of_missing {ev : Evaluator} {line : Nat} {left right : Node}
    {f : Value → Value → Except Fault Value} {x y : Option Value} {ds es : List Diagnostic}
    (hleft : Gives s (Eval.operand ev left) x ds) (hright : Gives s (Eval.operand ev right) y es)
    (hmissing : x = none ∨ y = none) : Gives s (combine ev line left right f) none (ds ++ es) := by
  rw [← List.append_nil es]
  refine hleft.bind (hright.bind ?_)
  rcases hmissing with rfl | rfl
  · exact pure none
  · cases x <;> exact pure none

/-- Two operands that do not combine are reported. -/
theorem combine_of_error {ev : Evaluator} {line : Nat} {left right : Node}
    {f : Value → Value → Except Fault Value} {a b : Value} {fault : Fault}
    (hleft : Gives s (Eval.operand ev left) (some a) [])
    (hright : Gives s (Eval.operand ev right) (some b) []) (hfault : f a b = .error fault) :
    Gives s (combine ev line left right f) none [.runtime fault line] := by
  refine hleft.bind (hright.bind ?_)
  simp only [hfault]
  exact settle_error fault line

end Gives

namespace Optimize

/-! ## What becomes of an expression -/

/-- A run of `n'`, which `n` has become, yields `x` and reports just the overflows of
    `n`. Where it yields nothing, there are some. -/
structure Outcome (n n' : Node) (x : Option Value) (ds : List Diagnostic) : Prop where
  reports : List.Forall₂ Node.Overflow n.overflows ds
  reported : x = none → ds ≠ []
  gives : ∀ s bound, n.size ≤ bound → Gives s (eval bound n') x ds

/-- What an expression with the value `v` becomes. -/
inductive Becomes (n : Node) (v : Int) (n' : Node) : Prop
  /-- the literal of its value -/
  | literal {w : Int64} (fits : n.All Node.Fits) (form : n'.form = .int w) (value : w.toInt = v)
  /-- an operator that has no value -/
  | operator {op : Arith} {left right : Node} {ds : List Diagnostic} (unfit : ¬ n.All Node.Fits)
      (form : n'.form = .arith op left right) (outcome : Outcome n n' none ds)

/-- A literal yields its value. -/
theorem outcome_literal {n n' : Node} {w : Int64} (hfits : n.All Node.Fits)
    (hform : n'.form = .int w) : Outcome n n' (some (.int w)) [] where
  reports := by
    rw [Node.overflows_of_all hfits]
    exact .nil
  reported := nofun
  gives := by
    intro s bound hbound c hc
    have hpos := n.size_pos
    obtain ⟨bound, rfl⟩ : ∃ b, bound = b + 1 := ⟨bound - 1, by omega⟩
    refine holds_literal ?_ c bound
    simp [literalValue?, hform]

theorem Becomes.outcome {n n' : Node} {v : Int} (h : Becomes n v n') :
    ∃ x ds, Outcome n n' x ds := by
  cases h with
  | literal fits form value => exact ⟨_, _, outcome_literal fits form⟩
  | operator unfit form outcome => exact ⟨_, _, outcome⟩

/-- What an expression becomes is no variable, so that no identity applies around it. -/
theorem Becomes.isRead_eq {n n' : Node} {v : Int} (h : Becomes n v n') : isRead n' = false := by
  cases h with
  | literal fits form value => simp [isRead, form]
  | operator unfit form outcome => simp [isRead, form]

/-- Around an operator nothing folds. -/
theorem foldLiterals?_of_operator {op : Arith} {left right : Node}
    (h : literalValue? left = none ∨ literalValue? right = none) :
    foldLiterals? op left right = none := by
  unfold foldLiterals?
  rcases h with h | h
  · rw [h]
  · rw [h]
    cases literalValue? left <;> rfl

/-- An operator that does not fold and around which no identity applies stays. -/
theorem simplifyArith_stays {id line k : Nat} {op : Arith} {left right : Node}
    (hfold : foldLiterals? op left right = none) (hleft : isRead left = false)
    (hright : isRead right = false) :
    ((simplifyArith id line op left right).run k).1 = ⟨id, line, .arith op left right⟩ := by
  have hnone : match? op left right = none := by simp [match?, hleft, hright]
  unfold simplifyArith
  rw [hfold, hnone]
  rfl

section Operator

variable {id line : Nat} {op : Arith} {left right left' right' : Node}

/-- Within the size of an operator the operands are evaluated within theirs. -/
theorem exists_bound {bound : Nat}
    (h : (⟨id, line, .arith op left right⟩ : Node).size ≤ bound) :
    ∃ more, bound = more + 1 ∧ left.size ≤ more ∧ right.size ≤ more := by
  have hleft : left.size < (⟨id, line, .arith op left right⟩ : Node).size :=
    Node.size_lt_of_mem_children (by simp [Node.children, Form.children])
  have hright : right.size < (⟨id, line, .arith op left right⟩ : Node).size :=
    Node.size_lt_of_mem_children (by simp [Node.children, Form.children])
  exact ⟨bound - 1, by omega, by omega, by omega⟩

theorem all_fits_arith :
    (⟨id, line, .arith op left right⟩ : Node).All Node.Fits ↔
      (⟨id, line, .arith op left right⟩ : Node).Fits ∧
        left.All Node.Fits ∧ right.All Node.Fits := by
  rw [Node.all_iff]
  simp [Node.children, Form.children]

theorem overflows_arith :
    (⟨id, line, .arith op left right⟩ : Node).overflows =
      (if (⟨id, line, .arith op left right⟩ : Node).IsOverflow
        then [⟨id, line, .arith op left right⟩] else []) ++
        (left.overflows ++ right.overflows) := by
  rw [Node.overflows_eq]
  simp [Node.children, Form.children]

/-- An operator one of whose operands has no value reports what these report. -/
theorem Outcome.arith_of_missing {x y : Option Value} {ds es : List Diagnostic}
    (hunfit : ¬ (left.All Node.Fits ∧ right.All Node.Fits)) (hleft : Outcome left left' x ds)
    (hright : Outcome right right' y es) (hmissing : x = none ∨ y = none) :
    Outcome ⟨id, line, .arith op left right⟩ ⟨id, line, .arith op left' right'⟩ none
      (ds ++ es) where
  reports := by
    have houter : ¬ (⟨id, line, .arith op left right⟩ : Node).IsOverflow := fun hover =>
      hunfit ⟨hover.2 left (by simp [Node.children, Form.children]),
        hover.2 right (by simp [Node.children, Form.children])⟩
    rw [overflows_arith, if_neg houter]
    exact List.rel_append hleft.reports hright.reports
  reported := by
    rintro -
    rcases hmissing with rfl | rfl
    · exact List.append_ne_nil_of_left_ne_nil (hleft.reported rfl) es
    · exact List.append_ne_nil_of_right_ne_nil ds (hright.reported rfl)
  gives := by
    intro s bound hbound
    obtain ⟨more, rfl, hl, hr⟩ := exists_bound hbound
    exact .combine_of_missing ((hleft.gives s more hl).operand_of_settled hleft.reported)
      ((hright.gives s more hr).operand_of_settled hright.reported) hmissing

/-- An operator whose result is out of range is reported, if its operands have become
    literals. -/
theorem Outcome.arith_of_overflow {a b : Int64} {v : Int}
    (ha : left.exactValue? = some a.toInt) (hb : right.exactValue? = some b.toInt)
    (hv : op.exactResult? a.toInt b.toInt = some v) (hrange : ¬ InRange v)
    (hfits : left.All Node.Fits) (hfits' : right.All Node.Fits)
    (hleft : left'.form = .int a) (hright : right'.form = .int b) :
    Outcome ⟨id, line, .arith op left right⟩ ⟨id, line, .arith op left' right'⟩ none
      [.runtime (.arithmetic (.overflow op a b)) line] where
  reports := by
    have hexact : Node.exactValue? ⟨id, line, .arith op left right⟩ = some v := by
      simp [Node.exactValue?, ha, hb, hv]
    have houter : (⟨id, line, .arith op left right⟩ : Node).IsOverflow := by
      refine ⟨fun hfit => hrange ((Node.fits_iff hexact).mp hfit), ?_⟩
      exact forall_mem_two.mpr ⟨hfits, hfits'⟩
    rw [overflows_arith, if_pos houter, Node.overflows_of_all hfits, Node.overflows_of_all hfits']
    exact .cons (.mk ha hb) .nil
  reported := by simp
  gives := by
    intro s bound hbound
    obtain ⟨more, rfl, hl, hr⟩ := exists_bound hbound
    refine .combine_of_error
      (((outcome_literal hfits hleft).gives s more hl).operand_of_settled nofun)
      (((outcome_literal hfits' hright).gives s more hr).operand_of_settled nofun) ?_
    rw [apply_of_exactResult? hv, word?_eq_none_iff.mpr hrange]
    rfl

/-- What becomes of an operator, from what becomes of its operands. -/
theorem becomes_arith {v a b : Int} (k : Nat) (ha : left.exactValue? = some a)
    (hb : right.exactValue? = some b) (hv : op.exactResult? a b = some v)
    (hleft : Becomes left a left') (hright : Becomes right b right') :
    Becomes ⟨id, line, .arith op left right⟩ v
      ((simplifyArith id line op left' right').run k).1 := by
  have hstays : foldLiterals? op left' right' = none →
      ((simplifyArith id line op left' right').run k).1 = ⟨id, line, .arith op left' right'⟩ :=
    fun h => simplifyArith_stays h hleft.isRead_eq hright.isRead_eq
  cases hleft with
  | literal fits form value =>
    cases hright with
    | literal fits' form' value' =>
      subst value value'
      rename_i w w'
      have hexact : Node.exactValue? ⟨id, line, .arith op left right⟩ = some v := by
        simp [Node.exactValue?, ha, hb, hv]
      have hfold : foldLiterals? op left' right' = (word? v).map .int := by
        simp only [foldLiterals?, literalValue?, form, form', apply_of_exactResult? hv]
        cases word? v <;> rfl
      by_cases hrange : InRange v
      · obtain ⟨u, hu⟩ := Option.ne_none_iff_exists'.mp
          (mt word?_eq_none_iff.mp (not_not.mpr hrange))
        refine .literal (w := u) ?_ ?_ (word?_eq_some_iff.mp hu)
        · exact all_fits_arith.mpr ⟨(Node.fits_iff hexact).mpr hrange, fits, fits'⟩
        · unfold simplifyArith
          rw [hfold, hu]
          rfl
      · have hnone : foldLiterals? op left' right' = none := by
          rw [hfold, word?_eq_none_iff.mpr hrange]
          rfl
        rw [hstays hnone]
        exact .operator (fun h => hrange ((Node.fits_iff hexact).mp h.root)) rfl
          (.arith_of_overflow ha hb hv hrange fits fits' form form')
    | operator unfit form' outcome =>
      rw [hstays (foldLiterals?_of_operator (.inr (by simp [literalValue?, form'])))]
      exact .operator (fun h => unfit (all_fits_arith.mp h).2.2) rfl
        (.arith_of_missing (fun h => unfit h.2) (outcome_literal fits form) outcome (.inr rfl))
  | operator unfit form outcome =>
    rw [hstays (foldLiterals?_of_operator (.inl (by simp [literalValue?, form])))]
    obtain ⟨y, es, outcome'⟩ := hright.outcome
    exact .operator (fun h => unfit (all_fits_arith.mp h).2.1) rfl
      (.arith_of_missing (fun h => unfit h.1) outcome outcome' (.inl rfl))

end Operator

/-- **An integer expression becomes a literal or stays an operator**: the literal of its
    value if all its parts fit, and otherwise an operator that reports its overflows. -/
theorem rewritten_of_exactValue? {n n' : Node} {v : Int} (h : n.exactValue? = some v)
    (hn : Rewritten n n') : Becomes n v n' := by
  induction n using Node.induction generalizing n' v with
  | h n ih =>
    obtain ⟨id, line, form⟩ := n
    cases form with
    | int w =>
      obtain ⟨k, rfl⟩ := hn
      obtain rfl : w.toInt = v := Option.some.inj h
      have hfits : (⟨id, line, .int w⟩ : Node).Fits := (Node.fits_iff h).mpr (inRange_toInt w)
      exact .literal (Node.all_iff.mpr ⟨hfits, nofun⟩) rfl rfl
    | arith op left right =>
      obtain ⟨left', right', k, hleft, hright, rfl⟩ := hn.arith
      obtain ⟨a, b, ha, hb, hv⟩ := Node.exactValue?_arith h
      exact becomes_arith k ha hb hv (ih left (by simp [Node.children, Form.children]) ha hleft)
        (ih right (by simp [Node.children, Form.children]) hb hright)
    | _ => cases h

/-- Dropping dead code leaves literals and operators alone. -/
theorem optimize_of_exactValue? {n : Node} {v : Int} (h : n.exactValue? = some v)
    (dropDeadCode : Bool) (free : Nat) :
    ((optimize dropDeadCode n).run free).1 = ((simplify n).run free).1 := by
  have hstays : eliminate ((simplify n).run free).1 = ((simplify n).run free).1 := by
    have hsweep : sweepProgram ((simplify n).run free).1 = ((simplify n).run free).1 := by
      generalize hn : ((simplify n).run free).1 = n'
      obtain ⟨id, line, form⟩ := n'
      cases rewritten_of_exactValue? h ⟨free, hn.symm⟩ with
      | literal fits form value =>
        subst form
        rfl
      | operator unfit form outcome =>
        subst form
        rfl
    rw [eliminate]
    simp [hsweep]
  cases dropDeadCode with
  | false => rfl
  | true => exact hstays

end Optimize

/-- **Integer expressions fold to their exact value or report where they overflow.** An
    expression of integer literals, sums, differences and products is optimised to the
    literal of its exact value just if the values of all its parts are in range.
    Otherwise it is no literal, and in every context it ends without a value, having
    reported, from left to right, each minimal part whose value is out of range, and
    having done nothing else. -/
theorem optimize_int_iff {n : Node} {v : Int} (h : n.exactValue? = some v) (dropDeadCode : Bool)
    (free : Nat) :
    let n' := ((optimize dropDeadCode n).run free).1
    ((∃ w : Int64, n'.form = .int w ∧ w.toInt = v) ↔ ∀ m ∈ n.preorder, m.Fits) ∧
      (¬ (∀ m ∈ n.preorder, m.Fits) → literalValue? n' = none ∧
        ∃ ds : List Diagnostic, List.Forall₂ Node.Overflow n.overflows ds ∧ ∀ c : Context,
          Evaluates n' c none (ds.foldl Context.record c) ∧
            (ds.foldl Context.record c).diagnostics = c.diagnostics ++ ds) := by
  intro n'
  have hn' : Rewritten n n' := ⟨free, optimize_of_exactValue? h dropDeadCode free⟩
  cases rewritten_of_exactValue? h hn' with
  | literal fits form value =>
    exact ⟨⟨fun _ => fits, fun _ => ⟨_, form, value⟩⟩, fun hunfit => absurd fits hunfit⟩
  | @operator op left right ds unfit form outcome =>
    refine ⟨⟨fun ⟨w, hw, _⟩ => ?_, fun hfits => absurd hfits unfit⟩, fun _ => ⟨?_, ds, ?_⟩⟩
    · rw [form] at hw
      cases hw
    · simp [literalValue?, form]
    · refine ⟨outcome.reports, fun c => ⟨⟨n.size, outcome.gives c.scopes _ le_rfl c rfl⟩, ?_⟩⟩
      exact diagnostics_foldl_record ds c

/-- Two overflows in an expression whose own value is in range. -/
theorem optimize_int_iff_of_two_overflows :
    let first : Node := ⟨2, 1, .arith .add ⟨0, 1, .int 9223372036854775807⟩ ⟨1, 1, .int 1⟩⟩
    let second : Node := ⟨8, 2, .arith .sub ⟨6, 2, .int (-9223372036854775808)⟩ ⟨7, 2, .int 1⟩⟩
    let n : Node := ⟨10, 1, .arith .sub ⟨4, 1, .arith .sub first ⟨3, 1, .int 1⟩⟩
      ⟨9, 2, .arith .mul ⟨5, 2, .int 0⟩ second⟩⟩
    n.exactValue? = some 9223372036854775807 ∧ ∀ c : Context, ∃ d,
      Evaluates ((optimize true n).run 11).1 c none d ∧
        d.diagnostics.size = c.diagnostics.size + 2 := by
  intro first second n
  have hexact : n.exactValue? = some 9223372036854775807 := by decide +kernel
  have hunfit : ¬ ∀ m ∈ n.preorder, m.Fits := by decide +kernel
  have hcount : n.overflows.length = 2 := by decide +kernel
  obtain ⟨-, ds, hreports, hends⟩ := (optimize_int_iff hexact true 11).2 hunfit
  refine ⟨hexact, fun c => ⟨_, (hends c).1, ?_⟩⟩
  rw [Context.Records.size_eq, ← hreports.length_eq, hcount]

end Scriptlet
