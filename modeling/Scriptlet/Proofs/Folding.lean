import Scriptlet.Proofs.Bound
import Scriptlet.Proofs.Faithful

/-!
# Folding is exact

Where no identity applies, all that simplification does is to fold operators
between literals and to drop comments. Folding computes what the running program
would compute, and leaves alone what would fail. So the tree and its
simplification are evaluated alike, failures included: both end or none does,
with the same value, output, scopes and diagnostics.

Towards the simplified tree the runs are coupled within the same bound. Towards
the tree itself the bound grows: a literal may stand for operators as deep as the
tree. The size of the tree is enough, also for the bodies of its functions, which
are parts of it.

Results:
* `eval_of_literal`: a tree that folds to a literal evaluates to its value.
* `couples_fold`, `couples_unfold`: the runs are coupled in both directions.
* `evaluates_simplify_of_identityFree`: the runs are the same.
* `evaluates_simplify_of_separated`: the same, where the condition is read off the
  operands.
-/

namespace Scriptlet

open Eval Optimize

namespace Optimize

/-! ## Trees without identities -/

/-- Whether no identity applies to a node, once its operands are simplified. -/
def isUnmatched (n : Node) : Bool :=
  match n.form with
  | .arith op left right => (match? op (simplified left) (simplified right)).isNone
  | _ => true

/-- No identity applies anywhere in a tree. -/
def IdentityFree (n : Node) : Prop := n.All fun m => isUnmatched m

/-- What becomes of an operator that folds: the literal of its value, on its
    line. -/
structure Folds (op : Arith) (left right n' : Node) (v : Value) : Prop where
  operands : ∃ left' right' a b, Rewritten left left' ∧ Rewritten right right' ∧
    literalValue? left' = some a ∧ literalValue? right' = some b ∧ Value.apply op a b = .ok v
  literal : literalValue? n' = some v

/-- **An operator folds or stays**, if no identity applies. -/
theorem IdentityFree.folds_or_stays {id line : Nat} {op : Arith} {left right n' : Node}
    (h : IdentityFree ⟨id, line, .arith op left right⟩)
    (hn : Rewritten ⟨id, line, .arith op left right⟩ n') :
    n'.line = line ∧ ((∃ v, Folds op left right n' v) ∨
      ∃ left' right', n'.form = .arith op left' right' ∧ Rewritten left left' ∧
        Rewritten right right') := by
  obtain ⟨left', right', k, hleft, hright, rfl⟩ := hn.arith
  have hnone : match? op left' right' = none := by
    have hkey : (match? op left' right').map Match.key = _ := hleft.match?_key hright
    rw [Option.isNone_iff_eq_none.mp h.root] at hkey
    simpa using hkey
  unfold simplifyArith
  split
  · next form hfold =>
    obtain ⟨a, b, v, ha, hb, hv, hform⟩ := literalValue?_of_foldLiterals? hfold k line
    exact ⟨rfl, .inl ⟨v, ⟨left', right', a, b, hleft, hright, ha, hb, hv⟩, hform⟩⟩
  · rw [hnone]
    exact ⟨rfl, .inr ⟨left', right', rfl, hleft, hright⟩⟩

/-! ## What is read off a node -/

theorem IdentityFree.line_eq {n n' : Node} (h : IdentityFree n) (hn : Rewritten n n') :
    n'.line = n.line := by
  obtain ⟨id, line, form⟩ := n
  cases form with
  | arith op left right => exact (h.folds_or_stays hn).1
  | _ =>
    obtain ⟨k, rfl⟩ := hn
    rfl

/-- A folded operator stands for no name, and no more does an operator. -/
theorem IdentityFree.name?_eq {n n' : Node} (h : IdentityFree n) (hn : Rewritten n n') :
    n'.name? = n.name? := by
  obtain ⟨id, line, form⟩ := n
  cases form with
  | arith op left right =>
    rcases (h.folds_or_stays hn).2 with ⟨v, hfold⟩ | ⟨left', right', hform, -⟩
    · obtain ⟨_, _, form'⟩ := n'
      cases form' <;> first | rfl | cases hfold.literal
    · simp [Node.name?, hform]
  | _ =>
    obtain ⟨k, rfl⟩ := hn
    rfl

/-- Only a variable becomes a variable. -/
theorem IdentityFree.isRead {n n' : Node} (h : IdentityFree n) (hn : Rewritten n n')
    (hread : isRead n' = true) : isRead n = true := by
  obtain ⟨x, hx⟩ := isRead_iff.mp hread
  have hname : n.name? = some x := by
    rw [← h.name?_eq hn]
    simp [Node.name?, hx]
  rcases name?_eq_some_iff.mp hname with hlabel | hatom
  · rw [← hn.label?_eq] at hlabel
    simp [Node.label?, hx] at hlabel
  · exact isRead_iff.mpr ⟨x, form_eq_of_atom? hatom⟩

/-- No operator has a variable as one operand and, as the other, one that becomes a
    number. -/
def Separated (n : Node) : Prop :=
  match n.form with
  | .arith _ left right =>
    ¬ (isRead left = true ∧ (simplified right).isNumber = true) ∧
      ¬ ((simplified left).isNumber = true ∧ isRead right = true)
  | _ => True

/-- Without such operators no identity applies. -/
theorem identityFree_of_separated {n : Node} (h : n.All Separated) : IdentityFree n := by
  induction n using Node.induction with
  | h n ih =>
    have hparts : ∀ m ∈ n.children, IdentityFree m := fun m hm => ih m hm (h.child hm)
    refine Node.all_iff.mpr ⟨?_, hparts⟩
    have hroot := h.root
    obtain ⟨id, line, form⟩ := n
    cases form with
    | arith op left right =>
      obtain ⟨hleft, hright⟩ := forall_mem_two.mp hparts
      refine Option.isNone_iff_eq_none.mpr (Option.eq_none_iff_forall_ne_some.mpr fun m hm => ?_)
      obtain ⟨hread, hnumber, ⟨-, hoperand, hliteral, -⟩ | ⟨-, hoperand, hliteral, -⟩⟩ :=
        match?_eq_some hm
      · rw [hoperand] at hread
        exact hroot.2 ⟨hliteral ▸ hnumber, hright.isRead ⟨0, rfl⟩ hread⟩
      · rw [hoperand] at hread
        exact hroot.1 ⟨hleft.isRead ⟨0, rfl⟩ hread, hliteral ▸ hnumber⟩
    | _ => rfl

/-- **A node folds or corresponds to what becomes of it**, if no identity
    applies. -/
theorem IdentityFree.folds_or_corresponds {n n' : Node} (h : IdentityFree n)
    (hn : Rewritten n n') :
    (∃ op left right v, n.form = .arith op left right ∧ Folds op left right n' v) ∨
      n.Corresponds (fun m m' => m ∈ n.children ∧ Rewritten m m') n' := by
  by_cases harith : ∃ op left right, n.form = .arith op left right
  · obtain ⟨op, left, right, hform⟩ := harith
    obtain ⟨id, line, form⟩ := n
    obtain rfl : form = .arith op left right := hform
    rcases (h.folds_or_stays hn).2 with ⟨v, hfold⟩ | ⟨left', right', hform, hleft, hright⟩
    · exact .inl ⟨op, left, right, v, rfl, hfold⟩
    · refine .inr (.of_forms (.arith op (left, left') (right, right')) rfl hform ?_ ?_)
      · exact forall_mem_two.mpr
          ⟨⟨by simp [Node.children, Form.children], hleft⟩,
            by simp [Node.children, Form.children], hright⟩
      · simp [Form.names]
  · refine .inr (hn.corresponds (fun op l r hform => harith ⟨op, l, r, hform⟩) fun m hm => ?_)
    exact IdentityFree.name?_eq (h.child (Form.mem_children_of_mem_names hm)) ⟨0, rfl⟩

end Optimize

/-! ## Runs -/

/-- **A tree that folds to a literal evaluates to its value**, without a trace and
    within its size. -/
theorem eval_of_literal {n n' : Node} {v : Value} (h : IdentityFree n) (hn : Rewritten n n')
    (hv : literalValue? n' = some v) {bound : Nat} (hbound : n.size ≤ bound) (c : Context) :
    (eval bound n).run c = some (some v, c) := by
  induction n using Node.induction generalizing n' v bound with
  | h n ih =>
  have hpos : 0 < n.size := by rw [Node.size_eq]; omega
  obtain ⟨more, rfl⟩ : ∃ more, bound = more + 1 := ⟨bound - 1, by omega⟩
  rcases h.folds_or_corresponds hn with ⟨op, left, right, w, hform, hfold⟩ | hsame
  · obtain ⟨left', right', a, b, hleft, hright, ha, hb, hw⟩ := hfold.operands
    obtain rfl : w = v := Option.some.inj (hfold.literal.symm.trans hv)
    have hmem : left ∈ n.children ∧ right ∈ n.children := by
      simp [Node.children, hform, Form.children]
    have hsize := Node.size_lt_of_mem_children hmem.1
    have hsize' := Node.size_lt_of_mem_children hmem.2
    have h1 : (eval more left).run c = some (some a, c) :=
      ih left hmem.1 (h.child hmem.1) hleft ha (by omega)
    have h2 : (eval more right).run c = some (some b, c) :=
      ih right hmem.2 (h.child hmem.2) hright hb (by omega)
    obtain ⟨id, line, form⟩ := n
    obtain rfl : form = .arith op left right := hform
    refine run_bind_eq_some.mpr ⟨some a, c, run_operand_eq_some.mpr h1, ?_⟩
    refine run_bind_eq_some.mpr ⟨some b, c, run_operand_eq_some.mpr h2, ?_⟩
    exact run_settle_eq_some.mpr ⟨hw, rfl⟩
  · cases hsame with
    | block => cases hv
    | same pairs =>
      cases pairs with
      | int i => cases hv; rfl
      | float x => cases hv; rfl
      | _ => cases hv

/-- A tree of a limited size beside its simplification, where no identity
    applies. -/
def Plain (size : Nat) (n n' : Node) : Prop :=
  (IdentityFree n ∧ n.size ≤ size) ∧ Rewritten n n'

theorem Plain.child {size : Nat} {n n' m m' : Node} (h : Plain size n n') (hm : m ∈ n.children)
    (hrewritten : Rewritten m m') : Plain size m m' :=
  ⟨⟨h.1.1.child hm, (Node.size_lt_of_mem_children hm).le.trans h.1.2⟩, hrewritten⟩

theorem reports_plain (size : Nat) : Node.Reports (Plain size) Eq where
  toRecognizes := recognizes_rewritten fun _ hn _ hm =>
    ⟨hn.1.child hm, (Node.size_lt_of_mem_children hm).le.trans hn.2⟩
  line h := (h.1.1.line_eq h.2).symm
  name?_eq h := h.1.1.name?_eq h.2

theorem Plain.folds_or_corresponds {size : Nat} {n n' : Node} (h : Plain size n n') :
    (∃ op left right v, n.form = .arith op left right ∧ Folds op left right n' v) ∨
      n.Corresponds (Plain size) n' :=
  (h.1.1.folds_or_corresponds h.2).imp_right fun hsame =>
    hsame.mono fun _ _ hm => h.child hm.1 hm.2

/-- An operand that is coupled to a literal has the value of the literal. -/
theorem operand_of_literal {R : Context → Context → Prop} {bound : Nat} {n n' : Node} {v : Value}
    {c d c' : Context} {x : Option Value}
    (h : Couples R (operand (eval bound) n) (operand (eval bound) n'))
    (hv : literalValue? n' = some v) (hcd : R c d)
    (hrun : (operand (eval bound) n).run c = some (x, c')) : x = some v ∧ R c' d := by
  obtain ⟨d', hd', hcd'⟩ := h c d x c' hcd hrun
  cases bound with
  | zero => cases hd'
  | succ bound =>
    rw [run_operand_of_holds (holds_literal hv d)] at hd'
    cases hd'
    exact ⟨rfl, hcd'⟩

/-- The simplified tree follows every run of the tree. -/
theorem couples_fold (size bound : Nat) : ∀ n n', Plain size n n' →
    Couples (Context.Tied (Plain size)) (eval bound n) (eval bound n') := by
  induction bound with
  | zero => exact fun _ _ _ => .exhausted _
  | succ bound ih =>
    intro n n' h
    rcases h.folds_or_corresponds with ⟨op, left, right, v, hform, hfold⟩ | hsame
    · -- the operands are coupled to literals, so they have the values of these
      intro c d x c' htied hrun
      obtain ⟨left', right', a, b, hleft, hright, ha, hb, hv⟩ := hfold.operands
      have hpart : ∀ m m', m ∈ n.children → Rewritten m m' →
          Couples (Context.Tied (Plain size)) (operand (eval bound) m) (operand (eval bound) m') :=
        fun m m' hm hrewritten =>
          .operand (coupling_tied _) (reports_plain size) ih (h.child hm hrewritten)
      obtain ⟨id, line, form⟩ := n
      obtain rfl : form = .arith op left right := hform
      obtain ⟨x₁, c₁, h1, hrun⟩ := run_bind_eq_some.mp hrun
      obtain ⟨rfl, htied₁⟩ := operand_of_literal
        (hpart left left' (by simp [Node.children, Form.children]) hleft) ha htied h1
      obtain ⟨x₂, c₂, h2, hrun⟩ := run_bind_eq_some.mp hrun
      obtain ⟨rfl, htied₂⟩ := operand_of_literal
        (hpart right right' (by simp [Node.children, Form.children]) hright) hb htied₁ h2
      simp only [hv] at hrun
      obtain ⟨rfl, rfl⟩ := run_pure_eq_some.mp hrun
      exact ⟨d, holds_literal hfold.literal d bound, htied₂⟩
    · exact .step (coupling_tied _) (reports_plain size) ih (Nat.le_refl bound)
        ((reports_plain size).line h) hsame

/-- The tree follows every run of the simplified tree. -/
theorem couples_unfold (size bound : Nat) : ∀ n n', Plain size n n' →
    Couples (fun d c => Context.Tied (Plain size) c d) (eval bound n') (eval (bound + size) n) := by
  induction bound with
  | zero => exact fun _ _ _ => .exhausted _
  | succ bound ih =>
    intro n n' h
    rw [Nat.add_right_comm]
    rcases h.folds_or_corresponds with ⟨op, left, right, v, hform, hfold⟩ | hsame
    · intro d c x d' htied hrun
      obtain ⟨rfl, rfl⟩ : some v = x ∧ d = d' := by
        simpa using (holds_literal hfold.literal d bound).symm.trans hrun
      refine ⟨c, eval_of_literal h.1.1 h.2 hfold.literal ?_ c, htied⟩
      have := h.1.2
      omega
    · exact .step (coupling_tied _).symm (reports_plain size).symm (fun n' n h => ih n n' h)
        (Nat.le_add_right bound size) ((reports_plain size).line h) hsame.symm

/-- What a run leaves for others to see. -/
def SeenAlike (d d' : Context) : Prop :=
  d'.output = d.output ∧ d'.scopes = d.scopes ∧ d'.diagnostics = d.diagnostics

/-- Two trees of which the second follows the first and ends only if the first does
    run for ever alike or end alike. -/
theorem endless_or_ends {n n' : Node} {c : Context}
    (hforth : ∀ value d, Evaluates n c value d → ∃ d', Evaluates n' c value d' ∧ SeenAlike d d')
    (hback : Terminates n' c → Terminates n c) :
    ¬ Terminates n c ∧ ¬ Terminates n' c ∨
      ∃ value d d', Evaluates n c value d ∧ Evaluates n' c value d' ∧ SeenAlike d d' := by
  by_cases hends : Terminates n c
  · obtain ⟨value, d, hrun⟩ := hends
    obtain ⟨d', hrun', hsame⟩ := hforth value d hrun
    exact .inr ⟨value, d, d', hrun, hrun', hsame⟩
  · exact .inl ⟨hends, fun hends' => hends (hback hends')⟩

section New

variable {n : Node} (hfree : IdentityFree n) {c : Context} (hnew : c.functions = []) (free : Nat)

include hfree hnew

theorem evaluates_folded {value : Option Value} {d : Context} (hrun : Evaluates n c value d) :
    ∃ d', Evaluates ((simplify n).run free).1 c value d' ∧ SeenAlike d d' := by
  obtain ⟨bound, hrun⟩ := hrun
  obtain ⟨d', hrun', hsame⟩ := couples_fold n.size bound _ _ ⟨⟨hfree, le_rfl⟩, free, rfl⟩ c c
    value d (.of_new hnew) hrun
  exact ⟨d', ⟨bound, hrun'⟩, hsame.output_eq, hsame.scopes_eq, hsame.diagnostics_eq⟩

theorem terminates_of_folded (hends : Terminates ((simplify n).run free).1 c) :
    Terminates n c := by
  obtain ⟨value, d', bound, hrun'⟩ := hends
  obtain ⟨d, hrun, -⟩ := couples_unfold n.size bound _ _ ⟨⟨hfree, le_rfl⟩, free, rfl⟩ c c
    value d' (.of_new hnew) hrun'
  exact ⟨value, d, bound + n.size, hrun⟩

end New

/-- **Folding is exact, failures included.** If no identity applies anywhere in a
    tree, then in a context without functions the tree and its simplification both
    run for ever, or both end with the same value, the same output, the same scopes
    and the same diagnostics. -/
theorem evaluates_simplify_of_identityFree {n : Node} (hfree : IdentityFree n) {c : Context}
    (hnew : c.functions = []) (free : Nat) :
    ¬ Terminates n c ∧ ¬ Terminates ((simplify n).run free).1 c ∨
      ∃ value d d', Evaluates n c value d ∧ Evaluates ((simplify n).run free).1 c value d' ∧
        d'.output = d.output ∧ d'.scopes = d.scopes ∧ d'.diagnostics = d.diagnostics :=
  endless_or_ends (fun _ _ => evaluates_folded hfree hnew free)
    (terminates_of_folded hfree hnew free)

/-- A program in which folds succeed and fail: the divisor folds to zero, so the
    division stays and is reported on its line, as are the variable that is missing
    then and an argument that folds before the function fails on it. -/
theorem evaluates_simplify_of_failed_folds :
    let source := "x := 2 * 3 + 1 # seven\ny := 1 / (2 - 2)\nprint(x + y)\n" ++
      "function f(a: float) = { a + true }\nf(1.5 - 0.5)"
    let n := (parsed {} source).1
    let c := Context.initial 128 false true
    ∃ value d d', IdentityFree n ∧ Evaluates n c value d ∧
      Evaluates ((simplify n).run 100).1 c value d' ∧
      d.diagnostics = #[.runtime (.arithmetic .divisionByZero) 2, .runtime (.undeclared "y") 3,
        .runtime (.mismatch (.operands .add .float .bool)) 4] ∧
      d'.output = d.output ∧ d'.scopes = d.scopes ∧ d'.diagnostics = d.diagnostics := by
  intro source n c
  have hfree : IdentityFree n := by
    unfold IdentityFree
    decide +kernel
  have hends : ((eval 12 n).run c).map (fun ended => ended.2.diagnostics) =
      some #[.runtime (.arithmetic .divisionByZero) 2, .runtime (.undeclared "y") 3,
        .runtime (.mismatch (.operands .add .float .bool)) 4] := by decide +kernel
  obtain ⟨⟨value, d⟩, hrun, hreports⟩ := Option.map_eq_some_iff.mp hends
  rcases evaluates_simplify_of_identityFree hfree (c := c) rfl 100 with ⟨hnever, -⟩ | hsame
  · exact absurd ⟨value, d, 12, hrun⟩ hnever
  · obtain ⟨value', e, e', he, he', houtput, hscopes, hdiagnostics⟩ := hsame
    obtain ⟨rfl, rfl⟩ := Evaluates.unique ⟨12, hrun⟩ he
    exact ⟨value, d, e', hfree, he, he', hreports, houtput, hscopes, hdiagnostics⟩

/-- The same for a tree in which no operator has a variable as one operand and, as the
    other, one that becomes a number: there no identity applies. -/
theorem evaluates_simplify_of_separated {n : Node} (h : n.All Separated) {c : Context}
    (hnew : c.functions = []) (free : Nat) :
    ¬ Terminates n c ∧ ¬ Terminates ((simplify n).run free).1 c ∨
      ∃ value d d', Evaluates n c value d ∧ Evaluates ((simplify n).run free).1 c value d' ∧
        SeenAlike d d' :=
  have hfree := identityFree_of_separated h
  endless_or_ends (fun _ _ => evaluates_folded hfree hnew free)
    (terminates_of_folded hfree hnew free)

end Scriptlet
