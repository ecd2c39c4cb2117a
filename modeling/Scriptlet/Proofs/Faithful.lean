import Scriptlet.Proofs.Rewriting
import Scriptlet.Proofs.Shape
import Scriptlet.Proofs.Simulation
import Scriptlet.Proofs.Sources

/-!
# What simplification keeps

A run is faithful if every operator that an identity replaces is met at values
where the identity gives what the operator gives. For an identity that is a law
these are all values. Of faithful runs without a report simplification changes
nothing.

Results:
* `eval_simplifyArith_iff`: a simplified operator has the value of the operator
  just if the simplification is exact.
* `mirrors_simplify`: a simplified tree mirrors every faithful clean run of the
  tree.
* `runs_simplified`: a source that runs faithfully and without a report runs in
  the same way when it is simplified.
* `not_runs_simplified_negative_zero`: a source that does not.
-/

namespace Scriptlet

open Eval Optimize

/-- Evaluates a node as `eval` does, but gives no result if it meets an operator
    whose value simplification would change. -/
def faithful : Nat → Evaluator
  | 0, _ => exhausted
  | bound + 1, n =>
    match n.form with
    | .arith op left right => do
      let a ← operand (faithful bound) left
      let b ← operand (faithful bound) right
      match a, b with
      | some a, some b =>
        if isExact op left right a b then settle n.line (Value.apply op a b) else exhausted
      | _, _ => return none
    | _ => step (faithful bound) bound n

/-! ## Numbers and variables at run time -/

/-- A node that evaluates to a value within every bound, without a trace. -/
def Holds (n : Node) (c : Context) (v : Value) : Prop :=
  ∀ bound, (eval (bound + 1) n).run c = some (some v, c)

theorem holds_literal {n : Node} {v : Value} (h : literalValue? n = some v) (c : Context) :
    Holds n c v := by
  obtain ⟨id, line, form⟩ := n
  intro bound
  cases form with
  | int i => cases h; rfl
  | float x => cases h; rfl
  | _ => cases h

/-- A variable that is read yields its value and leaves the context alone. -/
theorem run_read_eq_some {n : Node} {x : String} (hn : n.form = .read x) {bound : Nat}
    {c c' : Context} {v : Value} :
    (eval (bound + 1) n).run c = some (some v, c') ↔ c' = c ∧ c.scopes.get x = .ok (some v) := by
  obtain ⟨id, line, form⟩ := n
  subst hn
  simp only [eval, step]
  constructor
  · intro h
    obtain ⟨_, _, h0, h⟩ := run_bind_eq_some.mp h
    obtain ⟨rfl, rfl⟩ := run_get_eq_some.mp h0
    split at h
    · next value hvalue =>
      obtain ⟨rfl, rfl⟩ := run_pure_eq_some.mp h
      exact ⟨rfl, hvalue⟩
    · obtain ⟨_, _, _, h⟩ := run_bind_eq_some.mp h
      cases (run_pure_eq_some.mp h).1
  · rintro ⟨rfl, hget⟩
    refine run_bind_eq_some.mpr ⟨c', c', rfl, ?_⟩
    simp only [hget]
    rfl

theorem holds_read {n : Node} {x : String} (hn : n.form = .read x) {c : Context} {v : Value} :
    Holds n c v ↔ c.scopes.get x = .ok (some v) := by
  constructor
  · intro h
    exact ((run_read_eq_some hn).mp (h 0)).2
  · intro h bound
    exact (run_read_eq_some hn).mpr ⟨rfl, h⟩

/-- A number or a variable that yields a value once does so within every bound,
    and leaves the context alone. -/
theorem holds_of_eval {n : Node} (hatom : atom? n ≠ none) {bound : Nat} {c c' : Context}
    {v : Value} (h : (eval bound n).run c = some (some v, c')) : c' = c ∧ Holds n c v := by
  cases bound with
  | zero => cases h
  | succ bound =>
    obtain ⟨id, line, form⟩ := n
    cases form with
    | int i => cases h; exact ⟨rfl, fun _ => rfl⟩
    | float x => cases h; exact ⟨rfl, fun _ => rfl⟩
    | read x =>
      obtain ⟨hsame, hget⟩ := (run_read_eq_some rfl).mp h
      exact ⟨hsame, (holds_read rfl).mpr hget⟩
    | _ => exact absurd rfl hatom

theorem Holds.unique {n : Node} {c : Context} {v w : Value} (hv : Holds n c v)
    (hw : Holds n c w) : v = w := by
  have h := (hv 0).symm.trans (hw 0)
  cases h
  rfl

/-- A node that holds a value yields that value and no other. -/
theorem Holds.run_eq_iff {n : Node} {c : Context} {v w : Value} (h : Holds n c v) (bound : Nat) :
    (eval (bound + 1) n).run c = some (some w, c) ↔ Except.ok (ε := Fault) v = .ok w := by
  rw [h bound]
  constructor
  · intro hw
    cases hw
    rfl
  · intro hw
    cases hw
    rfl

/-- An operand that holds a value has that value. -/
theorem run_operand_of_holds {n : Node} {c : Context} {v : Value} (h : Holds n c v)
    (bound : Nat) : (operand (eval (bound + 1)) n).run c = some (some v, c) := by
  refine run_bind_eq_some.mpr ⟨c, c, rfl, ?_⟩
  refine run_bind_eq_some.mpr ⟨some v, c, h bound, ?_⟩
  exact run_bind_eq_some.mpr ⟨c, c, rfl, rfl⟩

theorem run_settle_eq_some {line : Nat} {result : Except Fault Value} {c c' : Context}
    {v : Value} : (settle line result).run c = some (some v, c') ↔ result = .ok v ∧ c' = c := by
  cases result with
  | ok w =>
    constructor
    · intro h
      obtain ⟨hw, rfl⟩ := run_pure_eq_some.mp h
      cases hw
      exact ⟨rfl, rfl⟩
    · rintro ⟨hw, rfl⟩
      cases hw
      rfl
  | error fault =>
    constructor
    · intro h
      obtain ⟨_, _, _, h⟩ := run_bind_eq_some.mp h
      cases (run_pure_eq_some.mp h).1
    · rintro ⟨hw, -⟩
      cases hw

/-- An operator between operands that hold values. -/
theorem run_arith_of_holds {id line : Nat} {op : Arith} {left right : Node} {c : Context}
    {a b v : Value} (ha : Holds left c a) (hb : Holds right c b) (bound : Nat) :
    (eval (bound + 2) ⟨id, line, .arith op left right⟩).run c = some (some v, c) ↔
      Value.apply op a b = .ok v := by
  have ha := run_operand_of_holds ha bound
  have hb := run_operand_of_holds hb bound
  constructor
  · intro h
    obtain ⟨_, _, h1, h⟩ := run_bind_eq_some.mp h
    cases ha.symm.trans h1
    obtain ⟨_, _, h2, h⟩ := run_bind_eq_some.mp h
    cases hb.symm.trans h2
    exact (run_settle_eq_some.mp h).1
  · intro hv
    refine run_bind_eq_some.mpr ⟨some a, c, ha, ?_⟩
    refine run_bind_eq_some.mpr ⟨some b, c, hb, ?_⟩
    exact run_settle_eq_some.mpr ⟨hv, rfl⟩

/-- **A simplified operator comes to what the identity says**, where its variable
    and its literal have these values. -/
theorem run_applyIdentity {m : Match} {c : Context} {x l v : Value} (line k bound : Nat)
    (hread : isRead m.operand = true) (hoperand : Holds m.operand c x)
    (hliteral : literalValue? m.literal = some l) :
    (eval (bound + 2) ((applyIdentity line m).run k).1).run c = some (some v, c) ↔
      m.identity.result x l = .ok v := by
  obtain ⟨y, hy⟩ := isRead_iff.mp hread
  have hcopy : ∀ id line, Holds ⟨id, line, m.operand.form⟩ c x := by
    intro id line
    exact (holds_read (n := ⟨id, line, m.operand.form⟩) hy).mpr ((holds_read hy).mp hoperand)
  have hhalf : ∀ id line, Holds ⟨id, line, .float 0.5⟩ c (.float 0.5) := fun _ _ =>
    holds_literal rfl c
  have hone : Holds ⟨k, line, oneLike m.literal⟩ c (oneOf l) := by
    refine holds_literal ?_ c
    obtain ⟨identity, operand, ⟨_, _, form⟩⟩ := m
    cases form with
    | int i => cases hliteral; rfl
    | float x => cases hliteral; rfl
    | _ => cases hliteral
  obtain ⟨identity, operand, literal⟩ := m
  cases identity with
  | operand => exact hoperand.run_eq_iff _
  | literal => exact (holds_literal hliteral c).run_eq_iff _
  | one => exact hone.run_eq_iff _
  | double => exact run_arith_of_holds hoperand (hcopy _ _) bound
  | square => exact run_arith_of_holds hoperand (hcopy _ _) bound
  | halve => exact run_arith_of_holds hoperand (hhalf _ _) bound

/-! ## Faithful runs are runs -/

/-- Operators apart, faithful evaluation follows the rules of evaluation. -/
theorem faithful_eq_step {bound : Nat} {n : Node} (h : ∀ op l r, n.form ≠ .arith op l r) :
    faithful (bound + 1) n = step (faithful bound) bound n := by
  rw [faithful]
  split
  · next op left right hform => exact absurd hform (h op left right)
  · rfl

/-- A faithful run is a run. -/
theorem extends_faithful (bound : Nat) (n : Node) : Extends (faithful bound n) (eval bound n) := by
  induction bound generalizing n with
  | zero => exact .exhausted _
  | succ bound ih =>
    obtain ⟨id, line, form⟩ := n
    cases form with
    | arith op left right =>
      refine .bind (.operand ih left) fun a => .bind (.operand ih right) fun b => ?_
      cases a with
      | none => exact .refl _
      | some a =>
        cases b with
        | none => exact .refl _
        | some b =>
          dsimp only
          split
          · exact .refl _
          · exact .exhausted _
    | _ =>
      rw [faithful_eq_step (by simp)]
      exact .step ih (Nat.le_refl bound) _

theorem evolves_of_faithful (bound : Nat) (n : Node) :
    Relates Context.Evolves (faithful bound n) :=
  fun c _ _ h => evolves_of_eval (extends_faithful bound n c _ h)

theorem run_operand_eq_some {ev : Evaluator} {n : Node} {c c' : Context} {v : Value} :
    (operand ev n).run c = some (some v, c') ↔ (ev n).run c = some (some v, c') := by
  constructor
  · intro h
    obtain ⟨_, _, h0, h⟩ := run_bind_eq_some.mp h
    obtain ⟨rfl, rfl⟩ := run_get_eq_some.mp h0
    obtain ⟨value, c1, h1, h⟩ := run_bind_eq_some.mp h
    obtain ⟨_, _, h2, h⟩ := run_bind_eq_some.mp h
    obtain ⟨rfl, rfl⟩ := run_get_eq_some.mp h2
    split at h
    · next hnone =>
      obtain ⟨_, _, _, h⟩ := run_bind_eq_some.mp h
      obtain ⟨rfl, -⟩ := run_pure_eq_some.mp h
      cases hnone.1
    · obtain ⟨rfl, rfl⟩ := run_pure_eq_some.mp h
      exact h1
  · exact run_required_some

/-! ## Operators -/

/-- A function and the same function with a simplified body. -/
structure RewrittenFunction (d d' : Definition) : Prop where
  name_eq : d'.name = d.name
  params_eq : d'.params = d.params
  shaped : d.body.Shaped
  body : Rewritten d.body d'.body

/-- A tree mirrors every faithful clean run of another. The scopes are the same
    on both sides; the functions have simplified bodies. -/
abbrev MirrorsFaithful (m m' : Eval (Option Value)) : Prop :=
  Mirrors Eq (FunctionTable.Rel RewrittenFunction) Eq m m'

/-- **A simplified operator has the value of the operator just if the
    simplification is exact** at the values of the operands. -/
theorem eval_simplifyArith_iff {id line k bound : Nat} {op : Arith}
    {left left' right right' : Node} {d d₁ d₂ : Context} {a b v : Value}
    (hleft : Rewritten left left') (hright : Rewritten right right')
    (ha : (eval bound left').run d = some (some a, d₁))
    (hb : (eval bound right').run d₁ = some (some b, d₂)) (hv : Value.apply op a b = .ok v) :
    (eval (bound + 1) ((simplifyArith id line op left' right').run k).1).run d
      = some (some v, d₂) ↔ isExact op left right a b = true := by
  unfold simplifyArith
  split
  · next form hfold =>
    obtain ⟨a', b', v', ha', hb', hv', hform⟩ := literalValue?_of_foldLiterals? hfold k line
    obtain ⟨rfl, hholds⟩ := holds_of_eval (atom?_ne_none_of_literalValue? ha') ha
    obtain ⟨rfl, hholds'⟩ := holds_of_eval (atom?_ne_none_of_literalValue? hb') hb
    obtain rfl := hholds.unique (holds_literal ha' _)
    obtain rfl := hholds'.unique (holds_literal hb' _)
    obtain rfl : v = v' := by simpa [hv] using hv'
    have hmatch : match? op left' right' = none := match?_of_literals ha' hb'
    exact iff_of_true (holds_literal hform _ bound)
      (isExact_of_match?_eq_none hleft hright hmatch a b)
  · split
    · next m hm =>
      obtain ⟨hread, hnumber, hside⟩ := match?_eq_some hm
      obtain ⟨l, hl⟩ := exists_literalValue? hnumber
      have hliteral : atom? m.literal ≠ none := atom?_ne_none_of_literalValue? hl
      have hoperand : atom? m.operand ≠ none := by simp [atom?, hread]
      obtain ⟨more, rfl⟩ : ∃ more, bound = more + 1 := by
        cases bound with
        | zero => cases ha
        | succ more => exact ⟨more, rfl⟩
      rw [isExact_eq hleft hright hm hv]
      rcases hside with ⟨hnum, hx, hy, hidentity⟩ | ⟨hnum, hx, hy, hidentity⟩
      · rw [← hy] at ha
        rw [← hx] at hb
        obtain ⟨rfl, hholds⟩ := holds_of_eval hliteral ha
        obtain ⟨rfl, hholds'⟩ := holds_of_eval hoperand hb
        obtain rfl := hholds.unique (holds_literal hl _)
        rw [if_pos hnum, gives_iff fun hlaw => result_left_of_isLaw hidentity hl hlaw hv]
        exact run_applyIdentity line k more hread hholds' hl
      · rw [← hx] at ha
        rw [← hy] at hb
        obtain ⟨rfl, hholds⟩ := holds_of_eval hoperand ha
        obtain ⟨rfl, hholds'⟩ := holds_of_eval hliteral hb
        obtain rfl := hholds'.unique (holds_literal hl _)
        rw [hnum, if_neg Bool.false_ne_true,
          gives_iff fun hlaw => result_right_of_isLaw hidentity hl hlaw hv]
        exact run_applyIdentity line k more hread hholds hl
    · next hm =>
      refine iff_of_true ?_ (isExact_of_match?_eq_none hleft hright hm a b)
      refine run_bind_eq_some.mpr ⟨some a, d₁, run_operand_eq_some.mpr ha, ?_⟩
      refine run_bind_eq_some.mpr ⟨some b, d₂, run_operand_eq_some.mpr hb, ?_⟩
      exact run_settle_eq_some.mpr ⟨hv, rfl⟩

/-- An operand that is a literal has the value of the literal. -/
theorem eq_of_eval_literal {n : Node} {bound : Nat} {c c' : Context} {l v : Value}
    (hl : literalValue? n = some l) (h : (eval bound n).run c = some (some v, c')) : v = l :=
  (holds_of_eval (atom?_ne_none_of_literalValue? hl) h).2.unique (holds_literal hl c)

/-- **A simplified operator mirrors the operator** if the operands do and clean runs
    meet it at values where the simplification is exact. What is done with the
    values of the operands is a parameter. -/
theorem mirrors_simplifyArith {F : FunctionTable → FunctionTable → Prop} {ev : Evaluator}
    {id line k bound : Nat} {op : Arith} {left left' right right' : Node}
    {meet : Value → Value → Eval (Option Value)} (hev : ∀ n, Relates Context.Evolves (ev n))
    (hleft : Rewritten left left') (hright : Rewritten right right')
    (hl : Mirrors Eq F Eq (ev left) (eval bound left'))
    (hr : Mirrors Eq F Eq (ev right) (eval bound right'))
    (hmeet : ∀ a b, Relates Context.Evolves (meet a b))
    (hexact : ∀ a b c r c', (∀ l, literalValue? left' = some l → a = l) →
      (∀ l, literalValue? right' = some l → b = l) →
      (meet a b).run c = some (r, c') → Quiet c c' →
      ∃ v, r = some v ∧ c' = c ∧ Value.apply op a b = .ok v ∧ isExact op left right a b = true) :
    Mirrors Eq F Eq
      (do
        let a ← operand ev left
        let b ← operand ev right
        match a, b with
        | some a, some b => meet a b
        | _, _ => return none)
      (eval (bound + 1) ((simplifyArith id line op left' right').run k).1) := by
  have hE := lasting_evolves
  intro c d r c' hlink hrun hquiet
  obtain ⟨a, c₁, h1, hrun⟩ := run_bind_eq_some.mp hrun
  obtain ⟨b, c₂, h2, hrun⟩ := run_bind_eq_some.mp hrun
  have he1 : c.Evolves c₁ := hE.operand (hev left) c a c₁ h1
  have he2 : c₁.Evolves c₂ := hE.operand (hev right) c₁ b c₂ h2
  have he3 : c₂.Evolves c' := by
    split at hrun
    · exact hmeet _ _ c₂ r c' hrun
    · exact hE.pure none c₂ r c' hrun
  obtain ⟨hq1, hq⟩ := hquiet.split he1 (he2.trans he3)
  obtain ⟨hq2, hq3⟩ := hq.split he2 he3
  obtain ⟨_, d₁, hd1, ⟨a, rfl, rfl⟩, hlink1⟩ := Mirrors.operand hev hl c d a c₁ hlink h1 hq1
  obtain ⟨_, d₂, hd2, ⟨b, rfl, rfl⟩, hlink2⟩ := Mirrors.operand hev hr c₁ d₁ b c₂ hlink1 h2 hq2
  have ha := run_operand_eq_some.mp hd1
  have hb := run_operand_eq_some.mp hd2
  obtain ⟨v, rfl, rfl, hv, hgood⟩ := hexact a b c₂ r c' (fun _ hl => eq_of_eval_literal hl ha)
    (fun _ hl => eq_of_eval_literal hl hb) hrun hq3
  refine ⟨some v, d₂, ?_, rfl, hlink2⟩
  exact (eval_simplifyArith_iff hleft hright ha hb hv).mpr hgood

/-- A value that is settled without a report is the result. -/
theorem settle_of_quiet {line : Nat} {result : Except Fault Value} {c c' : Context}
    {r : Option Value} (hrun : (settle line result).run c = some (r, c')) (hquiet : Quiet c c') :
    ∃ v, r = some v ∧ c' = c ∧ result = .ok v := by
  cases result with
  | ok v =>
    obtain ⟨rfl, rfl⟩ := run_pure_eq_some.mp hrun
    exact ⟨v, rfl, rfl, rfl⟩
  | error fault =>
    exact absurd hquiet
      (Nat.not_le.mpr (size_lt_of_report (fun _ => lasting_evolves.pure none) hrun))

/-- A simplified operator mirrors every faithful clean run of the operator. -/
theorem mirrors_arith {id line k bound : Nat} {op : Arith} {left left' right right' : Node}
    (hleft : Rewritten left left') (hright : Rewritten right right')
    (hl : MirrorsFaithful (faithful bound left) (eval bound left'))
    (hr : MirrorsFaithful (faithful bound right) (eval bound right')) :
    MirrorsFaithful (faithful (bound + 1) ⟨id, line, .arith op left right⟩)
      (eval (bound + 1) ((simplifyArith id line op left' right').run k).1) := by
  refine mirrors_simplifyArith (evolves_of_faithful bound) hleft hright hl hr ?_ ?_
  · intro a b
    split
    · exact lasting_evolves.settle line _
    · exact .exhausted
  · intro a b c r c' _ _ hrun hquiet
    split at hrun
    · next hgood =>
      obtain ⟨v, rfl, rfl, hv⟩ := settle_of_quiet hrun hquiet
      exact ⟨v, rfl, rfl, hv, hgood⟩
    · cases hrun

/-! ## Trees -/

/-- The nodes of a shaped tree that stand for a name are names, and stay as they
    are. -/
theorem name?_simplified_of_shaped {n : Node} (h : n.Shaped) :
    ∀ m ∈ n.form.names, (simplified m).name? = m.name? := by
  have hbinder : ∀ m ∈ n.form.names, m.form.isBinder = true := by
    have hform := (Node.shaped_iff.mp h).1
    obtain ⟨id, line, form⟩ := n
    cases form <;> simp_all [Form.names, Form.isShaped]
  intro m hm
  have hsame : simplify m = pure m := by
    have hkind := hbinder m hm
    obtain ⟨id, line, form⟩ := m
    cases form <;> first | rfl | cases hkind
  rw [simplified, hsame]
  rfl

theorem rewrittenFunction_eq :
    RewrittenFunction = Definition.Tied fun n n' => n.Shaped ∧ Rewritten n n' := by
  funext d d'
  refine propext ⟨fun h => ⟨h.name_eq, h.params_eq, h.shaped, h.body⟩, fun h => ?_⟩
  exact ⟨h.name_eq, h.params_eq, h.body.1, h.body.2⟩

/-- **A simplified tree mirrors every faithful clean run** of a shaped tree. -/
theorem mirrors_simplify (bound : Nat) : ∀ n n', n.Shaped → Rewritten n n' →
    MirrorsFaithful (faithful bound n) (eval bound n') := by
  induction bound with
  | zero =>
    intro n n' _ _ c d a c' _ hrun _
    cases hrun
  | succ bound ih =>
    intro n n' hshape hn
    by_cases harith : ∃ op l r, n.form = .arith op l r
    · obtain ⟨op, left, right, hform⟩ := harith
      obtain ⟨id, line, form⟩ := n
      obtain rfl : form = .arith op left right := hform
      obtain ⟨left', right', k, hleft, hright, rfl⟩ := hn.arith
      refine mirrors_arith hleft hright (ih left _ (hshape.child ?_) hleft)
        (ih right _ (hshape.child ?_) hright)
      · simp [Node.children, Form.children]
      · simp [Node.children, Form.children]
    · have harith' : ∀ op l r, n.form ≠ .arith op l r := fun op l r h => harith ⟨op, l, r, h⟩
      rw [faithful_eq_step harith']
      unfold MirrorsFaithful at ih ⊢
      rw [rewrittenFunction_eq] at ih ⊢
      have hcorresponds := hn.corresponds harith' (name?_simplified_of_shaped hshape)
      refine Mirrors.step (recognizes_rewritten fun m hm k hk => hm.child hk)
        (evolves_of_faithful bound) (fun m m' hm => ih m m' hm.1 hm.2) ?_
      exact hcorresponds.mono fun m m' hm => ⟨hshape.child hm.1, hm.2⟩

/-! ## Sources -/

/-- The simplified program follows a faithful clean run of a program. -/
theorem eval_simplify_program {n body : Node} {c c' : Context} {bound : Nat}
    {value : Option Value} (hform : n.form = .program body) (hbody : body.Shaped)
    (hfunctions : c.functions = []) (hrun : (faithful bound n).run c = some (value, c'))
    (hquiet : Quiet c c') (k : Nat) :
    ∃ d, (eval bound ((simplify n).run k).1).run c = some (value, d) ∧
      Linked Eq (FunctionTable.Rel RewrittenFunction) c' d := by
  have hlink : Linked Eq (FunctionTable.Rel RewrittenFunction) c c := by
    refine ⟨rfl, ?_, rfl, rfl, rfl, rfl, rfl⟩
    rw [hfunctions]
    exact .nil
  obtain ⟨id, line, form⟩ := n
  obtain rfl : form = .program body := hform
  cases bound with
  | zero => cases hrun
  | succ bound =>
    obtain ⟨_, d, hd, rfl, hlink'⟩ :=
      mirrors_simplify bound body _ hbody ⟨k, rfl⟩ c c value c' hlink hrun hquiet
    exact ⟨d, hd, hlink'⟩

/-- A source, run as it stands, meets no operator whose value simplification
    would change. -/
def RunsFaithfully (options : Options) (source : String) : Prop :=
  ∃ bound, ((faithful bound (parsed options source).1).run
    (parsed options source).2.context).isSome = true

/-- **Simplification changes nothing about a faithful clean run.** If a source
    that is run as it stands reports nothing, and every operator that an identity
    replaces is met at values where the identity is exact, then the simplified
    source ends with the same value and the same output, and reports nothing. -/
theorem runs_simplified (options : Options) {source : String} {r : Report}
    (hrun : Runs { options with optimize := false } source r) (hclean : r.succeeded = true)
    (hfaithful : RunsFaithfully options source) :
    Runs { options with optimize := true, dropDeadCode := false } source r := by
  obtain ⟨bound, hrun⟩ := hrun
  obtain ⟨bound', hfaithful⟩ := hfaithful
  rw [runSource_eq] at hrun
  obtain ⟨⟨value, c⟩, heval, rfl⟩ := Option.map_eq_some_iff.mp hrun
  obtain ⟨⟨value', c'⟩, hsome⟩ := Option.isSome_iff_exists.mp hfaithful
  obtain ⟨rfl, rfl⟩ :=
    Evaluates.unique ⟨bound, heval⟩ ⟨bound', extends_faithful bound' _ _ _ hsome⟩
  obtain ⟨body, hform, hbody⟩ := shaped_parsed options source
  have hquiet : Quiet (parsed options source).2.context c := by
    have hnone : c.diagnostics.size = 0 := by
      simpa [Report.succeeded, Report.ofRun] using hclean
    unfold Quiet
    omega
  obtain ⟨d, hd, hlink⟩ := eval_simplify_program hform hbody.shaped
    (functions_parsed options source) hsome hquiet (parsed options source).2.nextId
  refine ⟨bound', ?_⟩
  rw [runSource_eq]
  refine Option.map_eq_some_iff.mpr ⟨(value, d), hd, ?_⟩
  unfold Report.ofRun
  simp only [hlink.output_eq, hlink.diagnostics_eq]

/-- A loop that doubles by an identity and calls a function that adds zero, with
    integers and floats. -/
theorem runs_simplified_of_loop :
    let source := "function f(y: float) = { y + 0.0 }; x := 1; i := 0; " ++
      "while (i < 3) { x = x * 2; i = i + 1 }; print(f(1.5)); x * 1"
    ∃ r, Runs { optimize := false } source r ∧ r.succeeded = true ∧ RunsFaithfully {} source ∧
      r.value = some (.int 8) ∧ r.output = [.printed "1.5"] ∧
      Runs { optimize := true, dropDeadCode := false } source r := by
  intro source
  have hcheck : (runSource { optimize := false } 12 source).map
      (fun r => (r.value, r.output, r.diagnostics)) =
        some (some (.int 8), [.printed "1.5"], []) ∧
      ((faithful 12 (parsed {} source).1).run (parsed {} source).2.context).isSome = true := by
    decide +kernel
  obtain ⟨r, hrun, hr⟩ := Option.map_eq_some_iff.mp hcheck.1
  simp only [Prod.mk.injEq] at hr
  have hclean : r.succeeded = true := by simp [Report.succeeded, hr.2.2]
  have hfaithful : RunsFaithfully {} source := ⟨12, hcheck.2⟩
  exact ⟨r, ⟨12, hrun⟩, hclean, hfaithful, hr.1, hr.2.1,
    runs_simplified {} ⟨12, hrun⟩ hclean hfaithful⟩

/-- **Simplification can change a clean run**: the product of a negative number
    and zero is `-0.0`, and becomes the literal `0.0`. -/
theorem not_runs_simplified_negative_zero :
    let source := "x := 0.0 - 1.0; print(x * 0.0)"
    ∃ r, Runs { optimize := false } source r ∧ r.succeeded = true ∧
      ¬ Runs { optimize := true, dropDeadCode := false } source r := by
  intro source
  have hends : (runSource { optimize := false } 8 source).map
      (fun r => (r.output, r.diagnostics)) = some ([.printed "-0.0"], []) := by decide +kernel
  have hchanged : (runSource { optimize := true, dropDeadCode := false } 8 source).map
      (fun r => r.output) = some [.printed "0.0"] := by decide +kernel
  obtain ⟨r, hrun, hr⟩ := Option.map_eq_some_iff.mp hends
  obtain ⟨r', hrun', hr'⟩ := Option.map_eq_some_iff.mp hchanged
  simp only [Prod.mk.injEq] at hr
  refine ⟨r, ⟨8, hrun⟩, by simp [Report.succeeded, hr.2], fun h => ?_⟩
  obtain rfl := Runs.unique h ⟨8, hrun'⟩
  have hsame : ([.printed "-0.0"] : List OutputLine) = [.printed "0.0"] := hr.1.symm.trans hr'
  simp at hsame

end Scriptlet
