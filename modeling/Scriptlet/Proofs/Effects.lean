import Scriptlet.Optimize.Liveness
import Scriptlet.Proofs.Simulation

/-!
# What statements do in a clean run

In a run that reports nothing each statement that binds a name has done so: the
value it needs was there and the scopes could be changed. A pure expression has
done nothing at all.

Results:
* `records_of_pure`: a pure expression only ever records diagnostics.
* `quiet_declare`, `quiet_define`, `quiet_assign`, `quiet_function`: what is left
  of a statement that reported nothing.
* `eval_of_isValueless`: statements that yield no value.
-/

namespace Scriptlet

open Eval

/-! ## Pure expressions -/

/-- Nothing but diagnostics were recorded. -/
def Context.Records (c c' : Context) : Prop := ∃ ds : List Diagnostic, c' = ds.foldl record c

namespace Context.Records

theorem reporting : Reporting Context.Records where
  refl c := ⟨[], rfl⟩
  trans := by
    rintro a b c ⟨ds, rfl⟩ ⟨es, rfl⟩
    exact ⟨ds ++ es, by rw [List.foldl_append]⟩
  record c d := ⟨[d], rfl⟩

theorem size_eq (ds : List Diagnostic) (c : Context) :
    (ds.foldl record c).diagnostics.size = c.diagnostics.size + ds.length := by
  induction ds generalizing c with
  | nil => rfl
  | cons d ds ih =>
    rw [List.foldl_cons, ih, size_record, List.length_cons]
    omega

theorem eq_of_quiet {c c' : Context} (h : c.Records c') (hquiet : Quiet c c') : c' = c := by
  obtain ⟨ds, rfl⟩ := h
  unfold Quiet at hquiet
  rw [size_eq] at hquiet
  obtain rfl : ds = [] := List.eq_nil_of_length_eq_zero (by omega)
  rfl

end Context.Records

/-- **A pure expression only ever records diagnostics.** -/
theorem records_of_pure {bound : Nat} {n : Node} (h : n.isPure = true) :
    Relates Context.Records (eval bound n) := by
  have hR := Context.Records.reporting
  induction bound generalizing n with
  | zero => exact .exhausted
  | succ bound ih =>
    rw [Node.isPure_eq, Bool.and_eq_true, List.all_eq_true] at h
    obtain ⟨hform, hchildren⟩ := h
    have hchild : ∀ m ∈ n.children, Relates Context.Records (eval bound m) :=
      fun m hm => ih (hchildren m hm)
    obtain ⟨id, line, form⟩ := n
    cases form with
    | relation rel left right =>
      exact hR.combine (hchild left (by simp [Node.children, Form.children]))
        (hchild right (by simp [Node.children, Form.children])) line _
    | arith op left right =>
      exact hR.combine (hchild left (by simp [Node.children, Form.children]))
        (hchild right (by simp [Node.children, Form.children])) line _
    | math fn argument =>
      exact hR.transform (hchild argument (by simp [Node.children, Form.children])) line _
    | cast value type =>
      simp only [eval, Eval.step]
      split
      · exact hR.transform (hchild value (by simp [Node.children, Form.children])) line _
      · exact hR.pure none
    | read name => exact hR.read (eval bound) bound id line name
    | int _ => exact hR.pure _
    | float _ => exact hR.pure _
    | str _ => exact hR.pure _
    | bool _ => exact hR.pure _
    | binder _ => exact hR.pure _
    | ty _ => exact hR.pure _
    | pi => exact hR.pure _
    | _ => cases hform

/-- A pure expression that reports nothing changes nothing. -/
theorem eq_of_pure {bound : Nat} {n : Node} {c c' : Context} {value : Option Value}
    (h : n.isPure = true) (hrun : (eval bound n).run c = some (value, c'))
    (hquiet : Quiet c c') : c' = c :=
  (records_of_pure h c value c' hrun).eq_of_quiet hquiet

/-! ## Statements that bind a name -/

section Statements

variable {ev : Evaluator} {bound id line : Nat} {name value : Node} {x : String}
  {a : Option Value} {c c' : Context}

/-- A change of the scopes either succeeds or is reported. -/
theorem run_update {f : Scopes → Change Unit Scopes}
    (hrun : (do setScopes line (f (← get).scopes); return none : Eval (Option Value)).run c =
      some (a, c')) :
    a = none ∧ c.diagnostics.size ≤ c'.diagnostics.size ∧
      (Quiet c c' → ∃ s, f c.scopes = (.ok (), s) ∧ c' = { c with scopes := s }) := by
  obtain ⟨_, _, h0, hrun⟩ := run_bind_eq_some.mp hrun
  obtain ⟨rfl, rfl⟩ := run_get_eq_some.mp h0
  obtain ⟨_, _, h1, hrun⟩ := run_bind_eq_some.mp hrun
  obtain ⟨rfl, rfl⟩ := run_pure_eq_some.mp hrun
  rcases hf : f c.scopes with ⟨result, s⟩
  rw [hf] at h1
  cases result with
  | ok u =>
    obtain ⟨-, rfl⟩ := run_pure_eq_some.mp h1
    exact ⟨rfl, Nat.le_refl _, fun _ => ⟨s, rfl, rfl⟩⟩
  | error fault =>
    have hreport : { c with scopes := s }.report fault line = _ := run_modify_eq_some.mp h1
    have hsize : ({ c with scopes := s }.report fault line).diagnostics.size =
        c.diagnostics.size + 1 := size_record _ _
    rw [hreport] at hsize
    unfold Quiet
    exact ⟨rfl, by omega, fun h => absurd h (by omega)⟩

/-- A change of the scopes by a value that is computed first, if nothing is
    reported. -/
theorem quiet_store {missing : Fault} {f : Value → Scopes → Change Unit Scopes}
    {k : Option Value → Eval (Option Value)} (hev : Relates Context.Evolves (ev value))
    (hrun : (required ev missing value >>= k).run c = some (a, c')) (hquiet : Quiet c c')
    (hnone : k none = return none)
    (hsome : ∀ v, k (some v) = do setScopes line (f v (← get).scopes); return none) :
    a = none ∧ ∃ v c₁ s, (ev value).run c = some (some v, c₁) ∧ Quiet c c₁ ∧
      f v c₁.scopes = (.ok (), s) ∧ c' = { c₁ with scopes := s } := by
  obtain ⟨result, c₁, h1, hrun⟩ := run_bind_eq_some.mp hrun
  have hgrow := (lasting_evolves.required hev missing c result c₁ h1).size_le
  cases result with
  | none =>
    rw [hnone] at hrun
    obtain ⟨rfl, rfl⟩ := run_pure_eq_some.mp hrun
    obtain ⟨v, hv, -⟩ := quiet_required hev h1 hquiet
    cases hv
  | some v =>
    rw [hsome v] at hrun
    obtain ⟨ha, hsize, hupdate⟩ := run_update hrun
    unfold Quiet at hquiet
    obtain ⟨s, hs, hc'⟩ := hupdate (by unfold Quiet; omega)
    have hquiet₁ : Quiet c c₁ := by unfold Quiet; omega
    obtain ⟨_, ⟨⟩, hvalue⟩ := quiet_required hev h1 hquiet₁
    exact ⟨ha, v, c₁, s, hvalue, hquiet₁, hs, hc'⟩

theorem quiet_declare {type : Node} {t : Ty} (hx : name.name? = some x) (ht : type.form = .ty t)
    (hrun : (step ev bound ⟨id, line, .declare name type⟩).run c = some (a, c'))
    (hquiet : Quiet c c') :
    a = none ∧ ∃ s, c.scopes.declare x t = (.ok (), s) ∧ c' = { c with scopes := s } := by
  simp only [step, hx, ht] at hrun
  obtain ⟨ha, -, hupdate⟩ := run_update (f := fun s => s.declare x t) hrun
  exact ⟨ha, hupdate hquiet⟩

theorem quiet_define (hev : Relates Context.Evolves (ev value)) (hx : name.name? = some x)
    (hrun : (step ev bound ⟨id, line, .define name value⟩).run c = some (a, c'))
    (hquiet : Quiet c c') :
    a = none ∧ ∃ v c₁ s, (ev value).run c = some (some v, c₁) ∧ Quiet c c₁ ∧
      c₁.scopes.define x v = (.ok (), s) ∧ c' = { c₁ with scopes := s } := by
  simp only [step, hx] at hrun
  exact quiet_store (f := fun v s => s.define x v) hev hrun hquiet rfl fun _ => rfl

theorem quiet_assign (hev : Relates Context.Evolves (ev value)) (hx : name.name? = some x)
    (hrun : (step ev bound ⟨id, line, .assign name value⟩).run c = some (a, c'))
    (hquiet : Quiet c c') :
    a = none ∧ ∃ v c₁ s, (ev value).run c = some (some v, c₁) ∧ Quiet c c₁ ∧
      c₁.scopes.assign x v = (.ok (), s) ∧ c' = { c₁ with scopes := s } := by
  simp only [step, hx] at hrun
  exact quiet_store (f := fun v s => s.assign x v) hev hrun hquiet rfl fun _ => rfl

theorem quiet_function {params : Option Node} {body : Node} (hx : name.name? = some x)
    (hrun : (step ev bound ⟨id, line, .function name params body⟩).run c = some (a, c'))
    (hquiet : Quiet c c') :
    a = none ∧ c.function? x = none ∧
      c' = { c with functions := ⟨⟨x, paramsOf params, body⟩, x⟩ :: c.functions } := by
  simp only [step, hx] at hrun
  obtain ⟨_, _, h0, hrun⟩ := run_bind_eq_some.mp hrun
  obtain ⟨rfl, rfl⟩ := run_get_eq_some.mp h0
  split at hrun
  · next c₁ hc₁ =>
    obtain ⟨_, hnone, rfl⟩ := Context.register_eq_ok.mp hc₁
    obtain ⟨_, _, h1, hrun⟩ := run_bind_eq_some.mp hrun
    obtain ⟨rfl, rfl⟩ := run_pure_eq_some.mp hrun
    exact ⟨rfl, hnone, (run_set_eq_some.mp h1).symm⟩
  · exact absurd hquiet
      (Nat.not_le.mpr (size_lt_of_report (fun _ => lasting_evolves.pure none) hrun))

end Statements

/-! ## Statements without a value -/

/-- **Statements that only bind or print yield no value.** -/
theorem eval_of_isValueless {bound : Nat} {n : Node} {c c' : Context} {a : Option Value}
    (h : n.isValueless = true) (hrun : (eval bound n).run c = some (a, c')) : a = none := by
  cases bound with
  | zero => cases hrun
  | succ bound =>
    obtain ⟨id, line, form⟩ := n
    cases form with
    | assign name value =>
      obtain ⟨_, _, -, hrun⟩ := run_bind_eq_some.mp hrun
      split at hrun
      · next v x _ => exact (run_update (f := fun s => s.assign x v) hrun).1
      · exact (run_pure_eq_some.mp hrun).1.symm
    | declare name type =>
      simp only [eval, step] at hrun
      split at hrun
      · next x t _ _ => exact (run_update (f := fun s => s.declare x t) hrun).1
      · exact (run_pure_eq_some.mp hrun).1.symm
    | define name value =>
      obtain ⟨_, _, -, hrun⟩ := run_bind_eq_some.mp hrun
      split at hrun
      · next v x _ => exact (run_update (f := fun s => s.define x v) hrun).1
      · exact (run_pure_eq_some.mp hrun).1.symm
    | function name params body =>
      simp only [eval, step] at hrun
      split at hrun
      · obtain ⟨_, _, -, hrun⟩ := run_bind_eq_some.mp hrun
        split at hrun
        · obtain ⟨_, _, -, hrun⟩ := run_bind_eq_some.mp hrun
          exact (run_pure_eq_some.mp hrun).1.symm
        · obtain ⟨_, _, -, hrun⟩ := run_bind_eq_some.mp hrun
          exact (run_pure_eq_some.mp hrun).1.symm
      · exact (run_pure_eq_some.mp hrun).1.symm
    | print value =>
      obtain ⟨_, _, -, hrun⟩ := run_bind_eq_some.mp hrun
      obtain ⟨_, _, -, hrun⟩ := run_bind_eq_some.mp hrun
      exact (run_pure_eq_some.mp hrun).1.symm
    | _ => cases h

end Scriptlet
