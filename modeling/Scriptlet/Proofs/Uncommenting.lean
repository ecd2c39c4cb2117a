import Scriptlet.Proofs.Parallel
import Scriptlet.Proofs.Pruning
import Scriptlet.Proofs.Rewriting
import Scriptlet.Proofs.Simplified

/-!
# Optimised trees that differ in comments

Simplification drops comments from blocks before anything else looks at them, so
trees that are the same up to comments become trees that are the same up to ids
and the lines of blocks. Dead code is found by names and forms alone; what is left
of such trees is again the same.

Results:
* `relined_simplify`, `relined_eliminate`: the two passes.
* `relined_optimize`: both of them.
-/

namespace Scriptlet

open Optimize

theorem Optimize.eliminate_eq (n : Node) : eliminate n =
    if (sweepProgram n).size < n.size then eliminate (sweepProgram n) else sweepProgram n := by
  rw [eliminate]

namespace Node.Parallel

variable {m n : Node}

/-! ## Simplification -/

theorem sameForm (h : m.Relined n) : m.SameForm n := by
  cases h with
  | node pairs _ _ => exact ⟨pairs, rfl, rfl⟩
  | block pairs hms hns _ =>
    rw [List.filter_true] at hms hns
    exact ⟨.block pairs, congrArg Form.block hms, congrArg Form.block hns⟩

theorem respects_relined : Respects Relined Eq where
  sameForm h := h.sameForm
  line {m n} h hnumber := by
    refine h.line_eq ?_
    obtain ⟨_, _, form⟩ := m
    cases form <;> first | rfl | cases hnumber
  withIds i j h := by
    cases h with
    | node pairs hblock hchildren => exact .node pairs hblock hchildren
    | block pairs hms hns hpairs => exact .block pairs hms hns hpairs
  literal hform hline := by
    subst hline
    rcases hform with ⟨k, rfl⟩ | ⟨x, rfl⟩ <;> exact leaf rfl rfl
  arith op hline hl hr := operator (.inr ⟨op, rfl⟩) rfl rfl hline hl hr

/-- A traversal keeps blocks apart from other forms. -/
theorem isBlock_traverse (f : Node → Fresh Node) (form : Form Node) (k : Nat) :
    ((form.traverse f).run k).1.isBlock = form.isBlock := by
  cases form with
  | function _ params _ => cases params <;> rfl
  | call _ args => cases args <;> rfl
  | _ => rfl

/-- What becomes of lists whose elements correspond. -/
theorem forall₂_of_rewritten {N : Node → Node → Prop} {pairs : List (Node × Node)}
    (h : ∀ pair ∈ pairs, ∀ m n, Rewritten pair.1 m → Rewritten pair.2 n → N m n)
    {ms ns : List Node} (hms : List.Forall₂ Rewritten (pairs.map Prod.fst) ms)
    (hns : List.Forall₂ Rewritten (pairs.map Prod.snd) ns) : List.Forall₂ N ms ns := by
  induction pairs generalizing ms ns with
  | nil =>
    cases hms
    cases hns
    exact .nil
  | cons pair pairs ih =>
    obtain ⟨hpair, hpairs⟩ := List.forall_mem_cons.mp h
    cases hms with
    | cons hm hms =>
      cases hns with
      | cons hn hns => exact .cons (hpair _ _ hm hn) (ih hpairs hms hns)

/-- The statements of a simplified block come from those that are no comments. -/
theorem exists_of_rewritten_block {id line : Nat} {ms : List Node} {m : Node}
    (h : Rewritten ⟨id, line, .block ms⟩ m) :
    ∃ ms', m = ⟨id, line, .block ms'⟩ ∧
      List.Forall₂ Rewritten (ms.filter fun n => !n.isComment) ms' := by
  obtain ⟨pairs, k, hform, rfl, hpairs⟩ := h.exists_pairs
  cases pairs with
  | block pairs =>
    obtain rfl : ms = _ := Form.block.inj hform
    refine ⟨_, rfl, ?_⟩
    exact forall₂_filter_isComment (fun _ _ h => h.isComment_eq) (forall₂_of_pairs hpairs)
  | _ => cases hform

/-- **Simplified trees are the same up to lines of blocks and ids** if the trees are the
    same up to comments. -/
theorem relined_simplify (h : m.Recommented n) :
    ∀ m' n', Rewritten m m' → Rewritten n n' → m'.Relined n' := by
  induction h with
  | @block id id' line line' ms ns pairs hms hns _ ih =>
    intro m' n' hm hn
    obtain ⟨ms', rfl, hms'⟩ := exists_of_rewritten_block hm
    obtain ⟨ns', rfl, hns'⟩ := exists_of_rewritten_block hn
    refine of_statements ?_
    rw [List.filter_true, List.filter_true]
    exact forall₂_of_rewritten ih (hms ▸ hms') (hns ▸ hns')
  | @node id id' line pairs hblock _ ih =>
    rintro m' n' ⟨i, rfl⟩ ⟨j, rfl⟩
    obtain ⟨pairs', hfst, hsnd, hchildren⟩ :=
      pairs.exists_traverse (fun pair hpair i j => ih pair hpair _ _ ⟨i, rfl⟩ ⟨j, rfl⟩) i j
    have hkind : (((pairs.map Prod.fst).traverse simplify).run i).1.isBlock = false := by
      rw [isBlock_traverse, Form.isBlock_map, hblock]
    rw [simplify_eq, simplify_eq, StateT.run_bind, StateT.run_bind]
    dsimp only
    generalize ((pairs.map Prod.fst).traverse simplify).run i = r at hfst hkind
    generalize ((pairs.map Prod.snd).traverse simplify).run j = r' at hsnd
    obtain ⟨form, i⟩ := r
    obtain ⟨form', j⟩ := r'
    obtain rfl : form = _ := hfst
    obtain rfl : form' = _ := hsnd
    cases pairs' with
    | block statements => cases hkind
    | arith op left right =>
      obtain ⟨hleft, hright⟩ := forall_mem_two.mp hchildren
      exact respects_relined.simplifyArith rfl op hleft hright id id' i j
    | _ => exact of_forms _ rfl rfl rfl rfl hchildren

/-! ## What decides about dead code -/

/-- What two trees agree in if all their children do. -/
theorem relined_induction {P : Node → Node → Prop}
    (step : ∀ m n, m.Relined n → List.Forall₂ P m.children n.children → P m n)
    (h : m.Relined n) : P m n := by
  induction h with
  | @node id id' line pairs hblock hchildren ih =>
    refine step _ _ (.node pairs hblock hchildren) ?_
    rw [children, children, Form.children_map, Form.children_map]
    exact forall₂_of_pairs ih
  | @block id id' line line' ms ns pairs hms hns hpairs ih =>
    refine step _ _ (.block pairs hms hns hpairs) ?_
    rw [List.filter_true] at hms hns
    show List.Forall₂ P ms ns
    rw [hms, hns]
    exact forall₂_of_pairs ih

theorem map_eq_of_forall₂ {α : Type} {f : Node → α} {ms ns : List Node}
    (h : List.Forall₂ (fun m n => f n = f m) ms ns) : ns.map f = ms.map f := by
  induction h with
  | nil => rfl
  | cons hmn _ ih => rw [List.map_cons, List.map_cons, hmn, ih]

theorem flatMap_eq_of_forall₂ {α : Type} {f : Node → List α} {ms ns : List Node}
    (h : List.Forall₂ (fun m n => f n = f m) ms ns) : ns.flatMap f = ms.flatMap f :=
  congrArg List.flatten (map_eq_of_forall₂ h)

theorem size_eq (h : m.Relined n) : n.size = m.size := by
  refine relined_induction (P := fun m n => n.size = m.size) (fun m n _ hchildren => ?_) h
  rw [Node.size_eq, Node.size_eq, List.length_flatMap, List.length_flatMap]
  exact congrArg (fun sizes => sizes.sum + 1) (map_eq_of_forall₂ hchildren)

theorem isEffectFree_eq (h : m.Relined n) : n.form.isEffectFree = m.form.isEffectFree :=
  h.sameForm.eq_of_forms (fun n => n.form.isEffectFree) fun _ _ _ _ pairs => by cases pairs <;> rfl

theorem isPure_eq (h : m.Relined n) : n.isPure = m.isPure := by
  refine relined_induction (P := fun m n => n.isPure = m.isPure) (fun m n hmn hchildren => ?_) h
  have hall : n.children.all isPure = m.children.all isPure := by
    rw [← Function.id_comp isPure, ← List.all_map, ← List.all_map, map_eq_of_forall₂ hchildren]
  rw [Node.isPure_eq, Node.isPure_eq m, hmn.isEffectFree_eq, hall]

theorem ownReads_eq (h : m.Relined n) : n.ownReads = m.ownReads :=
  h.sameForm.eq_of_forms ownReads fun _ _ _ _ pairs => by cases pairs <;> rfl

theorem ownCalls_eq (h : m.Relined n) : n.ownCalls = m.ownCalls := by
  cases h with
  | block _ _ _ _ => rfl
  | node pairs _ hchildren =>
    cases pairs with
    | call name _ =>
      exact congrArg Option.toList (hchildren name (by simp [Form.children])).name?_eq
    | _ => rfl

theorem ownTargets_eq (h : m.Relined n) : n.ownTargets = m.ownTargets := by
  cases h with
  | block _ _ _ _ => rfl
  | node pairs _ hchildren =>
    cases pairs with
    | assign name value =>
      obtain ⟨hname, hvalue⟩ := forall_mem_two.mp hchildren
      simp only [ownTargets, Form.map, hname.name?_eq, hvalue.isPure_eq]
    | _ => rfl

theorem used_eq (h : m.Relined n) : n.used = m.used := by
  refine relined_induction (P := fun m n => n.used = m.used) (fun m n hmn hchildren => ?_) h
  rw [Node.used_eq, Node.used_eq m, hmn.ownReads_eq, hmn.ownCalls_eq, hmn.ownTargets_eq,
    flatMap_eq_of_forall₂ hchildren]

theorem isFunction_eq (h : m.Relined n) : n.isFunction = m.isFunction :=
  h.sameForm.eq_of_forms isFunction fun _ _ _ _ pairs => by cases pairs <;> rfl

theorem usedFrom_eq (h : m.Relined n) : ∀ inside, n.usedFrom inside = m.usedFrom inside := by
  refine relined_induction (P := fun m n => ∀ inside, n.usedFrom inside = m.usedFrom inside)
    (fun m n hmn hchildren inside => ?_) h
  rw [Node.usedFrom_eq, Node.usedFrom_eq _ m, hmn.ownReads_eq, hmn.ownCalls_eq, hmn.isFunction_eq,
    flatMap_eq_of_forall₂ (hchildren.imp fun _ _ h => h _)]

theorem target?_eq (h : m.Relined n) : n.target? = m.target? := by
  cases h with
  | block _ _ _ _ => rfl
  | node pairs _ hchildren =>
    cases pairs with
    | assign name _ | declare name _ | define name _ =>
      exact (forall_mem_two.mp hchildren).1.name?_eq
    | function name _ _ => exact (hchildren name (by simp [Form.children])).name?_eq
    | _ => rfl

theorem isAssign_eq (h : m.Relined n) : n.isAssign = m.isAssign :=
  h.sameForm.eq_of_forms isAssign fun _ _ _ _ pairs => by cases pairs <;> rfl

theorem isValueless_eq (h : m.Relined n) : n.isValueless = m.isValueless :=
  h.sameForm.eq_of_forms isValueless fun _ _ _ _ pairs => by cases pairs <;> rfl

theorem isDead_eq (live : Liveness) (h : m.Relined n) : live.isDead n = live.isDead m := by
  have htarget := h.target?_eq
  unfold Liveness.isDead
  rw [htarget]
  cases h with
  | block _ _ _ _ => rfl
  | node pairs _ hchildren =>
    cases pairs with
    | assign _ value | define _ value =>
      simp only [Form.map, (forall_mem_two.mp hchildren).2.isPure_eq]
    | _ => rfl

/-- Blocks that agree have the same names in use. -/
theorem ofBlock_eq (everywhere outer : Names) {beside beside' ms ns : List Node}
    (hbeside : List.Forall₂ Relined beside beside') (h : List.Forall₂ Relined ms ns) :
    Liveness.ofBlock everywhere outer beside' ns = Liveness.ofBlock everywhere outer beside ms := by
  have hdeclared : (ns.filter fun n => !n.isAssign).filterMap target? =
      (ms.filter fun n => !n.isAssign).filterMap target? := by
    induction h with
    | nil => rfl
    | cons hmn _ ih =>
      simp only [List.filter_cons, hmn.isAssign_eq]
      split
      · rw [List.filterMap_cons, List.filterMap_cons, hmn.target?_eq, ih]
      · exact ih
  have hused : (beside' ++ ns).flatMap used = (beside ++ ms).flatMap used :=
    flatMap_eq_of_forall₂ ((List.rel_append hbeside h).imp fun _ _ h => h.used_eq)
  unfold Liveness.ofBlock
  rw [hused, hdeclared]

/-! ## Sweeps -/

/-- Sweeps of statements that agree keep the same ones. -/
theorem relined_sweepAll {everywhere : Names} {live : Liveness} {observed : Bool}
    {pairs : List (Node × Node)} (hpairs : ∀ pair ∈ pairs, pair.1.Relined pair.2)
    (h : ∀ pair ∈ pairs, ∀ last, (sweep everywhere live.visible none last pair.1).Relined
      (sweep everywhere live.visible none last pair.2)) (yields : Bool) :
    List.Forall₂ Relined (sweepAll everywhere live observed yields (pairs.map Prod.fst))
      (sweepAll everywhere live observed yields (pairs.map Prod.snd)) := by
  induction pairs generalizing yields with
  | nil => exact .nil
  | cons pair pairs ih =>
    obtain ⟨hpair, hpairs⟩ := List.forall_mem_cons.mp hpairs
    obtain ⟨hsweep, hsweeps⟩ := List.forall_mem_cons.mp h
    simp only [List.map_cons, sweepAll, List.isEmpty_map, hpair.isDead_eq, hpair.isValueless_eq]
    split
    · exact ih hpairs hsweeps _
    · exact .cons (hsweep _) (ih hpairs hsweeps _)

/-- **A sweep keeps trees the same.** -/
theorem relined_sweep (everywhere : Names) (h : m.Relined n) :
    ∀ outer head head' observed, Option.Rel (List.Forall₂ Relined) head head' →
      (sweep everywhere outer head observed m).Relined
        (sweep everywhere outer head' observed n) := by
  induction h with
  | @block id id' line line' ms ns pairs hms hns hpairs ih =>
    intro outer head head' observed hhead
    rw [List.filter_true] at hms hns
    subst hms hns
    cases hhead with
    | none => exact .block pairs (List.filter_true _) (List.filter_true _) hpairs
    | @some beside beside' hbeside =>
      rw [sweep_of_block rfl, sweep_of_block rfl,
        ofBlock_eq everywhere outer hbeside (forall₂_of_pairs hpairs)]
      refine of_statements ?_
      rw [List.filter_true, List.filter_true]
      exact relined_sweepAll hpairs (fun pair hpair last => ih pair hpair _ _ _ last .none) false
  | @node id id' line pairs hblock hchildren ih =>
    intro outer head head' observed _
    cases pairs with
    | block _ => cases hblock
    | program body =>
      have hbody := ih body (by simp [Form.children]) outer (some []) (some []) true (.some .nil)
      exact of_forms (.program (_, _)) rfl rfl rfl rfl (List.forall_mem_singleton.mpr hbody)
    | scope body =>
      have hbody := ih body (by simp [Form.children]) outer (some []) (some []) observed
        (.some .nil)
      exact of_forms (.scope (_, _)) rfl rfl rfl rfl (List.forall_mem_singleton.mpr hbody)
    | branch guard body =>
      have hguard := hchildren guard (by simp [Form.children])
      have hbody := ih body (by simp [Form.children]) outer (some [guard.1]) (some [guard.2])
        observed (.some (.cons hguard .nil))
      exact of_forms (.branch guard (_, _)) rfl rfl rfl rfl (forall_mem_two.mpr ⟨hguard, hbody⟩)
    | whileLoop guard body =>
      have hguard := hchildren guard (by simp [Form.children])
      have hbody := ih body (by simp [Form.children]) outer (some [guard.1]) (some [guard.2])
        observed (.some (.cons hguard .nil))
      exact of_forms (.whileLoop guard (_, _)) rfl rfl rfl rfl (forall_mem_two.mpr ⟨hguard, hbody⟩)
    | forLoop start guard step body =>
      have hstart := hchildren start (by simp [Form.children])
      have hguard := hchildren guard (by simp [Form.children])
      have hstep := hchildren step (by simp [Form.children])
      have hbody := ih body (by simp [Form.children]) outer (some [start.1, guard.1, step.1])
        (some [start.2, guard.2, step.2]) observed
        (.some (.cons hstart (.cons hguard (.cons hstep .nil))))
      exact of_forms (.forLoop start guard step (_, _)) rfl rfl rfl rfl (List.forall_mem_cons.mpr
        ⟨hstart, List.forall_mem_cons.mpr ⟨hguard, forall_mem_two.mpr ⟨hstep, hbody⟩⟩⟩)
    | function name params body =>
      have hbody := ih body (by simp [Form.children]) outer (some []) (some []) true (.some .nil)
      cases params with
      | none =>
        have hname := hchildren name (by simp [Form.children])
        exact of_forms (.function name none (_, _)) rfl rfl rfl rfl
          (forall_mem_two.mpr ⟨hname, hbody⟩)
      | some params =>
        have hname := hchildren name (by simp [Form.children])
        have hparams := hchildren params (by simp [Form.children])
        exact of_forms (.function name (some params) (_, _)) rfl rfl rfl rfl
          (List.forall_mem_cons.mpr ⟨hname, forall_mem_two.mpr ⟨hparams, hbody⟩⟩)
    | _ => exact of_forms _ rfl rfl rfl rfl hchildren

theorem relined_sweepProgram (h : m.Relined n) : (sweepProgram m).Relined (sweepProgram n) := by
  unfold sweepProgram
  have husage : n.usedEverywhere = m.usedEverywhere := h.usedFrom_eq false
  rw [husage]
  exact relined_sweep _ h _ _ _ _ .none

/-- **Without dead code trees stay the same up to lines of blocks and ids.** -/
theorem relined_eliminate {m n : Node} (h : m.Relined n) :
    (eliminate m).Relined (eliminate n) := by
  have hswept := h.relined_sweepProgram
  rw [eliminate_eq m, eliminate_eq n, hswept.size_eq, h.size_eq]
  split
  · exact relined_eliminate hswept
  · exact hswept
termination_by m.size

end Node.Parallel

/-- **Optimised trees are the same up to lines of blocks and ids** if the trees are the
    same up to comments. -/
theorem relined_optimize {m n : Node} (h : m.Recommented n) (dropDeadCode : Bool) (i j : Nat) :
    ((optimize dropDeadCode m).run i).1.Relined ((optimize dropDeadCode n).run j).1 := by
  have hsimplified : ((simplify m).run i).1.Relined ((simplify n).run j).1 :=
    h.relined_simplify _ _ ⟨i, rfl⟩ ⟨j, rfl⟩
  cases dropDeadCode with
  | true => exact hsimplified.relined_eliminate
  | false => exact hsimplified

end Scriptlet
