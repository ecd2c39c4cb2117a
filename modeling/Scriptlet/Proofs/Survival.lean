import Mathlib.Logic.Function.Iterate
import Scriptlet.Proofs.Pruning
import Scriptlet.Token.Lexeme
import Scriptlet.Tree.Parser

/-!
# What is left without dead code

Sweeps are repeated until one changes nothing. This module says what that means for
the tree that is left: which statements are gone, and why each binding that is still
there was kept.

`Visits` relates a tree to the blocks that a sweep over it visits, each with the uses
that matter there. A sweep changes nothing exactly if it keeps every statement of
every block it visits, and a statement is kept if it is not dead or if it is the last
one of a block whose value is observed, after a statement that may yield a value.

Results:
* `sweepAll_eq_self_iff`, `sweep_eq_self_iff`: when a sweep changes nothing.
* `exists_iterate_eliminate`: how many sweeps it takes.
* `eliminated_eliminate`: what dropping dead code removes and what it keeps.
-/

namespace Scriptlet

namespace Node

/-- The names called anywhere in a tree. -/
def calls (n : Node) : Names := n.preorder.flatMap ownCalls

theorem calls_subset_used (n : Node) : n.calls ⊆ n.used := by
  intro x hx
  obtain ⟨k, hk, hx⟩ := List.mem_flatMap.mp hx
  exact List.mem_flatMap.mpr ⟨k, hk, by simp [hx]⟩

theorem calls_subset_usedEverywhere (n : Node) : n.calls ⊆ n.usedEverywhere := by
  intro x hx
  obtain ⟨k, hk, hx⟩ := List.mem_flatMap.mp hx
  exact usedEverywhere_subset_of_mem hk (ownCalls_subset k hx)

/-- What a function in a tree reads is used everywhere in the tree. -/
theorem reads_subset_usedEverywhere_of_mem {f name body n : Node} {parameters : Option Node}
    (hf : f ∈ n.preorder) (hform : f.form = .function name parameters body) :
    body.reads ⊆ n.usedEverywhere := by
  have hfunction : f.isFunction = true := by simp [isFunction, hform]
  have hbody : body ∈ f.children := mem_children_of_body? (by rw [hform]; rfl)
  exact List.Subset.trans (reads_subset_usedEverywhere hfunction hbody)
    (usedEverywhere_subset_of_mem hf)

/-- The value that a statement binds to a name. -/
def bound? (n : Node) : Option Node :=
  match n.form with
  | .define _ value | .assign _ value => some value
  | _ => none

end Node

/-- The names whose use keeps a binding of `x`. An assignment to a variable that the
    block does not declare is also kept by the uses around the block. -/
def Liveness.usesFor (live : Liveness) (n : Node) (x : String) : Names :=
  if n.isAssign && !live.declared.contains x then live.visible else live.near

namespace Optimize

open Node

/-- A binding that is not dead is used, or its value has effects. -/
theorem used_or_impure_of_not_isDead {live : Liveness} {n : Node} {x : String}
    (h : live.isDead n = false) (hx : n.target? = some x) :
    x ∈ live.usesFor n x ∨ ∃ value, n.bound? = some value ∧ value.isPure = false := by
  obtain ⟨id, line, form⟩ := n
  unfold Liveness.isDead at h
  simp only [hx] at h
  unfold Liveness.usesFor
  cases form with
  | declare name type => exact .inl (by simpa [isAssign] using h)
  | function name parameters body => exact .inl (by simpa [isAssign] using h)
  | define name value =>
    simp only [Bool.and_eq_false_iff] at h
    exact h.imp (by simp [isAssign]) fun hvalue => ⟨value, rfl, hvalue⟩
  | assign name value =>
    simp only [Bool.and_eq_false_iff] at h
    refine h.imp (fun hused => ?_) fun hvalue => ⟨value, rfl, hvalue⟩
    by_cases hdeclared : x ∈ live.declared <;> simpa [isAssign, hdeclared] using hused
  | _ => cases hx

/-! ## Sweeps that change nothing -/

/-- Whether the statement that ends a list may yield a value; before all statements
    that is `yields`. -/
def endsYielding (yields : Bool) (ns : List Node) : Bool :=
  (ns.getLast?.map fun n => !n.isValueless).getD yields

theorem endsYielding_cons (yields : Bool) (n : Node) (ns : List Node) :
    endsYielding yields (n :: ns) = endsYielding (!n.isValueless) ns := by
  unfold endsYielding
  rw [List.getLast?_cons]
  cases ns.getLast? <;> rfl

theorem exists_of_endsYielding {ns : List Node} (h : endsYielding false ns = true) :
    ∃ m ∈ ns.getLast?, m.isValueless = false := by
  unfold endsYielding at h
  cases hlast : ns.getLast? with
  | none => simp [hlast] at h
  | some m => exact ⟨m, rfl, by simpa [hlast] using h⟩

/-- Whether the statement `n` stays between the statements `before` and `after`: it is
    not dead, or it is the last one of a block whose value is observed and the
    statement before it may yield a value. -/
def Stays (live : Liveness) (observed yields : Bool) (before : List Node) (n : Node)
    (after : List Node) : Prop :=
  live.isDead n = true → observed = true ∧ after = [] ∧ endsYielding yields before = true

theorem sizes_sweepAll_le (everywhere : Names) (live : Liveness) (observed yields : Bool)
    (ns : List Node) : sizes (sweepAll everywhere live observed yields ns) ≤ sizes ns := by
  have hless : sweepAll everywhere live observed yields ns = ns ∨
      sizes (sweepAll everywhere live observed yields ns) < sizes ns :=
    sweepAll_eq_or_sizes_lt ns (fun n _ _ _ _ => sweep_eq_or_size_lt everywhere _ _ _ n) yields
  exact hless.elim (fun hsame => Nat.le_of_eq (congrArg sizes hsame)) Nat.le_of_lt

/-- **A sweep over the statements of a block changes nothing if each of them stays and
    the sweep does not change it, and only then.** -/
theorem sweepAll_eq_self_iff {everywhere : Names} {live : Liveness} {observed : Bool}
    (yields : Bool) (ns : List Node) :
    sweepAll everywhere live observed yields ns = ns ↔
      ∀ before n after, ns = before ++ n :: after → Stays live observed yields before n after ∧
        sweep everywhere live.visible none (observed && after.isEmpty) n = n := by
  induction ns generalizing yields with
  | nil => simp [sweepAll]
  | cons m ns ih =>
    simp only [sweepAll]
    split
    · next hdead =>
      -- a statement that is dropped makes the list shorter
      refine iff_of_false (fun hsame => ?_) fun hall => ?_
      · have hle := sizes_sweepAll_le everywhere live observed yields ns
        have hpos := size_pos m
        rw [hsame, sizes_cons] at hle
        omega
      · obtain ⟨hobserved, hnil, hyields⟩ :=
          (hall [] m ns rfl).1 (Bool.and_eq_true _ _ ▸ hdead).1
        simp_all [endsYielding]
    · next hkept =>
      rw [List.cons.injEq, ih]
      constructor
      · rintro ⟨hm, hrest⟩ before n after hsplit
        cases before with
        | nil =>
          obtain ⟨rfl, rfl⟩ := List.cons.inj hsplit
          refine ⟨fun hdead => ?_, hm⟩
          simpa [hdead, endsYielding, and_assoc] using hkept
        | cons m' before =>
          obtain ⟨rfl, hsplit'⟩ := List.cons.inj hsplit
          obtain ⟨hstays, hn⟩ := hrest before n after hsplit'
          refine ⟨fun hdead => ?_, hn⟩
          rw [endsYielding_cons]
          exact hstays hdead
      · intro hall
        refine ⟨(hall [] m ns rfl).2, fun before n after hsplit => ?_⟩
        obtain ⟨hstays, hn⟩ := hall (m :: before) n after (by rw [hsplit]; rfl)
        refine ⟨fun hdead => ?_, hn⟩
        rw [← endsYielding_cons yields]
        exact hstays hdead

/-- The blocks that a sweep over a tree visits, with the uses that matter there, with
    whether their value is observed, and with their statements. `outer` and `observed`
    are what the sweep knows of the tree. -/
inductive Visits (everywhere : Names) :
    Names → Bool → Node → Liveness → Bool → List Node → Prop
  /-- a body that is a block -/
  | body {outer : Names} {observed : Bool} {n b : Node} {ns : List Node} :
      n.form.body? = some b → b.form = .block ns →
      Visits everywhere outer observed n (.ofBlock everywhere outer n.form.heading ns)
        (n.form.observes observed) ns
  /-- a body that is itself a statement with a body -/
  | within {outer : Names} {observed : Bool} {n b : Node} {live : Liveness} {watched : Bool}
      {ns : List Node} : n.form.body? = some b →
      Visits everywhere outer (n.form.observes observed) b live watched ns →
      Visits everywhere outer observed n live watched ns
  /-- a block inside a statement of a block -/
  | statement {outer : Names} {observed : Bool} {m n : Node} {live live' : Liveness}
      {watched watched' : Bool} {before after ns : List Node} :
      Visits everywhere outer observed n live watched (before ++ m :: after) →
      Visits everywhere live.visible (watched && after.isEmpty) m live' watched' ns →
      Visits everywhere outer observed n live' watched' ns

section Fixed

variable {everywhere outer : Names} {head : Option (List Node)} {observed watched : Bool}
  {live : Liveness} {n : Node} {ns : List Node}

theorem sweep_body_eq_self_iff {b : Node} (hb : n.form.body? = some b) :
    sweep everywhere outer head observed n = n ↔
      sweep everywhere outer (some n.form.heading) (n.form.observes observed) b = b := by
  rw [sweep_of_body hb]
  constructor
  · intro hsame
    have hbody := body?_withBody hb
      (sweep everywhere outer (some n.form.heading) (n.form.observes observed) b)
    rw [hsame] at hbody
    exact Option.some.inj (hbody.symm.trans hb)
  · intro hsame
    rw [hsame, withBody_self hb]

theorem sweep_block_eq_self_iff {beside : List Node} (hns : n.form = .block ns) :
    sweep everywhere outer (some beside) observed n = n ↔
      sweepAll everywhere (.ofBlock everywhere outer beside ns) observed false ns = ns := by
  obtain ⟨id, line, form⟩ := n
  obtain rfl : form = .block ns := hns
  rw [sweep_of_block rfl]
  simp

/-- A sweep that changes nothing keeps the statements of every block it visits. -/
theorem sweepAll_of_visits (hv : Visits everywhere outer observed n live watched ns)
    (h : sweep everywhere outer head observed n = n) :
    sweepAll everywhere live watched false ns = ns := by
  induction hv generalizing head with
  | body hb hns => exact (sweep_block_eq_self_iff hns).mp ((sweep_body_eq_self_iff hb).mp h)
  | within hb _ ih => exact ih ((sweep_body_eq_self_iff hb).mp h)
  | statement _ _ ih ih' => exact ih' ((sweepAll_eq_self_iff _ _).mp (ih h) _ _ _ rfl).2

/-- **A sweep changes nothing if every statement of every block it visits stays, and only
    then.** -/
theorem sweep_eq_self_iff (everywhere outer : Names) (observed : Bool) (n : Node) :
    sweep everywhere outer none observed n = n ↔
      ∀ live watched ns, Visits everywhere outer observed n live watched ns →
        ∀ before m after, ns = before ++ m :: after → Stays live watched false before m after := by
  constructor
  · intro h live watched ns hv before m after hsplit
    exact ((sweepAll_eq_self_iff _ _).mp (sweepAll_of_visits hv h) before m after hsplit).1
  · intro hall
    induction hsize : n.size using Nat.strong_induction_on generalizing n outer observed with
    | h size ih =>
      subst hsize
      rcases sweep_cases everywhere outer none observed n with ⟨b, hb⟩ | ⟨_, _, hnone, _⟩ | hsame
      · have hless : b.size < n.size := size_lt_of_mem_children (mem_children_of_body? hb)
        refine (sweep_body_eq_self_iff hb).mpr ?_
        rcases sweep_cases everywhere outer (some n.form.heading) (n.form.observes observed) b with
          ⟨b', hb'⟩ | ⟨beside, ns, hbeside, hns⟩ | hsame
        · -- a body that is a statement is swept as such
          have hbody := ih b.size hless outer (n.form.observes observed) b
            (fun live watched ns hv => hall live watched ns (.within hb hv)) rfl
          exact (sweep_body_eq_self_iff hb').mpr ((sweep_body_eq_self_iff hb').mp hbody)
        · obtain rfl := Option.some.inj hbeside
          refine (sweep_block_eq_self_iff hns).mpr ((sweepAll_eq_self_iff _ _).mpr ?_)
          rintro before m after rfl
          have hm : m ∈ b.children := by
            rw [children, hns]
            simp [Form.children]
          refine ⟨hall _ _ _ (.body hb hns) before m after rfl, ?_⟩
          exact ih m.size ((size_lt_of_mem_children hm).trans hless) _ _ m
            (fun live watched ns hv => hall live watched ns (.statement (.body hb hns) hv)) rfl
        · exact hsame
      · cases hnone
      · exact hsame

end Fixed

/-! ## All sweeps -/

/-- No more sweeps are needed than there are nodes. -/
theorem exists_iterate_eliminate (p : Node) : ∃ k ≤ p.size, sweepProgram^[k] p = eliminate p := by
  fun_induction eliminate p with
  | case1 p swept hless ih =>
    obtain ⟨k, hk, hswept⟩ := ih
    exact ⟨k + 1, by omega, hswept⟩
  | case2 p swept hless => exact ⟨1, size_pos p, rfl⟩

/-- What dropping dead code from `p` removes and keeps, if it leaves `q`. -/
structure Eliminated (p q : Node) : Prop where
  /-- it takes finitely many sweeps -/
  sweeps : ∃ k ≤ p.size, sweepProgram^[k] p = q
  /-- all that happens is that statements are deleted from blocks, and these do nothing
      but bind a name -/
  pruned : Pruned (fun _ _ n => n.isRemovable = true) [] p q
  /-- a statement that is missing from the block `c`, which was the block `b`, bound a
      name that is neither read nor called in the block or alongside it, that is called
      nowhere, and that no function reads -/
  unused : ∀ b ∈ p.preorder, ∀ c ∈ q.preorder, c.id = b.id →
    ∀ ms ns, b.form = .block ms → c.form = .block ns →
    ∀ n ∈ ms, (∀ m ∈ ns, m.id ≠ n.id) → ∃ x, n.target? = some x ∧
      x ∉ c.reads ∧ x ∉ c.calls ∧
      (∀ s ∈ q.preorder, s.form.body? = some c → ∀ m ∈ s.form.heading, x ∉ m.reads ∧ x ∉ m.calls) ∧
      x ∉ q.calls ∧
      ∀ f ∈ q.preorder, ∀ name parameters body, f.form = .function name parameters body →
        x ∉ body.reads
  /-- a binding of a name in a block that a sweep visits is used, or its value has
      effects, or it is the last statement of a block whose value is observed, after a
      statement that may yield a value -/
  kept : ∀ live observed ns, Visits q.usedEverywhere [] true q live observed ns →
    ∀ before n after x, ns = before ++ n :: after → n.target? = some x →
      x ∈ live.usesFor n x ∨ (∃ value, n.bound? = some value ∧ value.isPure = false) ∨
        (observed = true ∧ after = [] ∧ ∃ m ∈ before.getLast?, m.isValueless = false)

/-- **What dropping dead code removes and what it keeps**, for a tree with pairwise
    distinct ids. -/
theorem eliminated_eliminate (p : Node) (hids : p.ids.Nodup) : Eliminated p (eliminate p) := by
  have hpruned := pruned_eliminate p
  refine ⟨exists_iterate_eliminate p, hpruned.mono fun _ _ _ h => h.removable, ?_, ?_⟩
  · intro b hb c hc hid ms ns hms hns n hn hgone
    obtain ⟨beside, halongside, -, x, hx, heverywhere, hnear⟩ :=
      hpruned.exists_of_deleted hids hb hc hid hms hns hn hgone
    have hused : x ∉ c.used := by
      intro hc'
      rw [used_eq, children, hns] at hc'
      obtain ⟨m, hm, hxm⟩ : ∃ m ∈ ns, x ∈ m.used := by
        simpa [ownReads, ownCalls, ownTargets, hns, Form.children] using hc'
      exact hnear m (List.mem_append_right _ hm) hxm
    refine ⟨x, hx, fun h => hused (reads_subset_used c h), fun h => hused (calls_subset_used c h),
      fun s hs hsc m hm => ?_, fun h => heverywhere (calls_subset_usedEverywhere _ h),
      fun f hf name parameters body hform h =>
        heverywhere (reads_subset_usedEverywhere_of_mem hf hform h)⟩
    have hm' : x ∉ m.used := hnear m (List.mem_append_left _ (halongside.body s hs hsc ▸ hm))
    exact ⟨fun h => hm' (reads_subset_used m h), fun h => hm' (calls_subset_used m h)⟩
  · intro live observed ns hv before n after x hsplit hx
    have hstays := (sweep_eq_self_iff _ _ _ _).mp (sweepProgram_eliminate p) live observed ns hv
      before n after hsplit
    cases hdead : live.isDead n with
    | false =>
      rcases used_or_impure_of_not_isDead hdead hx with hused | himpure
      · exact .inl hused
      · exact .inr (.inl himpure)
    | true =>
      obtain ⟨hobserved, hafter, hyields⟩ := hstays hdead
      exact .inr (.inr ⟨hobserved, hafter, exists_of_endsYielding hyields⟩)

/-- A variable that is read only for another one without use, in a loop and in a
    function, so that it takes two sweeps. -/
theorem eliminated_eliminate_of_cascade :
    let p := (parse (tokenize ("t := 1; function f(x: int) = { u := x; v := u; x + 1 }; i := 0; " ++
      "while (i < 2) { { t := 5; t = 6 }; i = f(i); w: int }; i; t = 2")).1 0).tree
    p.ids.Nodup ∧ (sweepProgram (sweepProgram p)).size < (sweepProgram p).size ∧
      Eliminated p (eliminate p) := by
  intro p
  have hids : p.ids.Nodup := by decide +kernel
  exact ⟨hids, by decide +kernel, eliminated_eliminate p hids⟩

end Optimize

end Scriptlet
