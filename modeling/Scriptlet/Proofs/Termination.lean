import Scriptlet.Proofs.Evolution
import Scriptlet.Proofs.Trees

/-!
# Programs without loops

Only a loop can keep a program running. Evaluating a node goes down its tree, and
a call goes on with a body that may be larger than the node itself; but the
number of calls inside each other is limited, so every call has fewer calls left
than the one around it. Arguments are evaluated before the call they belong to
is counted, with as many calls left as the node has, and they are smaller than
the node.

The functions of a program may change while it runs. A function that is defined
on the way has a body that is a part of the tree being evaluated, so it brings
no loop with it, and its size is no larger than those known before.

Results:
* `Ends.step`: a rule ends if the children and the bodies of functions do.
* `ends_eval`: a bound that is always enough, from the calls left and the sizes.
* `terminates_of_loopFree`: a program without loops terminates.
-/

namespace Scriptlet

open Eval

/-! ## Trees without loops -/

namespace Node

/-- Whether a node is a loop. -/
def isLoop (n : Node) : Bool :=
  match n.form with
  | .whileLoop _ _ => true
  | .forLoop _ _ _ _ => true
  | _ => false

/-- No node of a tree is a loop. -/
def LoopFree (n : Node) : Prop := n.All fun m => m.isLoop = false

instance : DecidablePred LoopFree := fun n =>
  inferInstanceAs (Decidable (n.All fun m => m.isLoop = false))

end Node

/-! ## Steps that end -/

/-- The functions of a context have no loops and bodies of at most `limit` nodes,
    and at most `left` further calls may be made inside each other. -/
structure Context.Allows (limit left : Nat) (c : Context) : Prop where
  bodies : ∀ d ∈ c.functions, d.body.LoopFree ∧ d.body.size ≤ limit
  calls : c.maxCallDepth ≤ c.callDepth + left

/-- A step ends in every context of this kind, in a context of the same kind. -/
def Ends {α : Type} (limit left : Nat) (m : Eval α) : Prop :=
  ∀ c, c.Allows limit left → ∃ a c', m.run c = some (a, c') ∧ c'.Allows limit left

namespace Context.Allows

variable {limit left : Nat} {c : Context}

theorem withScopes (h : c.Allows limit left) (s : Scopes) :
    { c with scopes := s }.Allows limit left :=
  ⟨h.bodies, h.calls⟩

theorem write (h : c.Allows limit left) (line : OutputLine) : (c.write line).Allows limit left :=
  ⟨h.bodies, h.calls⟩

theorem record (h : c.Allows limit left) (d : Diagnostic) : (c.record d).Allows limit left := by
  unfold Context.record
  split
  · exact ⟨h.bodies, h.calls⟩
  · exact ⟨h.bodies, h.calls⟩

theorem register (h : c.Allows limit left) {c' : Context} {d : Definition}
    (hd : d.body.LoopFree ∧ d.body.size ≤ limit) (hc' : c.register d = .ok c') :
    c'.Allows limit left := by
  unfold Context.register at hc'
  split at hc'
  · cases hc'
  · split at hc'
    · cases hc'
    · cases hc'
      exact ⟨List.forall_mem_cons.mpr ⟨hd, h.bodies⟩, h.calls⟩

end Context.Allows

namespace Ends

variable {α β : Type} {limit left : Nat}

theorem pure (a : α) : Ends limit left (pure a) := fun c hc => ⟨a, c, rfl, hc⟩

theorem bind {m : Eval α} {f : α → Eval β} (hm : Ends limit left m)
    (hf : ∀ a, Ends limit left (f a)) : Ends limit left (m >>= f) := by
  intro c hc
  obtain ⟨a, c', h1, hc'⟩ := hm c hc
  obtain ⟨b, c'', h2, hc''⟩ := hf a c' hc'
  exact ⟨b, c'', run_bind_eq_some.mpr ⟨a, c', h1, h2⟩, hc''⟩

/-- After reading the context, what follows may depend on it. -/
theorem get_bind {f : Context → Eval α} (hf : ∀ c, c.Allows limit left →
      ∃ a c', (f c).run c = some (a, c') ∧ c'.Allows limit left) :
    Ends limit left (get >>= f) := by
  intro c hc
  obtain ⟨a, c', h, hc'⟩ := hf c hc
  exact ⟨a, c', run_bind_eq_some.mpr ⟨c, c, rfl, h⟩, hc'⟩

theorem get : Ends limit left (get : Eval Context) := fun c hc => ⟨c, c, rfl, hc⟩

theorem modify {f : Context → Context}
    (hf : ∀ c : Context, c.Allows limit left → (f c).Allows limit left) :
    Ends limit left (modify f : Eval Unit) := fun c hc => ⟨(), f c, rfl, hf c hc⟩

theorem report (fault : Fault) (line : Nat) : Ends limit left (report fault line) :=
  modify fun _ hc => hc.record (.runtime fault line)

theorem settle (line : Nat) (result : Except Fault α) : Ends limit left (settle line result) := by
  cases result with
  | ok a => exact pure (some a)
  | error fault => exact bind (report fault line) fun _ => pure none

theorem setScopes (line : Nat) (change : Change Unit Scopes) :
    Ends limit left (setScopes line change) := by
  refine bind (modify fun _ hc => hc.withScopes _) fun _ => ?_
  cases change.1 with
  | ok _ => exact pure ()
  | error fault => exact report fault line

theorem inScope {m : Eval α} (hm : Ends limit left m) : Ends limit left (inScope m) :=
  bind (modify fun _ hc => hc.withScopes _) fun _ => bind hm fun a =>
    bind (modify fun _ hc => hc.withScopes _) fun _ => pure a

theorem defineFunction (line : Nat) {d : Definition}
    (hd : d.body.LoopFree ∧ d.body.size ≤ limit) : Ends limit left (Eval.define line d) := by
  refine get_bind fun c hc => ?_
  split
  · next c' hc' => exact ⟨none, c', rfl, hc.register hd hc'⟩
  · next fault _ => exact bind (report fault line) (fun _ => pure none) c hc

/-! ## Rules -/

section Evaluator

variable {ev : Evaluator}

theorem required {n : Node} (h : Ends limit left (ev n)) (missing : Fault) :
    Ends limit left (required ev missing n) := by
  refine bind get fun before => bind h fun value => bind get fun after => ?_
  split
  · exact bind (report missing n.line) fun _ => pure value
  · exact pure value

theorem operand {n : Node} (h : Ends limit left (ev n)) : Ends limit left (operand ev n) :=
  required h _

theorem combine {l r : Node} (hl : Ends limit left (ev l)) (hr : Ends limit left (ev r))
    (line : Nat) (f : Value → Value → Except Fault Value) :
    Ends limit left (combine ev line l r f) := by
  refine bind (operand hl) fun a => bind (operand hr) fun b => ?_
  cases a <;> cases b <;> first | exact pure none | exact settle line _

theorem transform {n : Node} (h : Ends limit left (ev n)) (line : Nat)
    (f : Value → Except Fault Value) : Ends limit left (transform ev line n f) := by
  refine bind (operand h) fun a => ?_
  cases a with
  | none => exact pure none
  | some a => exact settle line (f a)

theorem guard {n : Node} (h : Ends limit left (ev n)) : Ends limit left (guard ev n) := by
  refine bind (operand h) fun a => ?_
  split
  · exact pure _
  · exact bind (report _ n.line) fun _ => pure none
  · exact pure none

theorem sequence {ns : List Node} (h : ∀ n ∈ ns, Ends limit left (ev n)) :
    ∀ last, Ends limit left (sequence ev last ns) := by
  induction ns with
  | nil => exact pure
  | cons n ns ih =>
    intro last
    have hrest := ih fun m hm => h m (List.mem_cons_of_mem n hm)
    simp only [Eval.sequence]
    split
    · exact hrest last
    · exact bind (h n List.mem_cons_self) hrest

theorem operands {ns : List Node} (h : ∀ n ∈ ns, Ends limit left (ev n)) :
    Ends limit left (operands ev ns) := by
  induction ns with
  | nil => exact pure []
  | cons n ns ih =>
    refine bind (operand (h n List.mem_cons_self)) fun _ => ?_
    exact bind (ih fun m hm => h m (List.mem_cons_of_mem n hm)) fun _ => pure _

/-- The body of a function is evaluated with one call less to go. -/
theorem enter {d : Definition} (hbody : Ends limit left (ev d.body)) (s : Scopes) :
    Ends limit (left + 1) (enter ev d s) := by
  intro c hc
  have hin : { c with scopes := s, callDepth := c.callDepth + 1 }.Allows limit left :=
    ⟨hc.bodies, by have := hc.calls; dsimp only; omega⟩
  obtain ⟨a, c', h, hc'⟩ := hbody _ hin
  refine ⟨a, { c' with scopes := c'.scopes.pop, callDepth := c'.callDepth - 1 }, ?_, ?_⟩
  · exact run_bind_eq_some.mpr ⟨(), _, rfl, run_bind_eq_some.mpr ⟨a, c', h, rfl⟩⟩
  · exact ⟨hc'.bodies, by have := hc'.calls; dsimp only; omega⟩

theorem apply (line : Nat) {d : Definition} (values : List (Option Value))
    (hbody : ∀ left', left = left' + 1 → Ends limit left' (ev d.body)) :
    Ends limit left (apply ev line d values) := by
  refine get_bind fun c hc => ?_
  split
  · exact settle line _ c hc
  · split
    · exact settle line _ c hc
    · next hdepth =>
      obtain ⟨left', rfl⟩ : ∃ left', left = left' + 1 :=
        ⟨left - 1, by have := hc.calls; omega⟩
      split
      · exact settle line _ c hc
      · exact pure none c hc
      · next s _ => exact enter (hbody left' rfl) s c hc

theorem call (line : Nat) (f : String) {args : Option Node}
    (hargs : ∀ n ∈ argsOf args, Ends limit left (ev n))
    (hbody : ∀ body : Node, body.LoopFree → body.size ≤ limit → ∀ left', left = left' + 1 →
      Ends limit left' (ev body)) :
    Ends limit left (call ev line f args) := by
  refine get_bind fun c hc => ?_
  split
  · exact settle line _ c hc
  · next d hd =>
    obtain ⟨hfree, hsize⟩ := hc.bodies ⟨d, f⟩ (Context.mem_of_function? hd)
    exact bind (operands hargs) (fun values => apply line values (hbody _ hfree hsize)) c hc

/-- The arguments of a call are nodes inside the call. -/
theorem smaller_of_mem_argsOf {m name : Node} {args : Option Node} {id line : Nat}
    (hn : (⟨id, line, .call name args⟩ : Node).LoopFree) (hm : m ∈ argsOf args) :
    m.LoopFree ∧ m.size < (⟨id, line, .call name args⟩ : Node).size := by
  cases args with
  | none => cases hm
  | some a =>
    have ha : a ∈ (⟨id, line, .call name (some a)⟩ : Node).children := by
      simp [Node.children, Form.children]
    have hma : m ∈ a.children := by
      obtain ⟨_, _, form⟩ := a
      cases form with
      | args values => exact hm
      | _ => cases hm
    exact ⟨(hn.child ha).child hma,
      Nat.lt_trans (Node.size_lt_of_mem_children hma) (Node.size_lt_of_mem_children ha)⟩

/-- **One step.** A node without loops ends if all smaller nodes do, and all bodies
    of functions with one call less to go. -/
theorem step {n : Node} (hn : n.LoopFree) (hsize : n.size ≤ limit)
    (hev : ∀ m : Node, m.LoopFree → m.size < n.size → Ends limit left (ev m))
    (hbody : ∀ body : Node, body.LoopFree → body.size ≤ limit → ∀ left', left = left' + 1 →
      Ends limit left' (ev body)) (bound : Nat) :
    Ends limit left (step ev bound n) := by
  have hchild : ∀ m ∈ n.children, Ends limit left (ev m) :=
    fun m hm => hev m (hn.child hm) (Node.size_lt_of_mem_children hm)
  have hloop := hn.root
  obtain ⟨id, line, form⟩ := n
  cases form with
  | program body => exact hchild body (by simp [Node.children, Form.children])
  | block statements => exact sequence hchild none
  | scope body => exact inScope (hchild body (by simp [Node.children, Form.children]))
  | branch guardNode body =>
    refine bind (guard (hchild guardNode (by simp [Node.children, Form.children]))) fun g => ?_
    split
    · exact inScope (hchild body (by simp [Node.children, Form.children]))
    · exact pure none
  | whileLoop guardNode body => cases hloop
  | forLoop start guardNode stepNode body => cases hloop
  | relation rel l r =>
    exact combine (hchild l (by simp [Node.children, Form.children]))
      (hchild r (by simp [Node.children, Form.children])) line _
  | arith op l r =>
    exact combine (hchild l (by simp [Node.children, Form.children]))
      (hchild r (by simp [Node.children, Form.children])) line _
  | print value =>
    refine bind (hchild value (by simp [Node.children, Form.children])) fun _ => ?_
    exact bind (modify fun _ hc => hc.write _) fun _ => pure none
  | assign name value =>
    refine bind (operand (hchild value (by simp [Node.children, Form.children]))) fun a => ?_
    split
    · exact bind get fun _ => bind (setScopes line _) fun _ => pure none
    · exact pure none
  | declare name ty =>
    simp only [Eval.step]
    split
    · exact bind get fun _ => bind (setScopes line _) fun _ => pure none
    · exact pure none
  | define name value =>
    refine bind (required (hchild value (by simp [Node.children, Form.children])) _) fun a => ?_
    split
    · exact bind get fun _ => bind (setScopes line _) fun _ => pure none
    · exact pure none
  | cast value ty =>
    simp only [Eval.step]
    split
    · exact transform (hchild value (by simp [Node.children, Form.children])) line _
    · exact pure none
  | function name params body =>
    have hmem : body ∈ (⟨id, line, .function name params body⟩ : Node).children := by
      simp [Node.children, Form.children]
    simp only [Eval.step]
    split
    · exact defineFunction line
        ⟨hn.child hmem, Nat.le_trans (Nat.le_of_lt (Node.size_lt_of_mem_children hmem)) hsize⟩
    · exact pure none
  | call name args =>
    simp only [Eval.step]
    split
    · refine call line _ (fun m hm => ?_) hbody
      exact hev m (smaller_of_mem_argsOf hn hm).1 (smaller_of_mem_argsOf hn hm).2
    · exact pure none
  | math fn argument =>
    exact transform (hchild argument (by simp [Node.children, Form.children])) line _
  | read name =>
    refine bind get fun c => ?_
    split
    · exact pure _
    · exact settle line _
  | _ => exact pure _

end Evaluator

end Ends

/-! ## Evaluation -/

/-- A bound that is enough: `limit + 1` for each call that is left, and the size of
    the node. -/
theorem ends_eval {limit left bound : Nat} {n : Node} (hn : n.LoopFree) (hsize : n.size ≤ limit)
    (hbound : left * (limit + 1) + n.size ≤ bound) : Ends limit left (eval bound n) := by
  induction bound generalizing left n with
  | zero => exact absurd n.size_pos (by omega)
  | succ bound ih =>
    have hpos := n.size_pos
    refine .step hn hsize (fun m hm hless => ih hm (by omega) (by omega)) ?_ bound
    rintro body hfree hle left' rfl
    refine ih hfree hle ?_
    rw [Nat.add_mul] at hbound
    omega

/-- **A program without loops terminates**, in every context whose functions have no
    loops either: however the functions call each other or themselves, and whatever
    functions the program defines itself. -/
theorem terminates_of_loopFree {n : Node} {c : Context} (hn : n.LoopFree)
    (hc : ∀ d ∈ c.functions, d.body.LoopFree) : Terminates n c := by
  let sizes := n.size :: c.functions.map fun d => d.body.size
  let limit := sizes.max?.getD 0
  have hallows : c.Allows limit (c.maxCallDepth - c.callDepth) := by
    refine ⟨fun d hd => ⟨hc d hd, List.le_max?_getD_of_mem ?_⟩, by omega⟩
    exact List.mem_cons_of_mem _ (List.mem_map_of_mem hd)
  have hsize : n.size ≤ limit := List.le_max?_getD_of_mem List.mem_cons_self
  obtain ⟨value, c', hrun, -⟩ := ends_eval hn hsize (Nat.le_refl _) c hallows
  exact ⟨value, c', _, hrun⟩

/-- In a context where `f` calls itself twice, once for its own argument, a program
    that defines `g`, which calls both `f` and itself, and then calls `g`. -/
theorem terminates_of_loopFree_of_recursion :
    let call (f : String) (args : List Node) : Node :=
      ⟨0, 1, .call ⟨0, 1, .binder f⟩ (some ⟨0, 1, .args args⟩)⟩
    let x : Node := ⟨0, 1, .read "x"⟩
    let c : Context := { Context.initial 5 false true with
      functions := [⟨⟨"f", [("x", .int)], call "f" [call "f" [x]]⟩, "f"⟩], callDepth := 2 }
    let params : Node := ⟨0, 1, .params [(⟨0, 1, .binder "x"⟩, ⟨0, 1, .ty .int⟩)]⟩
    let body : Node := ⟨0, 1, .block [call "f" [x], call "g" [x]]⟩
    let n : Node := ⟨0, 1, .block
      [⟨0, 1, .function ⟨0, 1, .binder "g"⟩ (some params) body⟩, call "g" [⟨0, 1, .int 3⟩]]⟩
    n.LoopFree ∧ (∀ d ∈ c.functions, d.body.LoopFree) ∧ Terminates n c := by
  intro call x c params body n
  have hn : n.LoopFree := by decide +kernel
  have hc : ∀ d ∈ c.functions, d.body.LoopFree := by decide +kernel
  exact ⟨hn, hc, terminates_of_loopFree hn hc⟩

end Scriptlet
