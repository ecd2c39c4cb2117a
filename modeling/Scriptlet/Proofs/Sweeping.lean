import Scriptlet.Proofs.Effects
import Scriptlet.Proofs.Idempotence
import Scriptlet.Proofs.Levels
import Scriptlet.Proofs.Shape
import Scriptlet.Proofs.Tidy

/-!
# Following a sweep

A program and what a tidy sweep leaves of it run side by side. Their scopes are
alike level by level: the scope of a block that was swept lacks the variables
whose declarations were dropped and has old values where assignments were
dropped; all other scopes are the same. Functions that are never called may be
missing on the second side, and the bodies of the others may be swept.

Results:
* `Setting.mirrors_same`: a tree that both programs evaluate.
* `Setting.mirrors_sequence`: the statements of a block and what is left of them.
* `Setting.follows`: both, within every bound.
-/

namespace Scriptlet.Optimize

open Eval

/-- What may differ between the scopes of a block and of what a sweep left of it.
    `stale` are the names to which any assignment was dropped. -/
def Site.level (s : Site) (stale : Names) : Level where
  live x := x ∈ s.live.near ∨ x ∉ stale
  lost x := x ∈ s.lost

theorem Site.carries_level {s : Site} {stale : Names} {x : String} (h : x ∈ s.live.near) :
    (s.level stale).Carries x :=
  ⟨.inl h, fun hlost => not_mem_near_of_lost hlost h⟩

/-- What is fixed while a sweep over a program is followed. -/
structure Setting where
  /-- the names used everywhere in the program -/
  everywhere : Names
  /-- the names to which an assignment is dropped -/
  stale : Names
  /-- what may differ between the global scopes -/
  globals : Level

namespace Setting

variable {w : Setting} {ls : List Level} {n m : Node} {x : String}

/-- Names used everywhere are good in all scopes. -/
def Open (w : Setting) (ls : List Level) : Prop :=
  ∀ l ∈ w.globals :: ls, ∀ x ∈ w.everywhere, l.Carries x

theorem Open.push {l : Level} (h : w.Open ls) (hl : ∀ x ∈ w.everywhere, l.Carries x) :
    w.Open (l :: ls) := by
  intro k hk
  rcases List.mem_cons.mp hk with rfl | hk
  · exact h _ (by simp)
  · rcases List.mem_cons.mp hk with rfl | hk
    · exact hl
    · exact h k (List.mem_cons_of_mem _ hk)

/-- A tree that can run in such scopes. -/
structure Runs (w : Setting) (ls : List Level) (n : Node) : Prop where
  shaped : n.Shaped
  reads : ∀ x ∈ n.reads, ∀ l ∈ w.globals :: ls, l.Carries x
  calls : n.usedEverywhere ⊆ w.everywhere

theorem Runs.child (h : w.Runs ls n) (hm : m ∈ n.children) : w.Runs ls m where
  shaped := h.shaped.child hm
  reads x hx := h.reads x (Node.reads_subset hm hx)
  calls := List.Subset.trans (Node.usedEverywhere_subset hm) h.calls

theorem Runs.push {l : Level} (h : w.Runs ls n) (hl : ∀ x ∈ n.reads, l.Carries x) :
    w.Runs (l :: ls) n where
  shaped := h.shaped
  calls := h.calls
  reads x hx k hk := by
    rcases List.mem_cons.mp hk with rfl | hk
    · exact h.reads x hx _ (by simp)
    · rcases List.mem_cons.mp hk with rfl | hk
      · exact hl x hx
      · exact h.reads x hx k (List.mem_cons_of_mem _ hk)

/-- The body of a function can run in all scopes. -/
theorem Runs.body {ls' : List Level} (h : w.Runs ls n) (hn : n.isFunction = true)
    (hm : m ∈ n.children) (hopen : w.Open ls') : w.Runs ls' m where
  shaped := h.shaped.child hm
  reads x hx l hl := hopen l hl x (h.calls (Node.reads_subset_usedEverywhere hn hm hx))
  calls := List.Subset.trans (Node.usedEverywhere_subset hm) h.calls

/-- The variables a tree assigns to are there: in the scope it runs in, and in the
    global one. -/
structure Assigns (w : Setting) (ls : List Level) (m : Node) : Prop where
  inner : ∀ x ∈ m.assigned, ¬ (ls.headD w.globals).lost x
  globals : ∀ x ∈ m.assignedAnywhere, ¬ w.globals.lost x

theorem Assigns.child {k : Node} (h : w.Assigns ls m) (hk : k ∈ m.children)
    (hassigned : k.assigned ⊆ m.assigned) : w.Assigns ls k where
  inner x hx := h.inner x (hassigned hx)
  globals x hx := h.globals x (Node.assignedAnywhere_subset hk hx)

/-- In a scope of its own a tree only has to mind the global one. -/
theorem Assigns.push {k : Node} (h : w.Assigns ls m) (hk : k ∈ m.children) :
    w.Assigns (Level.exact :: ls) k where
  inner _ _ hlost := hlost
  globals x hx := h.globals x (Node.assignedAnywhere_subset hk hx)

/-! ## Blocks and functions -/

/-- A block that a tidy sweep visits. -/
structure Fine (w : Setting) (s : Site) : Prop where
  tidy : s.Tidy
  stale : s.stale ⊆ w.stale

/-- A block that a tidy sweep visits, in scopes it can run in. -/
structure Visits (w : Setting) (ls : List Level) (s : Site) : Prop where
  everywhere_eq : s.everywhere = w.everywhere
  top_eq : ls.headD w.globals = s.level w.stale
  runs : ∀ n ∈ s.statements, w.Runs ls n
  globals : ∀ m ∈ s.left, ∀ x ∈ m.assignedAnywhere, ¬ w.globals.lost x
  visible : ∀ x ∈ w.stale, w.globals.live x → x ∈ s.live.visible
  fine : w.Fine s
  nested : ∀ t ∈ sitesAll w.everywhere s.live s.observed false s.statements, w.Fine t

/-- The bodies of a function before and after the sweep, wherever it is called. -/
inductive Bodies (w : Setting) : Node → Node → Prop
  | same {body : Node} : (∀ ls, w.Open ls →
      w.Runs (Level.exact :: ls) body ∧ w.Assigns (Level.exact :: ls) body) → Bodies w body body
  | swept {id line : Nat} {s : Site} : s.observed = true →
      (∀ ls, w.Open ls → w.Visits (s.level w.stale :: ls) s) →
      Bodies w ⟨id, line, .block s.statements⟩ ⟨id, line, .block s.left⟩

/-- The functions before and after the sweep: those that can be called are there,
    and no other names are taken. -/
structure Functions (w : Setting) (fs gs : FunctionTable) : Prop where
  free : ∀ f, fs.named? f = none → gs.named? f = none
  called : ∀ f ∈ w.everywhere, ∀ d, fs.named? f = some d →
    ∃ d', gs.named? f = some d' ∧ d'.params = d.params ∧ w.Bodies d.body d'.body

namespace Functions

variable {fs gs : FunctionTable} {f : String} {params : List (String × Ty)} {body body' : Node}

theorem nil (w : Setting) : w.Functions [] [] where
  free _ h := h
  called _ _ _ h := by cases h

/-- Both programs define a function. -/
theorem cons (h : w.Functions fs gs) (hbody : w.Bodies body body') :
    w.Functions (⟨⟨f, params, body⟩, f⟩ :: fs) (⟨⟨f, params, body'⟩, f⟩ :: gs) where
  free e he := by
    simp only [FunctionTable.named?_cons] at he ⊢
    by_cases hname : f = e
    · rw [if_pos hname] at he
      cases he
    · rw [if_neg hname] at he ⊢
      exact h.free e he
  called e he d hd := by
    simp only [FunctionTable.named?_cons] at hd ⊢
    by_cases hname : f = e
    · rw [if_pos hname] at hd ⊢
      cases hd
      exact ⟨_, rfl, rfl, hbody⟩
    · rw [if_neg hname] at hd ⊢
      exact h.called e he d hd

/-- Only the first program defines a function, which is never called. -/
theorem cons_left (h : w.Functions fs gs) (hf : f ∉ w.everywhere) :
    w.Functions (⟨⟨f, params, body⟩, f⟩ :: fs) gs where
  free e he := by
    rw [FunctionTable.named?_cons] at he
    split at he
    · cases he
    · exact h.free e he
  called e he d hd := by
    have hne : f ≠ e := by
      rintro rfl
      exact hf he
    rw [FunctionTable.named?_cons, if_neg hne] at hd
    exact h.called e he d hd

end Functions

/-- A step of the second program that mirrors one of the first. -/
abbrev Mirror (w : Setting) (ls : List Level) (Q : Option Value → Option Value → Prop)
    (m m' : Eval (Option Value)) : Prop :=
  Mirrors (Related w.globals ls) w.Functions Q m m'

/-- Within a bound the second program follows the first. -/
structure Follows (w : Setting) (bound : Nat) : Prop where
  same : ∀ ls n, w.Open ls → w.Runs ls n → w.Assigns ls n →
    w.Mirror ls Eq (eval bound n) (eval bound n)
  block : ∀ ls s id line, w.Open ls → w.Visits ls s →
    w.Mirror ls (Agree s.observed) (eval bound ⟨id, line, .block s.statements⟩)
      (eval bound ⟨id, line, .block s.left⟩)
  statement : ∀ ls outer observed n, w.Open ls → w.Runs ls n →
    w.Assigns ls (sweep w.everywhere outer none observed n) →
    (∀ s ∈ sites w.everywhere outer none observed n, w.Fine s) →
    (∀ x ∈ w.stale, w.globals.live x → x ∈ outer) →
    w.Mirror ls (Agree observed) (eval bound n)
      (eval bound (sweep w.everywhere outer none observed n))

/-! ## Trees that both programs evaluate -/

/-- Functions that match can be called from anywhere. -/
theorem Follows.callable {bound : Nat} {d d' : Definition} (h : w.Follows bound)
    (hopen : w.Open ls) (hparams : d'.params = d.params) (hbody : w.Bodies d.body d'.body) :
    Callable (Related w.globals ls) w.Functions Eq (eval bound) (eval bound) d d' := by
  have hbind : ∀ l s t values s', Related w.globals ls s t →
      bindParams s.push d.params values = .ok (some s') →
      ∃ t', bindParams t.push d.params values = .ok (some t') ∧
        Related w.globals (l :: ls) s' t' :=
    fun l s t values s' hst hs => (hst.push l).bindParams hs
  obtain ⟨name, params, body⟩ := d
  obtain ⟨name', params', body'⟩ := d'
  simp only at hparams hbody hbind ⊢
  subst hparams
  cases hbody with
  | same hruns =>
    obtain ⟨hrun, hassign⟩ := hruns ls hopen
    exact ⟨rfl, _, hbind Level.exact, fun _ _ => Related.pop,
      h.same _ body (hopen.push fun x _ => Level.carries_exact x) hrun hassign⟩
  | @swept id line s hobserved hvisits =>
    have hvisit := hvisits ls hopen
    have hlevel : ∀ x ∈ w.everywhere, (s.level w.stale).Carries x := fun x hx =>
      Site.carries_level (Site.mem_near_of_everywhere (hvisit.everywhere_eq ▸ hx))
    refine ⟨rfl, _, hbind (s.level w.stale), fun _ _ => Related.pop,
      (h.block _ s id line (hopen.push hlevel) hvisit).weaken fun a b hab => ?_⟩
    exact hab hobserved

theorem open_exact (h : w.Open ls) : w.Open (Level.exact :: ls) :=
  h.push fun x _ => Level.carries_exact x

/-- A part that runs in the same scope. -/
theorem Follows.child {bound : Nat} (h : w.Follows bound) (hopen : w.Open ls)
    (hruns : w.Runs ls n) (hassigns : w.Assigns ls n) (hm : m ∈ n.children)
    (hassigned : m.assigned ⊆ n.assigned) :
    w.Mirror ls Eq (eval bound m) (eval bound m) :=
  h.same ls m hopen (hruns.child hm) (hassigns.child hm hassigned)

/-- A part that runs in a scope of its own. -/
theorem Follows.inner {bound : Nat} (h : w.Follows bound) (hopen : w.Open ls)
    (hruns : w.Runs ls n) (hassigns : w.Assigns ls n) (hm : m ∈ n.children) :
    w.Mirror (Level.exact :: ls) Eq (eval bound m) (eval bound m) :=
  h.same _ m (open_exact hopen) ((hruns.child hm).push fun x _ => Level.carries_exact x)
    (hassigns.push hm)

/-- The arguments of a call. -/
theorem Follows.args {bound : Nat} {arguments : Option Node} (h : w.Follows bound)
    (hopen : w.Open ls) (hruns : ∀ k ∈ arguments, w.Runs ls k)
    (hassigns : ∀ k ∈ arguments, w.Assigns ls k) :
    List.Forall₂ (fun k k' => w.Mirror ls Eq (eval bound k) (eval bound k')) (argsOf arguments)
      (argsOf arguments) := by
  rw [List.forall₂_same]
  intro value hvalue
  cases arguments with
  | none => cases hvalue
  | some k =>
    have hrun := hruns k rfl
    have hassign := hassigns k rfl
    obtain ⟨id, line, form⟩ := k
    cases form with
    | args values =>
      exact h.child hopen hrun hassign hvalue fun x hx => Node.mem_assignedAll hvalue hx
    | _ => cases hvalue

/-- A tree does the same in both programs. -/
abbrev Same (w : Setting) (ls : List Level) (bound : Nat) (n : Node) : Prop :=
  w.Mirror ls Eq (eval bound n) (eval bound n)

/-- Equal results agree. -/
theorem Same.agree {bound : Nat} (h : w.Same ls bound n) :
    w.Mirror ls (Agree true) (eval bound n) (eval bound n) :=
  h.weaken fun _ _ => agree_iff_eq.mpr

/-- A scope is opened on both sides. -/
theorem related_push (l : Level) (s t : Scopes) (h : Related w.globals ls s t) :
    Related w.globals (l :: ls) s.push t.push :=
  h.push l

/-- A scope is closed on both sides. -/
theorem related_pop (l : Level) (s t : Scopes) (h : Related w.globals (l :: ls) s t) :
    Related w.globals ls s.pop t.pop :=
  h.pop

/-! ### One case per form -/

namespace Follows

variable {bound id line : Nat}

theorem sequence {statements : List Node} (h : w.Follows bound) (hopen : w.Open ls)
    (hruns : w.Runs ls ⟨id, line, .block statements⟩)
    (hassigns : w.Assigns ls ⟨id, line, .block statements⟩) :
    w.Same ls (bound + 1) ⟨id, line, .block statements⟩ := by
  have hstatement : ∀ m ∈ statements, w.Same ls bound m := by
    intro m hm
    exact h.child hopen hruns hassigns hm fun x hx => Node.mem_assignedAll hm hx
  exact Mirrors.sequence (lasting_evolves.relates_eval bound)
    (List.forall₂_same.mpr fun m hm => ⟨rfl, hstatement m hm⟩) none

theorem branch {guardNode body : Node} (h : w.Follows bound) (hopen : w.Open ls)
    (hruns : w.Runs ls ⟨id, line, .branch guardNode body⟩)
    (hassigns : w.Assigns ls ⟨id, line, .branch guardNode body⟩) :
    w.Same ls (bound + 1) ⟨id, line, .branch guardNode body⟩ := by
  have hguard : w.Same ls bound guardNode :=
    h.child hopen hruns hassigns (by simp [Node.children, Form.children]) (List.Subset.refl _)
  have hbody : w.Same (Level.exact :: ls) bound body :=
    h.inner hopen hruns hassigns (by simp [Node.children, Form.children])
  exact (Mirrors.branch (lasting_evolves.relates_eval bound) (related_push _) (related_pop _)
    hguard hbody.agree).weaken fun _ _ => agree_iff_eq.mp

theorem whileLoop {guardNode body : Node} (h : w.Follows bound) (hopen : w.Open ls)
    (hruns : w.Runs ls ⟨id, line, .whileLoop guardNode body⟩)
    (hassigns : w.Assigns ls ⟨id, line, .whileLoop guardNode body⟩) :
    w.Same ls (bound + 1) ⟨id, line, .whileLoop guardNode body⟩ := by
  have hguard : w.Same (Level.exact :: ls) bound guardNode :=
    h.inner hopen hruns hassigns (by simp [Node.children, Form.children])
  have hbody : w.Same (Level.exact :: ls) bound body :=
    h.inner hopen hruns hassigns (by simp [Node.children, Form.children])
  exact (Mirrors.whileLoop (lasting_evolves.relates_eval bound) (related_push _) (related_pop _)
    hguard hbody.agree).weaken fun _ _ => agree_iff_eq.mp

theorem forLoop {start guardNode stepNode body : Node} (h : w.Follows bound) (hopen : w.Open ls)
    (hruns : w.Runs ls ⟨id, line, .forLoop start guardNode stepNode body⟩)
    (hassigns : w.Assigns ls ⟨id, line, .forLoop start guardNode stepNode body⟩) :
    w.Same ls (bound + 1) ⟨id, line, .forLoop start guardNode stepNode body⟩ := by
  have hpart : ∀ m ∈ [start, guardNode, stepNode, body], w.Same (Level.exact :: ls) bound m :=
    fun m hm => h.inner hopen hruns hassigns hm
  exact (Mirrors.forLoop (lasting_evolves.relates_eval bound) (related_push _) (related_pop _)
    (hpart start (by simp)) (hpart guardNode (by simp)) (hpart stepNode (by simp))
    (hpart body (by simp)).agree).weaken fun _ _ => agree_iff_eq.mp

theorem relation {rel : Rel} {left right : Node} (h : w.Follows bound) (hopen : w.Open ls)
    (hruns : w.Runs ls ⟨id, line, .relation rel left right⟩)
    (hassigns : w.Assigns ls ⟨id, line, .relation rel left right⟩) :
    w.Same ls (bound + 1) ⟨id, line, .relation rel left right⟩ := by
  have hleft : w.Same ls bound left :=
    h.child hopen hruns hassigns (by simp [Node.children, Form.children])
      (List.subset_append_left _ _)
  have hright : w.Same ls bound right :=
    h.child hopen hruns hassigns (by simp [Node.children, Form.children])
      (List.subset_append_right _ _)
  exact (Mirrors.combine (lasting_evolves.relates_eval bound) hleft hright).weaken
    fun _ _ => BothYield.eq

theorem arith {op : Arith} {left right : Node} (h : w.Follows bound) (hopen : w.Open ls)
    (hruns : w.Runs ls ⟨id, line, .arith op left right⟩)
    (hassigns : w.Assigns ls ⟨id, line, .arith op left right⟩) :
    w.Same ls (bound + 1) ⟨id, line, .arith op left right⟩ := by
  have hleft : w.Same ls bound left :=
    h.child hopen hruns hassigns (by simp [Node.children, Form.children])
      (List.subset_append_left _ _)
  have hright : w.Same ls bound right :=
    h.child hopen hruns hassigns (by simp [Node.children, Form.children])
      (List.subset_append_right _ _)
  exact (Mirrors.combine (lasting_evolves.relates_eval bound) hleft hright).weaken
    fun _ _ => BothYield.eq

theorem assign {name value : Node} (h : w.Follows bound) (hopen : w.Open ls)
    (hruns : w.Runs ls ⟨id, line, .assign name value⟩)
    (hassigns : w.Assigns ls ⟨id, line, .assign name value⟩) :
    w.Same ls (bound + 1) ⟨id, line, .assign name value⟩ := by
  have hvalue : w.Same ls bound value :=
    h.child hopen hruns hassigns (by simp [Node.children, Form.children])
      (List.subset_append_right _ _)
  refine Mirrors.assign (lasting_evolves.relates_eval bound) rfl hvalue ?_
  intro x hx v s t s' hst
  refine hst.assign (hassigns.inner x ?_) (hassigns.globals x ?_)
  · exact List.mem_append_left _ (by simp [hx])
  · exact Node.ownAssigned_subset _ (by simp [Node.ownAssigned, hx])

theorem function {name body : Node} {params : Option Node}
    (hruns : w.Runs ls ⟨id, line, .function name params body⟩)
    (hassigns : w.Assigns ls ⟨id, line, .function name params body⟩) :
    w.Same ls (bound + 1) ⟨id, line, .function name params body⟩ := by
  have hmem : body ∈ Node.children ⟨id, line, .function name params body⟩ := by
    simp [Node.children, Form.children]
  -- the body is entered in the scopes of a later call, not in those of its definition
  have hbody : w.Bodies body body := .same fun ls' hopen' =>
    ⟨hruns.body rfl hmem (open_exact hopen'), fun _ _ hlost => hlost,
      fun x hx => hassigns.globals x (Node.assignedAnywhere_subset hmem hx)⟩
  simp only [Same, eval, step]
  cases hf : name.name? with
  | none => exact Mirrors.pure rfl
  | some f =>
    exact Mirrors.define rfl (fun s t hst => hst.available) fun fs gs hfs hfree =>
      ⟨hfs.free f hfree, hfs.cons hbody⟩

theorem call {name : Node} {arguments : Option Node} (h : w.Follows bound) (hopen : w.Open ls)
    (hruns : w.Runs ls ⟨id, line, .call name arguments⟩)
    (hassigns : w.Assigns ls ⟨id, line, .call name arguments⟩) :
    w.Same ls (bound + 1) ⟨id, line, .call name arguments⟩ := by
  have harguments : List.Forall₂ (fun k k' => w.Mirror ls Eq (eval bound k) (eval bound k'))
      (argsOf arguments) (argsOf arguments) := by
    refine h.args hopen ?_ ?_
    · rintro k rfl
      exact hruns.child (by simp [Node.children, Form.children])
    · rintro k rfl
      exact hassigns.child (by simp [Node.children, Form.children]) (List.Subset.refl _)
  simp only [Same, eval, step]
  cases hf : name.name? with
  | none => exact Mirrors.pure rfl
  | some f =>
    have hcalled : f ∈ w.everywhere :=
      hruns.calls (Node.ownCalls_subset _ (by simp [Node.ownCalls, hf]))
    refine Mirrors.call (lasting_evolves.relates_eval bound) harguments fun c₁ c₂ d hlink hd => ?_
    obtain ⟨d', hd', hparams, hbody⟩ := hlink.functions.called f hcalled d hd
    exact ⟨d', hd', h.callable hopen hparams hbody⟩

theorem read {x : String} (hruns : w.Runs ls ⟨id, line, .read x⟩) :
    w.Same ls (bound + 1) ⟨id, line, .read x⟩ := by
  refine Mirrors.read fun s t hst => hst.get_eq (hruns.reads x ?_)
  exact List.mem_flatMap.mpr ⟨_, Node.mem_preorder_self _, by simp [Node.ownReads]⟩

end Follows

/-- **A tree that both programs evaluate.** -/
theorem mirrors_same {bound : Nat} (h : w.Follows bound) (hopen : w.Open ls)
    (hruns : w.Runs ls n) (hassigns : w.Assigns ls n) :
    w.Mirror ls Eq (eval (bound + 1) n) (eval (bound + 1) n) := by
  have hev := lasting_evolves.relates_eval bound
  obtain ⟨id, line, form⟩ := n
  have hchild : ∀ m ∈ form.children, m.assigned ⊆ Node.assigned ⟨id, line, form⟩ →
      w.Same ls bound m := fun m => h.child hopen hruns hassigns
  cases form with
  | program body => cases (Node.shaped_iff.mp hruns.shaped).1
  | block statements => exact h.sequence hopen hruns hassigns
  | scope body =>
    exact Mirrors.inScope (related_push Level.exact) (related_pop Level.exact)
      (h.inner hopen hruns hassigns (by simp [Node.children, Form.children]))
  | branch guardNode body => exact h.branch hopen hruns hassigns
  | whileLoop guardNode body => exact h.whileLoop hopen hruns hassigns
  | forLoop start guardNode stepNode body => exact h.forLoop hopen hruns hassigns
  | relation rel left right => exact h.relation hopen hruns hassigns
  | arith op left right => exact h.arith hopen hruns hassigns
  | print value =>
    exact Mirrors.print hev (hchild value (by simp [Form.children]) (List.Subset.refl _))
  | assign name value => exact h.assign hopen hruns hassigns
  | declare name type =>
    exact Mirrors.declare rfl (fun _ => Iff.rfl) fun x _ t s s' t' hst => hst.declare
  | define name value =>
    exact Mirrors.defineVariable hev rfl
      (hchild value (by simp [Form.children]) (List.Subset.refl _))
      fun x _ v s t s' hst => hst.define
  | cast value type =>
    exact Mirrors.cast hev (fun _ => Iff.rfl)
      (hchild value (by simp [Form.children]) (List.Subset.refl _))
  | params pairs => exact Mirrors.pure rfl
  | args values => exact Mirrors.pure rfl
  | function name params body => exact Follows.function hruns hassigns
  | call name arguments => exact h.call hopen hruns hassigns
  | math fn argument =>
    exact (Mirrors.transform hev
      (hchild argument (by simp [Form.children]) (List.Subset.refl _))).weaken
        fun _ _ => BothYield.eq
  | read x => exact Follows.read hruns
  | _ => exact Mirrors.pure rfl

/-! ## Statements -/

section Body

variable {s : Site} {bound id line : Nat}

/-- The body of a statement that a sweep visits. -/
theorem visits_body (heq : s.everywhere = w.everywhere)
    (hruns : w.Runs ls ⟨id, line, .block s.statements⟩)
    (hglobals : ∀ x ∈ Node.assignedAnywhere ⟨id, line, .block s.left⟩, ¬ w.globals.lost x)
    (hfine : ∀ t ∈ s :: sitesAll w.everywhere s.live s.observed false s.statements, w.Fine t)
    (houter : ∀ x ∈ w.stale, w.globals.live x → x ∈ s.outer) :
    w.Visits (s.level w.stale :: ls) s where
  everywhere_eq := heq
  top_eq := rfl
  runs k hk := (hruns.child hk).push fun x hx =>
    Site.carries_level (Site.mem_near_of_used (.inr hk) (Node.reads_subset_used k hx))
  globals k hk x hx := hglobals x (Node.assignedAnywhere_subset hk hx)
  visible x hx hlive := List.mem_append_left _ (houter x hx hlive)
  fine := hfine s (by simp)
  nested t ht := hfine t (List.mem_cons_of_mem s ht)

theorem open_level (heq : s.everywhere = w.everywhere) (hopen : w.Open ls) :
    w.Open (s.level w.stale :: ls) :=
  hopen.push fun _ hx => Site.carries_level (Site.mem_near_of_everywhere (heq ▸ hx))

/-- A node that runs beside the block, in its scope. -/
theorem Follows.beside {k : Node} (h : w.Follows bound) (hopen : w.Open ls)
    (hvisits : w.Visits (s.level w.stale :: ls) s) (hruns : w.Runs ls k)
    (hglobals : ∀ x ∈ k.assignedAnywhere, ¬ w.globals.lost x) (hhead : k ∈ s.head)
    (hbeside : k ∈ s.beside) :
    w.Mirror (s.level w.stale :: ls) Eq (eval bound k) (eval bound k) := by
  refine h.same _ k (open_level hvisits.everywhere_eq hopen) (hruns.push fun x hx => ?_)
    ⟨fun x hx hlost => ?_, hglobals⟩
  · exact Site.carries_level (Site.mem_near_of_used (.inl hhead) (Node.reads_subset_used k hx))
  · exact hvisits.fine.tidy.assigned x hlost
      (Node.mem_assignedAll (List.mem_append_left _ hbeside) hx)

end Body

theorem exists_block {body : Node} (h : body.form.isBlock = true) :
    ∃ id line statements, body = ⟨id, line, .block statements⟩ := by
  obtain ⟨id, line, form⟩ := body
  cases form with
  | block statements => exact ⟨id, line, statements, rfl⟩
  | _ => cases h

theorem exists_ty {type : Node} (h : type.form.isTy = true) : ∃ t, type.form = .ty t := by
  obtain ⟨id, line, form⟩ := type
  cases form with
  | ty t => exact ⟨t, rfl⟩
  | _ => cases h

/-- **A statement and what a sweep makes of it.** -/
theorem mirrors_statement {bound : Nat} {outer : Names} {observed : Bool} (h : w.Follows bound)
    (hopen : w.Open ls) (hruns : w.Runs ls n)
    (hassigns : w.Assigns ls (sweep w.everywhere outer none observed n))
    (hfine : ∀ s ∈ sites w.everywhere outer none observed n, w.Fine s)
    (houter : ∀ x ∈ w.stale, w.globals.live x → x ∈ outer) :
    w.Mirror ls (Agree observed) (eval (bound + 1) n)
      (eval (bound + 1) (sweep w.everywhere outer none observed n)) := by
  have hev := lasting_evolves.relates_eval bound
  have hpush : ∀ l s t, Related w.globals ls s t → Related w.globals (l :: ls) s.push t.push :=
    fun l s t hst => hst.push l
  have hpop : ∀ l s t, Related w.globals (l :: ls) s t → Related w.globals ls s.pop t.pop :=
    fun l s t hst => hst.pop
  have hshape := (Node.shaped_iff.mp hruns.shaped).1
  obtain ⟨id, line, form⟩ := n
  have hglobals : ∀ k ∈ Node.children (sweep w.everywhere outer none observed ⟨id, line, form⟩),
      ∀ x ∈ k.assignedAnywhere, ¬ w.globals.lost x :=
    fun k hk x hx => hassigns.globals x (Node.assignedAnywhere_subset hk hx)
  cases form with
  | program body => cases hshape
  | scope body =>
    obtain ⟨bodyId, bodyLine, statements, rfl⟩ := exists_block hshape
    let s : Site := ⟨w.everywhere, outer, [], [], observed, statements⟩
    have hvisits : w.Visits (s.level w.stale :: ls) s :=
      visits_body rfl (hruns.child (.head _)) (hglobals _ (.head _)) hfine houter
    exact Mirrors.inScope (hpush _) (hpop _) (h.block _ s _ _ (open_level rfl hopen) hvisits)
  | branch guardNode body =>
    simp only [Form.isShaped, Bool.and_eq_true] at hshape
    obtain ⟨bodyId, bodyLine, statements, rfl⟩ := exists_block hshape.2
    let s : Site := ⟨w.everywhere, outer, [guardNode], [], observed, statements⟩
    have hvisits : w.Visits (s.level w.stale :: ls) s :=
      visits_body rfl (hruns.child (.tail _ (.head _))) (hglobals _ (.tail _ (.head _))) hfine
        houter
    have hguard : w.Mirror ls Eq (eval bound guardNode) (eval bound guardNode) :=
      h.same ls guardNode hopen (hruns.child (.head _))
        (hassigns.child (.head _) fun x hx => hx)
    exact Mirrors.branch hev (hpush _) (hpop _) hguard
      (h.block _ s _ _ (open_level rfl hopen) hvisits)
  | whileLoop guardNode body =>
    simp only [Form.isShaped, Bool.and_eq_true] at hshape
    obtain ⟨bodyId, bodyLine, statements, rfl⟩ := exists_block hshape.2
    let s : Site := ⟨w.everywhere, outer, [guardNode], [guardNode], observed, statements⟩
    have hvisits : w.Visits (s.level w.stale :: ls) s :=
      visits_body rfl (hruns.child (.tail _ (.head _))) (hglobals _ (.tail _ (.head _))) hfine
        houter
    exact Mirrors.whileLoop hev (hpush _) (hpop _)
      (h.beside hopen hvisits (hruns.child (.head _)) (hglobals _ (.head _)) (.head _) (.head _))
      (h.block _ s _ _ (open_level rfl hopen) hvisits)
  | forLoop start guardNode stepNode body =>
    simp only [Form.isShaped, Bool.and_eq_true] at hshape
    obtain ⟨bodyId, bodyLine, statements, rfl⟩ := exists_block hshape.2
    let nodes : List Node := [start, guardNode, stepNode]
    let s : Site := ⟨w.everywhere, outer, nodes, nodes, observed, statements⟩
    have hbody : ⟨bodyId, bodyLine, .block statements⟩ ∈ Node.children ⟨id, line, .forLoop start
      guardNode stepNode ⟨bodyId, bodyLine, .block statements⟩⟩ := by
      simp [Node.children, Form.children]
    have hvisits : w.Visits (s.level w.stale :: ls) s :=
      visits_body rfl (hruns.child hbody) (hglobals _ (List.mem_append_right nodes (.head _)))
        hfine houter
    have hbeside : ∀ k ∈ nodes,
        w.Mirror (s.level w.stale :: ls) Eq (eval bound k) (eval bound k) := fun k hk =>
      h.beside hopen hvisits (hruns.child (List.mem_append_left [_] hk))
        (hglobals k (List.mem_append_left [_] hk)) hk hk
    exact Mirrors.forLoop hev (hpush _) (hpop _) (hbeside start (by simp [nodes]))
      (hbeside guardNode (by simp [nodes])) (hbeside stepNode (by simp [nodes]))
      (h.block _ s _ _ (open_level rfl hopen) hvisits)
  | function name params body =>
    simp only [Form.isShaped, Bool.and_eq_true] at hshape
    obtain ⟨bodyId, bodyLine, statements, rfl⟩ := exists_block hshape.2
    let s : Site := ⟨w.everywhere, outer, [], [], true, statements⟩
    have hglobal : ∀ x ∈ Node.assignedAnywhere ⟨bodyId, bodyLine, .block s.left⟩,
        ¬ w.globals.lost x :=
      hglobals _ (List.mem_append_right (name :: params.toList) (.head _))
    have hbodies : w.Bodies ⟨bodyId, bodyLine, .block statements⟩
        ⟨bodyId, bodyLine, .block s.left⟩ := by
      refine .swept (s := s) rfl fun ls' hopen' => visits_body rfl ?_ hglobal hfine houter
      exact hruns.body rfl (by simp [Node.children, Form.children, s]) hopen'
    refine Mirrors.weaken (P := Eq) ?_ fun _ _ hab _ => hab
    show w.Mirror ls Eq (eval (bound + 1) _)
      (eval (bound + 1) ⟨id, line, .function name params ⟨bodyId, bodyLine, .block s.left⟩⟩)
    simp only [eval, step]
    cases hf : name.name? with
    | none => exact Mirrors.pure rfl
    | some f =>
      exact Mirrors.define rfl (fun s t hst => hst.available) fun fs gs hfs hfree =>
        ⟨hfs.free f hfree, hfs.cons hbodies⟩
  | _ => exact (mirrors_same h hopen hruns hassigns).weaken fun _ _ hab _ => hab

/-! ## Dropped statements -/

/-- A declaration that reports nothing has bound its name. -/
theorem bound_of_isDeclaration {bound : Nat} {c c' : Context} {a : Option Value}
    (hshaped : n.Shaped) (hn : n.isDeclaration = true) (hx : n.target? = some x)
    (hrun : (eval bound n).run c = some (a, c')) (hquiet : Quiet c c') :
    c'.scopes.top.find? x ≠ none := by
  have hshape := (Node.shaped_iff.mp hshaped).1
  cases bound with
  | zero => cases hrun
  | succ bound =>
    obtain ⟨id, line, form⟩ := n
    cases form with
    | declare name type =>
      simp only [Form.isShaped, Bool.and_eq_true] at hshape
      obtain ⟨t, ht⟩ := exists_ty hshape.2
      obtain ⟨-, s, hs, rfl⟩ := quiet_declare hx ht hrun hquiet
      obtain ⟨-, -, rfl⟩ := Scopes.declare_eq_ok.mp hs
      simp [Scopes.top_setTop, Scope.find?_cons]
    | define name value =>
      obtain ⟨-, v, c₁, s, -, -, hs, rfl⟩ :=
        quiet_define (lasting_evolves.relates_eval bound value) hx hrun hquiet
      obtain ⟨-, -, rfl⟩ := Scopes.define_eq_ok.mp hs
      simp [Scopes.top_setTop, Scope.find?_cons]
    | _ => cases hn

/-- **A statement that is dropped** has no value, and what it did does not matter
    to the second program. -/
theorem linked_of_dropped {bound : Nat} {s : Site} {d : Dropped} {c c' e : Context}
    {a : Option Value} (hvisits : w.Visits ls s) (hd : d ∈ s.dropped)
    (hshaped : d.statement.Shaped) (hbound : ∀ x ∈ d.declared, c.scopes.top.find? x ≠ none)
    (hlink : Linked (Related w.globals ls) w.Functions c e)
    (hrun : (eval bound d.statement).run c = some (a, c')) (hquiet : Quiet c c') :
    a = none ∧ Linked (Related w.globals ls) w.Functions c' e := by
  have hdead : s.live.isDead d.statement = true := isDead_of_mem_dropped hd
  obtain ⟨x, hx, hnear⟩ := not_mem_near_of_isDead hdead
  have hshape := (Node.shaped_iff.mp hshaped).1
  have hlost : d.statement.isDeclaration = true → (ls.headD w.globals).lost x := by
    intro hdeclares
    rw [hvisits.top_eq]
    exact Site.mem_lost.mpr ⟨d, hd, hdeclares, hx⟩
  have hdeclared := hvisits.fine.tidy.declared d hd
  have hstale : d.statement.isAssign = true → x ∈ w.stale := fun hassign =>
    hvisits.fine.stale (Site.mem_stale.mpr ⟨d, hd, hassign, hx⟩)
  obtain ⟨n, declared⟩ := d
  simp only at *
  cases bound with
  | zero => cases hrun
  | succ bound =>
    have hev := lasting_evolves.relates_eval bound
    obtain ⟨id, line, form⟩ := n
    simp only [Liveness.isDead, hx] at hdead
    cases form with
    | declare name type =>
      simp only [Form.isShaped, Bool.and_eq_true] at hshape
      obtain ⟨t, ht⟩ := exists_ty hshape.2
      obtain ⟨ha, s', hs', rfl⟩ := quiet_declare hx ht hrun hquiet
      exact ⟨ha, { hlink with scopes := hlink.scopes.declare_left (hlost rfl) hs' }⟩
    | define name value =>
      simp only [Bool.and_eq_true] at hdead
      obtain ⟨ha, v, c₁, s', hvalue, hquiet', hs', rfl⟩ := quiet_define (hev value) hx hrun hquiet
      obtain rfl := eq_of_pure hdead.2 hvalue hquiet'
      exact ⟨ha, { hlink with scopes := hlink.scopes.define_left (hlost rfl) hs' }⟩
    | assign name value =>
      simp only [Bool.and_eq_true] at hdead
      obtain ⟨ha, v, c₁, s', hvalue, hquiet', hs', rfl⟩ := quiet_assign (hev value) hx hrun hquiet
      obtain rfl := eq_of_pure hdead.2 hvalue hquiet'
      refine ⟨ha, { hlink with scopes := hlink.scopes.assign_left (fun _ => ?_) ?_ hs' }⟩
      · rw [hvisits.top_eq]
        rintro (hlive | hlive)
        · exact hnear hlive
        · exact hlive (hstale rfl)
      · -- a global that is read anywhere is visible here, so the block has one of its own
        intro hnone hlive
        have hvisible := hvisits.visible x (hstale rfl) hlive
        exact hbound x (hdeclared rfl x hx hvisible) hnone
    | function name params body =>
      obtain ⟨ha, -, rfl⟩ := quiet_function hx hrun hquiet
      have hcalled : x ∉ w.everywhere := fun h =>
        hnear (Site.mem_near_of_everywhere (hvisits.everywhere_eq ▸ h))
      exact ⟨ha, { hlink with functions := hlink.functions.cons_left hcalled }⟩
    | _ => cases hdead

/-! ## Blocks -/

/-- Statements of a block that are still to run, the last of which is not a
    comment; `declared` are the names declared before. -/
structure Rest (w : Setting) (s : Site) (yields : Bool) (declared : Names) (ns : List Node) :
    Prop where
  statements : ∀ n ∈ ns, n ∈ s.statements
  left : ∀ m ∈ sweepAll w.everywhere s.live s.observed yields ns, m ∈ s.left
  dropped : ∀ d ∈ dropped s.live s.observed yields declared ns, d ∈ s.dropped
  sites : ∀ t ∈ sitesAll w.everywhere s.live s.observed yields ns, w.Fine t
  ends : ∀ hne : ns ≠ [], (ns.getLast hne).isComment = false

/-- The names declared after one more statement. -/
def declaredAfter (n : Node) (declared : Names) : Names :=
  if n.isDeclaration then n.target?.toList ++ declared else declared

namespace Rest

variable {s : Site} {yields : Bool} {declared : Names} {ns : List Node}

theorem all_isComment (h : ∀ hne : ns ≠ [], (ns.getLast hne).isComment = false) :
    ns.all Node.isComment = ns.isEmpty := by
  cases ns with
  | nil => rfl
  | cons n ns =>
    rw [List.isEmpty_cons, List.all_eq_false]
    exact ⟨_, List.getLast_mem (List.cons_ne_nil n ns), by simp [h]⟩

theorem ends_tail (h : w.Rest s yields declared (n :: ns)) :
    ∀ hne : ns ≠ [], (ns.getLast hne).isComment = false := fun hne => by
  rw [← List.getLast_cons hne]
  exact h.ends (List.cons_ne_nil n ns)

/-- After a statement that the sweep drops. -/
theorem drop (h : w.Rest s yields declared (n :: ns))
    (hdrop : (s.live.isDead n && !(s.observed && ns.isEmpty && yields)) = true) :
    ⟨n, declared⟩ ∈ s.dropped ∧ w.Rest s yields (declaredAfter n declared) ns := by
  have hleft := h.left
  have hdropped := h.dropped
  have hsites := h.sites
  simp only [sweepAll, Optimize.dropped, sitesAll, all_isComment h.ends_tail, hdrop,
    if_true] at hleft hdropped hsites
  exact ⟨hdropped _ (by simp), fun m hm => h.statements m (by simp [hm]), hleft,
    fun d hd => hdropped d (List.mem_cons_of_mem _ hd), hsites, h.ends_tail⟩

/-- After a statement that the sweep keeps. -/
theorem keep (h : w.Rest s yields declared (n :: ns))
    (hkeep : ¬ (s.live.isDead n && !(s.observed && ns.isEmpty && yields)) = true) :
    sweep w.everywhere s.live.visible none (s.observed && ns.isEmpty) n ∈ s.left ∧
      (∀ t ∈ Optimize.sites w.everywhere s.live.visible none (s.observed && ns.isEmpty) n,
        w.Fine t) ∧
      w.Rest s (!n.isValueless) (declaredAfter n declared) ns := by
  have hleft := h.left
  have hdropped := h.dropped
  have hsites := h.sites
  simp only [sweepAll, Optimize.dropped, sitesAll, all_isComment h.ends_tail,
    hkeep] at hleft hdropped hsites
  exact ⟨hleft _ (by simp), fun t ht => hsites t (List.mem_append_left _ ht),
    fun m hm => h.statements m (by simp [hm]), fun m hm => hleft m (List.mem_cons_of_mem _ hm),
    hdropped, fun t ht => hsites t (List.mem_append_right _ ht), h.ends_tail⟩

end Rest

theorem isValueless_sweep (everywhere outer : Names) (head : Option (List Node))
    (observed : Bool) (n : Node) :
    (sweep everywhere outer head observed n).isValueless = n.isValueless := by
  fun_cases sweep everywhere outer head observed n <;> rfl

/-- Names that are declared are bound after one more statement. -/
theorem bound_declaredAfter {bound : Nat} {c c' : Context} {a : Option Value} {declared : Names}
    (hshaped : n.Shaped) (hbound : ∀ x ∈ declared, c.scopes.top.find? x ≠ none)
    (hrun : (eval bound n).run c = some (a, c')) (hquiet : Quiet c c') :
    ∀ x ∈ declaredAfter n declared, c'.scopes.top.find? x ≠ none := by
  have hkeeps : ∀ x ∈ declared, c'.scopes.top.find? x ≠ none := by
    intro x hx
    obtain ⟨v, hv⟩ := Option.ne_none_iff_exists'.mp (hbound x hx)
    obtain ⟨v', hv', -⟩ := (lasting_evolves.relates_eval bound n c a c' hrun).scopes.top x v hv
    simp [hv']
  intro x hx
  unfold declaredAfter at hx
  split at hx
  · next hdeclares =>
    rcases List.mem_append.mp hx with hx | hx
    · exact bound_of_isDeclaration hshaped hdeclares (by simpa using hx) hrun hquiet
    · exact hkeeps x hx
  · exact hkeeps x hx

theorem sequence_cons_comment {ev : Evaluator} {last : Option Value} {ns : List Node}
    (h : n.isComment = true) : Eval.sequence ev last (n :: ns) = Eval.sequence ev last ns := by
  rw [Eval.sequence, if_pos h]

theorem sequence_cons {ev : Evaluator} {last : Option Value} {ns : List Node}
    (h : n.isComment = false) :
    Eval.sequence ev last (n :: ns) = ev n >>= fun value => Eval.sequence ev value ns := by
  rw [Eval.sequence, if_neg (by simp [h])]

/-- **The statements of a block and what is left of them.** -/
theorem mirrors_sequence {bound : Nat} {s : Site} (h : w.Follows bound) (hopen : w.Open ls)
    (hvisits : w.Visits ls s) (ns : List Node) :
    ∀ yields declared last last' c e a c', w.Rest s yields declared ns →
      (yields = false → last' = none) → (ns = [] → Agree s.observed last last') →
      (∀ x ∈ declared, c.scopes.top.find? x ≠ none) →
      Linked (Related w.globals ls) w.Functions c e →
      (Eval.sequence (eval bound) last ns).run c = some (a, c') → Quiet c c' →
      ∃ b e', (Eval.sequence (eval bound) last'
          (sweepAll w.everywhere s.live s.observed yields ns)).run e = some (b, e') ∧
        Agree s.observed a b ∧ Linked (Related w.globals ls) w.Functions c' e' := by
  have hE := lasting_evolves
  have hev := hE.relates_eval bound
  induction ns with
  | nil =>
    intro yields declared last last' c e a c' _ _ hlast _ hlink hrun _
    obtain ⟨rfl, rfl⟩ := run_pure_eq_some.mp hrun
    exact ⟨last', e, rfl, hlast rfl, hlink⟩
  | cons n ns ih =>
    intro yields declared last last' c e a c' hrest hyields _ hbound hlink hrun hquiet
    have hruns := hvisits.runs n (hrest.statements n (by simp))
    cases hcomment : n.isComment with
    | true =>
      have hkeep : ¬ (s.live.isDead n && !(s.observed && ns.isEmpty && yields)) = true := by
        simp [isDead_of_isComment hcomment]
      obtain ⟨-, -, hrest'⟩ := hrest.keep hkeep
      have hns : ns ≠ [] := by
        rintro rfl
        simpa [hcomment] using hrest.ends (List.cons_ne_nil n [])
      rw [sequence_cons_comment hcomment] at hrun
      rw [sweepAll, if_neg hkeep, sequence_cons_comment (by rw [isComment_sweep, hcomment])]
      refine ih _ _ last last' c e a c' hrest' (fun hvalue => ?_) (fun h => absurd h hns) ?_ hlink
        hrun hquiet
      · obtain ⟨id, line, form⟩ := n
        cases form <;> first | cases hcomment; done | cases hvalue
      · obtain ⟨id, line, form⟩ := n
        cases form <;> first | cases hcomment; done | exact hbound
    | false =>
      rw [sequence_cons hcomment] at hrun
      obtain ⟨v, c₁, h1, h2⟩ := run_bind_eq_some.mp hrun
      obtain ⟨hquiet₁, hquiet₂⟩ := hquiet.split (hev n c v c₁ h1) (hE.sequence hev ns v c₁ a c' h2)
      have hbound' := bound_declaredAfter hruns.shaped hbound h1 hquiet₁
      by_cases hdrop : (s.live.isDead n && !(s.observed && ns.isEmpty && yields)) = true
      · obtain ⟨hmem, hrest'⟩ := hrest.drop hdrop
        obtain ⟨rfl, hlink'⟩ :=
          linked_of_dropped hvisits hmem hruns.shaped hbound hlink h1 hquiet₁
        rw [sweepAll, if_pos hdrop]
        refine ih _ _ none last' c₁ e a c' hrest' hyields (fun hns hobserved => ?_) hbound' hlink'
          h2 hquiet₂
        -- the last statement is dropped only where the one before yields no value
        have hlast : yields = false := by
          have hpin := (Bool.and_eq_true_iff.mp hdrop).2
          simpa [hns, hobserved] using hpin
        exact (hyields hlast).symm
      · obtain ⟨hmem, hsites, hrest'⟩ := hrest.keep hdrop
        have hassigns : w.Assigns ls
            (sweep w.everywhere s.live.visible none (s.observed && ns.isEmpty) n) := by
          refine ⟨fun x hx => ?_, hvisits.globals _ hmem⟩
          rw [hvisits.top_eq]
          exact fun hlost => hvisits.fine.tidy.assigned x hlost
            (Node.mem_assignedAll (List.mem_append_right _ hmem) hx)
        obtain ⟨b, e₁, he₁, hagree, hlink'⟩ := h.statement ls _ _ n hopen hruns hassigns hsites
          hvisits.visible c e v c₁ hlink h1 hquiet₁
        have hyields' : (!n.isValueless) = false → b = none := fun hvalue =>
          eval_of_isValueless (by rw [isValueless_sweep]; simpa using hvalue) he₁
        have hlast : ns = [] → Agree s.observed v b := by
          rintro rfl
          simpa using hagree
        obtain ⟨b', e', he', hagree', hlink''⟩ := ih _ _ v b c₁ e₁ a c' hrest' hyields' hlast
          hbound' hlink' h2 hquiet₂
        refine ⟨b', e', ?_, hagree', hlink''⟩
        rw [sweepAll, if_neg hdrop, sequence_cons (by rw [isComment_sweep, hcomment])]
        exact run_bind_eq_some.mpr ⟨b, e₁, he₁, he'⟩

/-- Comments at the end do nothing. -/
theorem sequence_append {ev : Evaluator} {comments : List Node}
    (h : ∀ n ∈ comments, n.isComment = true) (last : Option Value) (ns : List Node) :
    Eval.sequence ev last (ns ++ comments) = Eval.sequence ev last ns := by
  induction ns generalizing last with
  | nil =>
    induction comments with
    | nil => rfl
    | cons n comments ih =>
      rw [List.nil_append, sequence_cons_comment (h n (by simp))]
      exact ih fun m hm => h m (by simp [hm])
  | cons n ns ih =>
    rw [List.cons_append]
    unfold Eval.sequence
    split
    · exact ih last
    · simp only [ih]

/-- What is to run at the start of a block, comments at the end apart. -/
theorem rest_front {s : Site} (hvisits : w.Visits ls s) : w.Rest s false [] s.front where
  statements n hn := by
    rw [← s.front_append_comments]
    exact List.mem_append_left _ hn
  left m hm := by
    rw [hvisits.fine.tidy.ends, Site.swept, hvisits.everywhere_eq]
    exact List.mem_append_left _ hm
  dropped d hd := by
    rw [Site.dropped, ← s.front_append_comments,
      dropped_append fun _ => Site.isComment_of_mem_comments]
    exact hd
  sites t ht := by
    refine hvisits.nested t ?_
    rw [← s.front_append_comments, sitesAll_append fun _ => Site.isComment_of_mem_comments]
    exact ht
  ends := Site.isComment_getLast_front

/-- **A block and what a sweep leaves of it.** -/
theorem mirrors_block {bound : Nat} {s : Site} (h : w.Follows bound) (hopen : w.Open ls)
    (hvisits : w.Visits ls s) (id line : Nat) :
    w.Mirror ls (Agree s.observed) (eval (bound + 1) ⟨id, line, .block s.statements⟩)
      (eval (bound + 1) ⟨id, line, .block s.left⟩) := by
  have hstatements : Eval.sequence (eval bound) none s.statements =
      Eval.sequence (eval bound) none s.front := by
    rw [← s.front_append_comments, sequence_append fun _ => Site.isComment_of_mem_comments]
  have hleft : Eval.sequence (eval bound) none s.left =
      Eval.sequence (eval bound) none (s.swept s.front) := by
    rw [hvisits.fine.tidy.ends, sequence_append fun _ => Site.isComment_of_mem_comments]
  intro c e a c' hlink hrun hquiet
  simp only [eval, step] at hrun ⊢
  rw [hstatements] at hrun
  rw [hleft, Site.swept, hvisits.everywhere_eq]
  exact mirrors_sequence h hopen hvisits _ false [] none none c e a c' (rest_front hvisits)
    (fun _ => rfl) (fun _ _ => rfl) (by simp) hlink hrun hquiet

/-! ## Programs -/

/-- **The second program follows the first**, within every bound. -/
theorem follows (w : Setting) (bound : Nat) : w.Follows bound := by
  induction bound with
  | zero =>
    refine ⟨fun ls n _ _ _ => ?_, fun ls s id line _ _ => ?_,
      fun ls outer observed n _ _ _ _ _ => ?_⟩
    all_goals
      intro c e a c' _ hrun _
      cases hrun
  | succ bound ih =>
    exact ⟨fun ls n => mirrors_same ih, fun ls s id line hopen hvisits =>
      mirrors_block ih hopen hvisits id line, fun ls outer observed n => mirrors_statement ih⟩

end Setting

end Scriptlet.Optimize
