import Mathlib.Data.List.Nodup
import Mathlib.Data.List.Pairwise
import Scriptlet.Proofs.Idempotence
import Scriptlet.Proofs.Tidy

/-!
# Trees with statements deleted

Dropping dead code only ever deletes statements from blocks. `Pruned D head m n`
says that the tree `n` is the tree `m` with statements deleted from the blocks that
are reached through bodies and statements; everything else, ids and lines included,
is as it was. Of every deleted statement the relation remembers a fact `D`, which may
speak of the statements that are left of its block and of the nodes that run
alongside the block.

The facts that a sweep has about the statements it drops survive all later sweeps,
since these leave fewer names used. So the relation composes along the sweeps, and at
the end it tells what is known of every statement that was dropped on the way.

Results:
* `Pruned.used_subset`, `Pruned.usedEverywhere_subset`: deleting statements adds no use
  of a name.
* `Pruned.trans`: deleting twice.
* `pruned_sweep`, `pruned_eliminate`: what one sweep deletes, and what all of them do.
* `Pruned.exists_of_deleted`: the fact about a deleted statement, found by ids.
-/

namespace Scriptlet

/-! ## Bodies -/

namespace Form

variable {α : Type}

/-- The body of a statement that has one; also the block of a program. -/
def body? : Form α → Option α
  | program body | scope body => some body
  | branch _ body | whileLoop _ body => some body
  | forLoop _ _ _ body => some body
  | function _ _ body => some body
  | _ => none

/-- The nodes that run alongside the body. -/
def heading : Form α → List α
  | branch guard _ | whileLoop guard _ => [guard]
  | forLoop start guard step _ => [start, guard, step]
  | _ => []

/-- Whether the value of the body is observed, if it is known whether the value of the
    statement is. -/
def observes (observed : Bool) : Form α → Bool
  | program _ | function _ _ _ => true
  | _ => observed

/-- The form with another body. -/
def withBody (form : Form α) (body : α) : Form α :=
  match form with
  | program _ => program body
  | scope _ => scope body
  | branch guard _ => branch guard body
  | whileLoop guard _ => whileLoop guard body
  | forLoop start guard step _ => forLoop start guard step body
  | function name parameters _ => function name parameters body
  | form => form

variable {form : Form α} {body : α}

theorem body?_withBody (h : form.body? = some body) (other : α) :
    (form.withBody other).body? = some other := by
  cases form <;> first | rfl | cases h

theorem withBody_self (h : form.body? = some body) : form.withBody body = form := by
  cases form <;> first | (cases h; rfl) | cases h

theorem withBody_withBody (other another : α) :
    (form.withBody other).withBody another = form.withBody another := by
  cases form <;> rfl

theorem heading_withBody (other : α) : (form.withBody other).heading = form.heading := by
  cases form <;> rfl

/-- The body is the last child. -/
theorem exists_front (h : form.body? = some body) :
    ∃ front, ∀ other, (form.withBody other).children = front ++ [other] := by
  cases form with
  | program _ => exact ⟨[], fun _ => rfl⟩
  | scope _ => exact ⟨[], fun _ => rfl⟩
  | branch guard _ => exact ⟨[guard], fun _ => rfl⟩
  | whileLoop guard _ => exact ⟨[guard], fun _ => rfl⟩
  | forLoop start guard step _ => exact ⟨[start, guard, step], fun _ => rfl⟩
  | function name parameters _ => exact ⟨name :: parameters.toList, fun _ => rfl⟩
  | _ => cases h

end Form

namespace Node

/-- The node with another body. -/
def withBody (n body : Node) : Node := { n with form := n.form.withBody body }

theorem body?_withBody {n body : Node} (h : n.form.body? = some body) (other : Node) :
    (n.withBody other).form.body? = some other :=
  Form.body?_withBody h other

theorem withBody_self {n body : Node} (h : n.form.body? = some body) : n.withBody body = n := by
  obtain ⟨id, line, form⟩ := n
  exact congrArg (Node.mk id line) (Form.withBody_self h)

theorem exists_front {n body : Node} (h : n.form.body? = some body) :
    ∃ front, n.children = front ++ [body] ∧
      ∀ other, (n.withBody other).children = front ++ [other] := by
  obtain ⟨front, hfront⟩ := Form.exists_front h
  refine ⟨front, ?_, hfront⟩
  rw [← hfront body, Form.withBody_self h]
  rfl

theorem mem_children_of_body? {n body : Node} (h : n.form.body? = some body) :
    body ∈ n.children := by
  obtain ⟨front, hfront, -⟩ := exists_front h
  rw [hfront]
  simp

/-- A statement with a body uses no name itself. -/
theorem own_of_body? {n body : Node} (h : n.form.body? = some body) :
    n.ownReads = [] ∧ n.ownCalls = [] ∧ n.ownTargets = [] := by
  obtain ⟨id, line, form⟩ := n
  cases form <;> first | exact ⟨rfl, rfl, rfl⟩ | cases h

theorem isFunction_withBody (n other : Node) : (n.withBody other).isFunction = n.isFunction := by
  obtain ⟨id, line, form⟩ := n
  cases form <;> rfl

theorem target?_withBody (n other : Node) : (n.withBody other).target? = n.target? := by
  obtain ⟨id, line, form⟩ := n
  cases form <;> rfl

/-- Whether a statement does nothing but bind a name. -/
def isRemovable (n : Node) : Bool :=
  match n.form with
  | .declare _ _ | .function _ _ _ => true
  | .define _ value | .assign _ value => value.isPure
  | _ => false

theorem isRemovable_withBody (n other : Node) :
    (n.withBody other).isRemovable = n.isRemovable := by
  obtain ⟨id, line, form⟩ := n
  cases form <;> rfl

/-! ## Ids -/

/-- The ids of the nodes of a tree. -/
def ids (n : Node) : List Nat := n.preorder.map Node.id

theorem ids_eq (n : Node) : n.ids = n.id :: n.children.flatMap ids := by
  unfold ids
  rw [preorder_eq, List.map_cons, List.map_flatMap]

theorem length_ids (n : Node) : n.ids.length = n.size := List.length_map _

/-- What holds of a node and passes from children to their parent holds of every tree
    around the node. -/
theorem of_mem_preorder {P : Node → Prop} {m n : Node} (h : m ∈ n.preorder) (hself : P m)
    (hparent : ∀ k l, k ∈ l.children → P k → P l) : P n := by
  induction n using Node.induction with
  | h n ih =>
    rw [preorder_eq] at h
    rcases List.mem_cons.mp h with rfl | h
    · exact hself
    · obtain ⟨k, hk, hm⟩ := List.mem_flatMap.mp h
      exact hparent k n hk (ih k hk hm)

theorem preorder_subset_of_mem {m n : Node} (h : m ∈ n.preorder) : m.preorder ⊆ n.preorder :=
  of_mem_preorder (P := fun n => m.preorder ⊆ n.preorder) h (List.Subset.refl _)
    fun _ _ hk hm => List.Subset.trans hm (preorder_subset hk)

theorem size_le_of_mem {m n : Node} (h : m ∈ n.preorder) : m.size ≤ n.size :=
  of_mem_preorder (P := fun n => m.size ≤ n.size) h (Nat.le_refl _)
    fun _ _ hk hm => hm.trans (Nat.le_of_lt (size_lt_of_mem_children hk))

/-- No tree stands inside one of its children. -/
theorem notMem_preorder_of_mem_children {m n : Node} (h : m ∈ n.children) : n ∉ m.preorder :=
  fun hn => Nat.lt_irrefl _ (Nat.lt_of_lt_of_le (size_lt_of_mem_children h) (size_le_of_mem hn))

section Unique

variable {n : Node} (h : n.ids.Nodup)

include h

theorem eq_of_id_eq {a b : Node} (ha : a ∈ n.preorder) (hb : b ∈ n.preorder) (hid : a.id = b.id) :
    a = b :=
  List.inj_on_of_nodup_map h ha hb hid

theorem nodup_ids_of_child {m : Node} (hm : m ∈ n.children) : m.ids.Nodup := by
  rw [ids_eq] at h
  exact (List.nodup_flatMap.mp (List.nodup_cons.mp h).2).1 m hm

/-- Different children have different ids in them. -/
theorem child_eq_of_mem_ids {c d : Node} {i : Nat} (hc : c ∈ n.children) (hd : d ∈ n.children)
    (hi : i ∈ c.ids) (hi' : i ∈ d.ids) : c = d := by
  by_contra hne
  rw [ids_eq] at h
  have hdisjoint := (List.nodup_flatMap.mp (List.nodup_cons.mp h).2).2
  have : Std.Symm (Function.onFun List.Disjoint ids) := ⟨fun _ _ h => List.disjoint_symm h⟩
  exact hdisjoint.forall hc hd hne hi hi'

/-- A tree around a node of a child is the whole tree, or stands in that child as well. -/
theorem eq_or_mem_preorder_of_child {c k s : Node} (hk : k ∈ n.children) (hs : s ∈ n.preorder)
    (hc : c ∈ s.preorder) (hc' : c ∈ k.preorder) : s = n ∨ s ∈ k.preorder := by
  rw [preorder_eq] at hs
  rcases List.mem_cons.mp hs with rfl | hs
  · exact .inl rfl
  · obtain ⟨k', hk', hs⟩ := List.mem_flatMap.mp hs
    obtain rfl : k' = k := child_eq_of_mem_ids h hk' hk
      (List.mem_map_of_mem (preorder_subset_of_mem hs hc)) (List.mem_map_of_mem hc')
    exact .inr hs

/-- A node with an id that occurs in a child stands in that child. -/
theorem mem_preorder_of_mem_ids {b c : Node} (hb : b ∈ n.preorder) (hc : c ∈ n.children)
    (hid : b.id ∈ c.ids) : b ∈ c.preorder := by
  obtain ⟨b', hb', hid'⟩ := List.mem_map.mp hid
  rwa [← eq_of_id_eq h (preorder_subset hc hb') hb hid']

end Unique

/-! ## Names used everywhere -/

/-- The names that a tree uses everywhere if it stands inside a function or not. -/
def usedFrom (inside : Bool) (n : Node) : Names :=
  (n.withFunction inside).flatMap fun (inside, m) =>
    m.ownCalls ++ if inside then m.ownReads else []

theorem usedFrom_eq (inside : Bool) (n : Node) :
    n.usedFrom inside = (n.ownCalls ++ if inside then n.ownReads else []) ++
      n.children.flatMap (usedFrom (inside || n.isFunction)) := by
  unfold usedFrom
  rw [withFunction_eq, List.flatMap_cons, List.flatMap_assoc]

theorem usedEverywhere_subset_of_mem {m n : Node} (h : m ∈ n.preorder) :
    m.usedEverywhere ⊆ n.usedEverywhere :=
  of_mem_preorder (P := fun n => m.usedEverywhere ⊆ n.usedEverywhere) h (List.Subset.refl _)
    fun _ _ hk hm => List.Subset.trans hm (usedEverywhere_subset hk)

end Node

namespace Optimize

open Node

/-! ## Deleting statements -/

/-- A tree with statements deleted. Where a statement is deleted from a block, `D` holds
    of the nodes that run alongside the block, of the statements that are left, and of
    the statement. -/
inductive Pruned (D : List Node → List Node → Node → Prop) : List Node → Node → Node → Prop
  | same {head : List Node} {n : Node} : Pruned D head n n
  | body {head : List Node} {m b c : Node} : m.form.body? = some b →
      Pruned D m.form.heading b c → Pruned D head m (m.withBody c)
  /-- each statement of the block with what is left of it -/
  | block {head : List Node} {m : Node} (pairs : List (Node × Option Node)) :
      m.form = .block (pairs.map Prod.fst) →
      (∀ a b, (a, some b) ∈ pairs → Pruned D [] a b) →
      (∀ a, (a, none) ∈ pairs → D head (pairs.filterMap Prod.snd) a) →
      Pruned D head m { m with form := .block (pairs.filterMap Prod.snd) }

section Left

variable {α : Type} {pairs : List (Node × Option Node)}

/-- What is left of some statements. -/
theorem mem_left {b : Node} : b ∈ pairs.filterMap Prod.snd ↔ ∃ a, (a, some b) ∈ pairs := by
  simp

theorem sublist_left {f : Node → List α}
    (h : ∀ a b, (a, some b) ∈ pairs → (f b).Sublist (f a)) :
    ((pairs.filterMap Prod.snd).flatMap f).Sublist ((pairs.map Prod.fst).flatMap f) := by
  induction pairs with
  | nil => exact List.Sublist.refl _
  | cons pair pairs ih =>
    have hrest := ih fun a b hab => h a b (List.mem_cons_of_mem _ hab)
    obtain ⟨a, _ | b⟩ := pair
    · exact hrest.trans (List.sublist_append_right _ _)
    · exact (h a b List.mem_cons_self).append hrest

theorem subset_left {f : Node → List α} (h : ∀ a b, (a, some b) ∈ pairs → f b ⊆ f a) :
    (pairs.filterMap Prod.snd).flatMap f ⊆ (pairs.map Prod.fst).flatMap f := by
  intro x hx
  obtain ⟨b, hb, hx⟩ := List.mem_flatMap.mp hx
  obtain ⟨a, hab⟩ := mem_left.mp hb
  exact List.mem_flatMap.mpr ⟨a, List.mem_map_of_mem hab, h a b hab hx⟩

/-- What is left of what is left. -/
theorem exists_left_of_left {pairs' : List (Node × Option Node)}
    (h : pairs.filterMap Prod.snd = pairs'.map Prod.fst) :
    ∃ both : List (Node × Option Node), both.map Prod.fst = pairs.map Prod.fst ∧
      both.filterMap Prod.snd = pairs'.filterMap Prod.snd ∧
      (∀ a c, (a, some c) ∈ both → ∃ b, (a, some b) ∈ pairs ∧ (b, some c) ∈ pairs') ∧
      ∀ a, (a, none) ∈ both →
        (a, none) ∈ pairs ∨ ∃ b, (a, some b) ∈ pairs ∧ (b, none) ∈ pairs' := by
  induction pairs generalizing pairs' with
  | nil =>
    obtain rfl : pairs' = [] := List.map_eq_nil_iff.mp h.symm
    exact ⟨[], rfl, rfl, nofun, nofun⟩
  | cons pair pairs ih =>
    obtain ⟨a, _ | b⟩ := pair
    · obtain ⟨both, hfst, hsnd, hkept, hgone⟩ := ih h
      refine ⟨(a, none) :: both, by simp [hfst], by simp [hsnd], ?_, ?_⟩
      · intro a' c hc
        obtain ⟨b, hb, hc⟩ := hkept a' c (by simpa using hc)
        exact ⟨b, List.mem_cons_of_mem _ hb, hc⟩
      · intro a' ha'
        rcases List.mem_cons.mp ha' with ha' | ha'
        · exact .inl (ha' ▸ List.mem_cons_self)
        · refine (hgone a' ha').imp (List.mem_cons_of_mem _) ?_
          rintro ⟨b, hb, hnone⟩
          exact ⟨b, List.mem_cons_of_mem _ hb, hnone⟩
    · cases pairs' with
      | nil => cases h
      | cons pair' pairs' =>
        obtain ⟨b', o⟩ := pair'
        obtain ⟨rfl, hrest⟩ := List.cons.inj h
        obtain ⟨both, hfst, hsnd, hkept, hgone⟩ := ih hrest
        refine ⟨(a, o) :: both, by simp [hfst], ?_, ?_, ?_⟩
        · cases o <;> simp [hsnd]
        · intro a' c hc
          rcases List.mem_cons.mp hc with hc | hc
          · cases hc
            exact ⟨b, List.mem_cons_self, List.mem_cons_self⟩
          · obtain ⟨b, hb, hc⟩ := hkept a' c hc
            exact ⟨b, List.mem_cons_of_mem _ hb, List.mem_cons_of_mem _ hc⟩
        · intro a' ha'
          rcases List.mem_cons.mp ha' with ha' | ha'
          · cases ha'
            exact .inr ⟨b, List.mem_cons_self, List.mem_cons_self⟩
          · refine (hgone a' ha').imp (List.mem_cons_of_mem _) ?_
            rintro ⟨b, hb, hnone⟩
            exact ⟨b, List.mem_cons_of_mem _ hb, List.mem_cons_of_mem _ hnone⟩

end Left

namespace Pruned

variable {D D' : List Node → List Node → Node → Prop} {head : List Node} {m n : Node}

theorem mono (h : Pruned D head m n) (hD : ∀ head left a, D head left a → D' head left a) :
    Pruned D' head m n := by
  induction h with
  | same => exact .same
  | body hbody _ ih => exact .body hbody ih
  | block pairs hm _ hgone ih => exact .block pairs hm ih fun a ha => hD _ _ _ (hgone a ha)

theorem id_eq (h : Pruned D head m n) : n.id = m.id := by
  cases h <;> rfl

theorem target?_eq (h : Pruned D head m n) : n.target? = m.target? := by
  cases h with
  | same => rfl
  | body _ _ => exact target?_withBody _ _
  | block _ hm _ _ => simp [target?, hm]

theorem isRemovable_eq (h : Pruned D head m n) : n.isRemovable = m.isRemovable := by
  cases h with
  | same => rfl
  | body _ _ => exact isRemovable_withBody _ _
  | block _ hm _ _ => simp [isRemovable, hm]

/-- **Deleting statements keeps the other ids in order.** -/
theorem ids_sublist (h : Pruned D head m n) : n.ids.Sublist m.ids := by
  induction h with
  | same => exact List.Sublist.refl _
  | @body _ m b c hbody _ ih =>
    obtain ⟨front, hfront, hother⟩ := exists_front hbody
    rw [ids_eq, ids_eq m, hfront, hother]
    simp only [List.flatMap_append, List.flatMap_singleton]
    exact (ih.append_left _).cons_cons _
  | @block _ m pairs hm _ _ ih =>
    rw [ids_eq, ids_eq m, children, children, hm]
    exact (sublist_left ih).cons_cons _

/-- **Deleting statements adds no use of a name.** -/
theorem used_subset (h : Pruned D head m n) : n.used ⊆ m.used := by
  induction h with
  | same => exact List.Subset.refl _
  | @body _ m b c hbody _ ih =>
    obtain ⟨front, hfront, hother⟩ := exists_front hbody
    obtain ⟨hreads, hcalls, htargets⟩ := own_of_body? hbody
    obtain ⟨hreads', hcalls', htargets'⟩ :=
      own_of_body? (body?_withBody hbody c)
    rw [used_eq, used_eq m, hfront, hother, hreads, hcalls, htargets, hreads', hcalls', htargets']
    simp only [List.flatMap_append, List.flatMap_singleton, List.nil_append]
    exact List.append_subset.mpr ⟨List.subset_append_left _ _,
      List.subset_append_of_subset_right _ ih⟩
  | @block _ m pairs hm _ _ ih =>
    rw [used_eq, used_eq m, children, children, hm]
    exact List.subset_append_of_subset_right _ (subset_left ih)

theorem usedFrom_subset (h : Pruned D head m n) (inside : Bool) :
    n.usedFrom inside ⊆ m.usedFrom inside := by
  induction h generalizing inside with
  | same => exact List.Subset.refl _
  | @body _ m b c hbody _ ih =>
    obtain ⟨front, hfront, hother⟩ := exists_front hbody
    obtain ⟨hreads, hcalls, -⟩ := own_of_body? hbody
    obtain ⟨hreads', hcalls', -⟩ := own_of_body? (body?_withBody hbody c)
    rw [usedFrom_eq, usedFrom_eq _ m, hfront, hother, hreads, hcalls, hreads', hcalls',
      isFunction_withBody]
    simp only [List.flatMap_append, List.flatMap_singleton, ite_self, List.nil_append]
    exact List.append_subset.mpr ⟨List.subset_append_left _ _,
      List.subset_append_of_subset_right _ (ih _)⟩
  | @block _ m pairs hm _ _ ih =>
    have hown : m.ownCalls = [] ∧ m.ownReads = [] ∧ m.isFunction = false := by
      simp [ownCalls, ownReads, isFunction, hm]
    rw [usedFrom_eq, usedFrom_eq _ m, children, children, hm, hown.1, hown.2.1, hown.2.2]
    exact List.append_subset.mpr ⟨List.subset_append_left _ _,
      List.subset_append_of_subset_right _ (subset_left fun a b hab => ih a b hab _)⟩

theorem usedEverywhere_subset (h : Pruned D head m n) : n.usedEverywhere ⊆ m.usedEverywhere :=
  h.usedFrom_subset false

end Pruned

/-! ## What the sweeps delete -/

/-- What is known of a statement that was dropped: it does nothing but bind a name, and
    this name is used neither everywhere, nor alongside the block, nor in what is left
    of it. -/
structure Discarded (everywhere : Names) (head left : List Node) (n : Node) : Prop where
  removable : n.isRemovable = true
  unused : ∃ x, n.target? = some x ∧ x ∉ everywhere ∧ ∀ m ∈ head ++ left, x ∉ m.used

theorem isRemovable_of_isDead {live : Liveness} {n : Node} (h : live.isDead n = true) :
    n.isRemovable = true := by
  unfold Liveness.isDead at h
  split at h
  · cases h
  · unfold isRemovable
    split at h <;> simp_all

namespace Discarded

variable {everywhere everywhere' : Names} {head left left' : List Node} {m n : Node}

/-- What has fewer uses leaves a dropped statement without use. -/
theorem mono (h : Discarded everywhere head left n) (hsub : everywhere' ⊆ everywhere)
    (hleft : ∀ c ∈ left', ∃ b ∈ left, c.used ⊆ b.used) : Discarded everywhere' head left' n := by
  obtain ⟨hremovable, x, hx, heverywhere, hnear⟩ := h
  refine ⟨hremovable, x, hx, fun h => heverywhere (hsub h), fun c hc hused => ?_⟩
  rcases List.mem_append.mp hc with hc | hc
  · exact hnear c (List.mem_append_left _ hc) hused
  · obtain ⟨b, hb, hcb⟩ := hleft c hc
    exact hnear b (List.mem_append_right _ hb) (hcb hused)

theorem of_isDead {outer : Names} {ns : List Node}
    (h : (Liveness.ofBlock everywhere outer head ns).isDead n = true) :
    Discarded everywhere head ns n := by
  obtain ⟨x, hx, hnear⟩ :=
    not_mem_near_of_isDead (s := ⟨everywhere, outer, head, [], false, ns⟩) h
  refine ⟨isRemovable_of_isDead h, x, hx, fun h => hnear (List.mem_append_left _ h), ?_⟩
  exact fun m hm hused => hnear (Site.mem_near_of_used (List.mem_append.mp hm) hused)

/-- Of a statement with statements deleted it is known what is known of the statement. -/
theorem of_pruned {D : List Node → List Node → Node → Prop} {beside : List Node}
    (hpruned : Pruned D beside m n) (h : Discarded everywhere head left n) :
    Discarded everywhere head left m :=
  ⟨hpruned.isRemovable_eq ▸ h.removable, hpruned.target?_eq ▸ h.unused⟩

end Discarded

/-- **Deleting twice.** -/
theorem Pruned.trans {everywhere : Names} {head : List Node} {l m n : Node}
    (h : Pruned (Discarded everywhere) head l m) (h' : Pruned (Discarded everywhere) head m n) :
    Pruned (Discarded everywhere) head l n := by
  induction h generalizing n with
  | same => exact h'
  | @body head l b c hbody hbc ih =>
    generalize hm : l.withBody c = m at h'
    have hm' : m.form.body? = some c := hm ▸ body?_withBody hbody c
    cases h' with
    | same => exact hm ▸ .body hbody hbc
    | @body _ _ b' c' hbody' hcc' =>
      obtain rfl : c = b' := Option.some.inj (hm'.symm.trans hbody')
      subst hm
      have hheading : (l.withBody c).form.heading = l.form.heading := Form.heading_withBody c
      rw [hheading] at hcc'
      have htwice : (l.withBody c).withBody c' = l.withBody c' :=
        congrArg (fun form => { l with form := form }) (Form.withBody_withBody c c')
      exact htwice ▸ .body hbody (ih hcc')
    | block pairs hblock _ _ =>
      rw [hblock] at hm'
      cases hm'
  | @block head l pairs hl hkept hgone ih =>
    generalize hm : ({ l with form := .block (pairs.filterMap Prod.snd) } : Node) = m at h'
    cases h' with
    | same => exact hm ▸ .block pairs hl hkept hgone
    | body hbody _ =>
      rw [← hm] at hbody
      cases hbody
    | block pairs' hblock hkept' hgone' =>
      subst hm
      obtain ⟨both, hfst, hsnd, hsome, hnone⟩ := exists_left_of_left (Form.block.inj hblock)
      rw [← hsnd] at hgone' ⊢
      refine .block both (hl.trans (by rw [hfst])) (fun a c hac => ?_) fun a ha => ?_
      · obtain ⟨b, hab, hbc⟩ := hsome a c hac
        exact ih a b hab (hkept' b c hbc)
      · rcases hnone a ha with ha | ⟨b, hab, hb⟩
        · refine (hgone a ha).mono (List.Subset.refl _) fun c hc => ?_
          obtain ⟨b, hb⟩ := mem_left.mp (hsnd ▸ hc)
          refine ⟨b, ?_, (hkept' b c hb).used_subset⟩
          rw [Form.block.inj hblock]
          exact List.mem_map_of_mem hb
        · exact (hgone' b hb).of_pruned (hkept a b hab)

/-! ## One sweep -/

section Sweep

variable {everywhere everywhere' outer : Names} {head : Option (List Node)} {observed : Bool}
  {n : Node}

/-- A sweep over a statement sweeps its body. -/
theorem sweep_of_body {b : Node} (h : n.form.body? = some b) :
    sweep everywhere outer head observed n = n.withBody
      (sweep everywhere outer (some n.form.heading) (n.form.observes observed) b) := by
  obtain ⟨id, line, form⟩ := n
  cases form <;> first | (cases h; rfl) | cases h

/-- A sweep over a body that is a block sweeps its statements. -/
theorem sweep_of_block {beside ns : List Node} (h : n.form = .block ns) :
    sweep everywhere outer (some beside) observed n = { n with form := .block (sweepAll everywhere
      (.ofBlock everywhere outer beside ns) observed false ns) } := by
  obtain ⟨id, line, form⟩ := n
  obtain rfl : form = .block ns := h
  rfl

/-- What a sweep can do. -/
theorem sweep_cases (everywhere outer : Names) (head : Option (List Node)) (observed : Bool)
    (n : Node) : (∃ b, n.form.body? = some b) ∨
      (∃ beside ns, head = some beside ∧ n.form = .block ns) ∨
      sweep everywhere outer head observed n = n := by
  fun_cases sweep everywhere outer head observed n with
  | case2 => exact .inr (.inr rfl)
  | case3 _ _ ns beside => exact .inr (.inl ⟨beside, ns, rfl, rfl⟩)
  | case9 => exact .inr (.inr rfl)
  | _ => exact .inl ⟨_, rfl⟩

/-- The statements of a block with what a sweep leaves of them. -/
theorem exists_pairs_sweepAll (everywhere : Names) (live : Liveness) (observed yields : Bool)
    (ns : List Node) :
    ∃ pairs : List (Node × Option Node), pairs.map Prod.fst = ns ∧
      pairs.filterMap Prod.snd = sweepAll everywhere live observed yields ns ∧
      (∀ a b, (a, some b) ∈ pairs → ∃ last, b = sweep everywhere live.visible none last a) ∧
      ∀ a, (a, none) ∈ pairs → live.isDead a = true := by
  induction ns generalizing yields with
  | nil => exact ⟨[], rfl, rfl, nofun, nofun⟩
  | cons n ns ih =>
    simp only [sweepAll]
    split
    · next hdead =>
      obtain ⟨pairs, hfst, hsnd, hkept, hgone⟩ := ih yields
      refine ⟨(n, none) :: pairs, by simp [hfst], by simp [hsnd], ?_, ?_⟩
      · exact fun a b hab => hkept a b (by simpa using hab)
      · intro a ha
        rcases List.mem_cons.mp ha with ha | ha
        · cases ha
          exact (Bool.and_eq_true _ _ ▸ hdead).1
        · exact hgone a ha
    · obtain ⟨pairs, hfst, hsnd, hkept, hgone⟩ := ih (!n.isValueless)
      refine ⟨(n, some (sweep everywhere live.visible none (observed && ns.isEmpty) n)) :: pairs,
        by simp [hfst], by simp [hsnd], ?_, ?_⟩
      · intro a b hab
        rcases List.mem_cons.mp hab with hab | hab
        · cases hab
          exact ⟨_, rfl⟩
        · exact hkept a b hab
      · exact fun a ha => hgone a (by simpa using ha)

/-- **What one sweep deletes**, with the names that are still used everywhere later. -/
theorem pruned_sweep (hsub : everywhere' ⊆ everywhere) (outer : Names)
    (head : Option (List Node)) (observed : Bool) (n : Node) :
    Pruned (Discarded everywhere') (head.getD []) n (sweep everywhere outer head observed n) := by
  induction n using Node.induction generalizing outer head observed with
  | h n ih =>
    rcases sweep_cases everywhere outer head observed n with
      ⟨b, hb⟩ | ⟨beside, ns, rfl, hns⟩ | hsame
    · rw [sweep_of_body hb]
      exact .body hb (ih b (mem_children_of_body? hb) outer (some n.form.heading) _)
    · rw [sweep_of_block hns]
      obtain ⟨pairs, hfst, hsnd, hkept, hgone⟩ :=
        exists_pairs_sweepAll everywhere (.ofBlock everywhere outer beside ns) observed false ns
      have hpruned : ∀ a b, (a, some b) ∈ pairs → Pruned (Discarded everywhere') [] a b := by
        intro a b hab
        obtain ⟨last, rfl⟩ := hkept a b hab
        refine ih a ?_ _ none last
        rw [children, hns, ← hfst]
        exact List.mem_map_of_mem hab
      rw [← hsnd]
      refine .block pairs (by rw [hfst, hns]) hpruned fun a ha => ?_
      refine (Discarded.of_isDead (hgone a ha)).mono hsub fun b hb => ?_
      obtain ⟨a, hab⟩ := mem_left.mp hb
      exact ⟨a, hfst ▸ List.mem_map_of_mem hab, (hpruned a b hab).used_subset⟩
    · rw [hsame]
      exact .same

end Sweep

/-! ## All sweeps -/

theorem usedEverywhere_sweepProgram (p : Node) :
    (sweepProgram p).usedEverywhere ⊆ p.usedEverywhere :=
  (pruned_sweep (List.Subset.refl _) [] none true p).usedEverywhere_subset

/-- **What all sweeps delete**: statements without use in what is left in the end. -/
theorem pruned_eliminate (p : Node) :
    Pruned (Discarded (eliminate p).usedEverywhere) [] p (eliminate p) := by
  fun_induction eliminate p with
  | case1 p swept hless ih =>
    have hsub := List.Subset.trans ih.usedEverywhere_subset (usedEverywhere_sweepProgram p)
    exact (pruned_sweep hsub [] none true p).trans ih
  | case2 p swept hless => exact pruned_sweep (usedEverywhere_sweepProgram p) [] none true p

/-! ## Deleted statements by their ids -/

/-- What runs alongside a block `c` of a tree, if `head` runs alongside the tree. -/
structure Alongside (head : List Node) (n c : Node) (beside : List Node) : Prop where
  whole : c = n → beside = head
  body : ∀ s ∈ n.preorder, s.form.body? = some c → beside = s.form.heading

namespace Alongside

variable {head head' beside : List Node} {c k n : Node}

theorem self (head : List Node) (n : Node) : Alongside head n n head :=
  ⟨fun _ => rfl, fun _ hs hbody =>
    absurd hs (notMem_preorder_of_mem_children (mem_children_of_body? hbody))⟩

/-- What runs alongside a block of a child is known in the child, since no other child
    holds the block. -/
theorem of_child (hids : n.ids.Nodup) (hk : k ∈ n.children) (hc : c ∈ k.preorder)
    (hbody : n.form.body? = some c → c = k ∧ n.form.heading = head')
    (h : Alongside head' k c beside) : Alongside head n c beside := by
  refine ⟨?_, fun s hs hsc => ?_⟩
  · rintro rfl
    exact absurd hc (notMem_preorder_of_mem_children hk)
  · have hcs := preorder_subset (mem_children_of_body? hsc) (mem_preorder_self c)
    rcases eq_or_mem_preorder_of_child hids hk hs hcs hc with rfl | hs
    · obtain ⟨hck, hheading⟩ := hbody hsc
      rw [h.whole hck, hheading]
    · exact h.body s hs hsc

end Alongside

/-- **A statement that is missing from a block that is left was deleted there**, with
    what is known of it. -/
theorem Pruned.exists_of_deleted {D : List Node → List Node → Node → Prop} {head : List Node}
    {p q b c n : Node} {ms ns : List Node} (h : Pruned D head p q) (hids : p.ids.Nodup)
    (hb : b ∈ p.preorder) (hc : c ∈ q.preorder) (hid : c.id = b.id) (hms : b.form = .block ms)
    (hns : c.form = .block ns) (hn : n ∈ ms) (hgone : ∀ m ∈ ns, m.id ≠ n.id) :
    ∃ beside, Alongside head q c beside ∧ D beside ns n := by
  -- a block that is as it was misses no statement
  have hchanged : b ≠ c := by
    rintro rfl
    obtain rfl := Form.block.inj (hms.symm.trans hns)
    exact hgone n hn rfl
  -- the two blocks stand in corresponding children, as ids tell
  have hdescend : ∀ {p a k : Node} {head : List Node}, p.ids.Nodup → b ∈ p.preorder →
      a ∈ p.children → Pruned D head a k → c ∈ k.preorder → b ∈ a.preorder :=
    fun hids hb ha hpruned hc => mem_preorder_of_mem_ids hids hb ha
      (hid ▸ hpruned.ids_sublist.subset (List.mem_map_of_mem hc))
  induction h with
  | same => exact absurd (eq_of_id_eq hids hb hc hid.symm) hchanged
  | @body head p b' c' hbody hpruned ih =>
    obtain ⟨front, hfront, hother⟩ := exists_front hbody
    have hbody' : (p.withBody c').form.body? = some c' := body?_withBody hbody c'
    have hwhole : Pruned D head p (p.withBody c') := .body hbody hpruned
    have hchild := mem_children_of_body? hbody
    have hin : c ∈ c'.preorder := by
      rw [preorder_eq, hother] at hc
      rcases List.mem_cons.mp hc with rfl | hc
      · rw [hns] at hbody'
        cases hbody'
      · obtain ⟨k, hk, hc⟩ := List.mem_flatMap.mp hc
        rcases List.mem_append.mp hk with hk | hk
        · have hk' : k ∈ p.children := hfront ▸ List.mem_append_left _ hk
          exact absurd (eq_of_id_eq hids hb (preorder_subset hk' hc) hid.symm) hchanged
        · rwa [List.mem_singleton.mp hk] at hc
    obtain ⟨beside, halongside, hD⟩ :=
      ih (nodup_ids_of_child hids hchild) (hdescend hids hb hchild hpruned hin) hin
    refine ⟨beside, .of_child (hwhole.ids_sublist.nodup hids) (mem_children_of_body? hbody') hin
      (fun hsc => ?_) halongside, hD⟩
    exact ⟨Option.some.inj (hsc.symm.trans hbody'), Form.heading_withBody c'⟩
  | @block head p pairs hp hkept hdeleted ih =>
    have hwhole := Pruned.block pairs hp hkept hdeleted
    rcases List.mem_cons.mp (preorder_eq _ ▸ hc) with rfl | hc'
    · obtain rfl := eq_of_id_eq hids hb (mem_preorder_self p) hid.symm
      obtain rfl := Form.block.inj hns
      obtain rfl := Form.block.inj (hp.symm.trans hms)
      obtain ⟨⟨a, o⟩, ha, rfl⟩ := List.mem_map.mp hn
      cases o with
      | some b' => exact absurd (hkept a b' ha).id_eq (hgone b' (mem_left.mpr ⟨a, ha⟩))
      | none => exact ⟨head, .self head _, hdeleted a ha⟩
    · obtain ⟨k, hk, hin⟩ := List.mem_flatMap.mp hc'
      obtain ⟨a, hak⟩ := mem_left.mp hk
      have ha : a ∈ p.children := by
        rw [children, hp]
        exact List.mem_map_of_mem hak
      obtain ⟨beside, halongside, hD⟩ :=
        ih a k hak (nodup_ids_of_child hids ha) (hdescend hids hb ha (hkept a k hak) hin) hin
      refine ⟨beside, .of_child (hwhole.ids_sublist.nodup hids) hk hin (fun hsc => ?_) halongside,
        hD⟩
      cases hsc

end Optimize

end Scriptlet
