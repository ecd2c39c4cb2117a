import Mathlib.Data.List.Forall2
import Scriptlet.Proofs.Trees

/-!
# Trees that match

Two trees match if they have the same forms throughout. Ids do not matter, and
the lines of corresponding nodes are related as wanted: not at all, or equal, or
a number of lines apart.

A pair of matching nodes is given by one form whose children are pairs: its two
projections are the forms of the nodes. So a case split on that form takes both
trees apart at once.
-/

namespace Scriptlet

/-- What holds of both elements of a list of two. -/
theorem forall_mem_two {α : Type} {P : α → Prop} {a b : α} :
    (∀ x ∈ [a, b], P x) ↔ P a ∧ P b := by
  simp

/-- Lists that correspond, as one list of pairs. -/
theorem exists_pairs_of_forall₂ {α β : Type} {R : α → β → Prop} {xs : List α} {ys : List β}
    (h : List.Forall₂ R xs ys) :
    ∃ pairs : List (α × β), pairs.map Prod.fst = xs ∧ pairs.map Prod.snd = ys ∧
      ∀ pair ∈ pairs, R pair.1 pair.2 := by
  induction h with
  | nil => exact ⟨[], rfl, rfl, by simp⟩
  | @cons x y xs ys hxy _ ih =>
    obtain ⟨pairs, rfl, rfl, hpairs⟩ := ih
    exact ⟨(x, y) :: pairs, rfl, rfl, List.forall_mem_cons.mpr ⟨hxy, hpairs⟩⟩

/-- The two sides of a list of pairs correspond. -/
theorem forall₂_of_pairs {α β : Type} {R : α → β → Prop} {pairs : List (α × β)}
    (h : ∀ pair ∈ pairs, R pair.1 pair.2) :
    List.Forall₂ R (pairs.map Prod.fst) (pairs.map Prod.snd) := by
  rw [List.forall₂_map_left_iff, List.forall₂_map_right_iff, List.forall₂_same]
  exact h

namespace Form

variable {α β γ : Type}

theorem map_map (g : β → γ) (f : α → β) (form : Form α) :
    (form.map f).map g = form.map fun a => g (f a) := by
  cases form <;> simp [map, Function.comp_def]

theorem map_id (form : Form α) : (form.map fun a => a) = form := by
  cases form <;> simp [map]

/-- Parameters that correspond, as one list of pairs of pairs. -/
theorem exists_params {R : α → β → Prop} {xs : List (α × α)} {ys : List (β × β)}
    (h : List.Forall₂ (fun p q => R p.1 q.1 ∧ R p.2 q.2) xs ys) :
    ∃ pairs : List ((α × β) × (α × β)), (pairs.map fun p => (p.1.1, p.2.1)) = xs ∧
      (pairs.map fun p => (p.1.2, p.2.2)) = ys ∧
      ∀ pair ∈ (params pairs).children, R pair.1 pair.2 := by
  induction h with
  | nil => exact ⟨[], rfl, rfl, by simp [children]⟩
  | @cons p q xs ys hpq _ ih =>
    obtain ⟨pairs, rfl, rfl, hpairs⟩ := ih
    refine ⟨((p.1, q.1), (p.2, q.2)) :: pairs, rfl, rfl, ?_⟩
    rw [children, List.flatMap_cons, List.forall_mem_append, forall_mem_two]
    exact ⟨hpq, hpairs⟩

end Form

namespace Node

/-- Dropping the comments on both sides. -/
theorem forall₂_filter_isComment {N : Node → Node → Prop}
    (hN : ∀ m n, N m n → n.isComment = m.isComment) {ms ns : List Node}
    (h : List.Forall₂ N ms ns) :
    List.Forall₂ N (ms.filter fun m => !m.isComment) (ns.filter fun n => !n.isComment) := by
  induction h with
  | nil => exact .nil
  | cons hmn _ ih =>
    simp only [List.filter_cons, hN _ _ hmn]
    split
    · exact .cons hmn ih
    · exact ih

/-- Two trees have the same forms, with lines related by `L`. -/
inductive Matches (L : Nat → Nat → Prop) : Node → Node → Prop
  | node {id id' line line' : Nat} (pairs : Form (Node × Node)) : L line line' →
      (∀ pair ∈ pairs.children, Matches L pair.1 pair.2) →
      Matches L ⟨id, line, pairs.map Prod.fst⟩ ⟨id', line', pairs.map Prod.snd⟩

/-- Two trees are equal up to ids and lines. -/
abbrev Alike : Node → Node → Prop := Matches fun _ _ => True

namespace Matches

variable {L M : Nat → Nat → Prop} {m n : Node}

theorem line (h : Matches L m n) : L m.line n.line := by
  obtain ⟨_, h, _⟩ := h
  exact h

theorem mono (h : Matches L m n) (hLM : ∀ i j, L i j → M i j) : Matches M m n := by
  induction h with
  | node pairs hline _ ih => exact .node pairs (hLM _ _ hline) ih

/-- A tree matches itself if its lines are related to themselves. -/
theorem refl (n : Node) (h : ∀ m ∈ n.preorder, L m.line m.line) : Matches L n n := by
  induction n using Node.induction with
  | h n ih =>
    obtain ⟨id, line, form⟩ := n
    rw [preorder_eq] at h
    have hself : Matches L ⟨id, line, (form.map fun m => (m, m)).map Prod.fst⟩
        ⟨id, line, (form.map fun m => (m, m)).map Prod.snd⟩ := by
      refine .node _ (h ⟨id, line, form⟩ (by simp)) ?_
      rw [Form.children_map]
      intro pair hpair
      obtain ⟨m, hm, rfl⟩ := List.mem_map.mp hpair
      refine ih m hm fun k hk => h k (List.mem_cons_of_mem _ ?_)
      exact List.mem_flatMap.mpr ⟨m, hm, hk⟩
    simp only [Form.map_map, Form.map_id] at hself
    exact hself

/-- Two nodes whose forms are the projections of one form. -/
theorem of_forms (pairs : Form (Node × Node)) (hm : m.form = pairs.map Prod.fst)
    (hn : n.form = pairs.map Prod.snd) (hline : L m.line n.line)
    (hchildren : ∀ pair ∈ pairs.children, Matches L pair.1 pair.2) : Matches L m n := by
  obtain ⟨id, line, form⟩ := m
  obtain ⟨id', line', form'⟩ := n
  obtain rfl : form = _ := hm
  obtain rfl : form' = _ := hn
  exact .node pairs hline hchildren

/-- Nodes without children. -/
theorem leaf {id id' line line' : Nat} {form : Form Node} (hform : form.children = [])
    (hline : L line line') : Matches L ⟨id, line, form⟩ ⟨id', line', form⟩ := by
  refine of_forms (form.map fun m => (m, m)) ?_ ?_ hline ?_
  · rw [Form.map_map, Form.map_id]
  · rw [Form.map_map, Form.map_id]
  · rw [Form.children_map, hform]
    simp

/-- Operators between operands that match. -/
theorem operator {form : Node → Node → Form Node} {l l' r r' : Node}
    (hform : (∃ rel, form = .relation rel) ∨ ∃ op, form = .arith op) (hm : m.form = form l r)
    (hn : n.form = form l' r') (hline : L m.line n.line) (hl : Matches L l l')
    (hr : Matches L r r') : Matches L m n := by
  rcases hform with ⟨rel, rfl⟩ | ⟨op, rfl⟩
  · exact of_forms (.relation rel (l, l') (r, r')) hm hn hline
      (by simpa [Form.children] using ⟨hl, hr⟩)
  · exact of_forms (.arith op (l, l') (r, r')) hm hn hline
      (by simpa [Form.children] using ⟨hl, hr⟩)

/-- Only the lines of the nodes of the tree matter. -/
theorem restrict (h : Matches L m n) :
    Matches (fun i j => L i j ∧ ∃ k ∈ m.preorder, k.line = i) m n := by
  induction h with
  | @node id _ line _ pairs hline _ ih =>
    refine .node pairs ⟨hline, _, by rw [preorder_eq]; exact List.mem_cons_self, rfl⟩ ?_
    intro pair hpair
    refine (ih pair hpair).mono fun i j => ?_
    rintro ⟨hij, k, hk, rfl⟩
    refine ⟨hij, k, ?_, rfl⟩
    rw [preorder_eq]
    refine List.mem_cons_of_mem _ (List.mem_flatMap.mpr ⟨pair.1, ?_, hk⟩)
    rw [children, Form.children_map]
    exact List.mem_map_of_mem hpair

/-! ## What is read off a node -/

theorem name?_eq (h : Matches L m n) : n.name? = m.name? := by
  obtain ⟨pairs, -, -⟩ := h
  cases pairs <;> rfl

theorem isComment_eq (h : Matches L m n) : n.isComment = m.isComment := by
  obtain ⟨pairs, -, -⟩ := h
  cases pairs <;> rfl

/-! ## Nodes with lists of children -/

theorem block {ms ns : List Node} (hm : m.form = .block ms) (hn : n.form = .block ns)
    (hline : L m.line n.line) (h : List.Forall₂ (Matches L) ms ns) : Matches L m n := by
  obtain ⟨pairs, rfl, rfl, hpairs⟩ := exists_pairs_of_forall₂ h
  exact of_forms (.block pairs) hm hn hline hpairs

theorem args {ms ns : List Node} (hm : m.form = .args ms) (hn : n.form = .args ns)
    (hline : L m.line n.line) (h : List.Forall₂ (Matches L) ms ns) : Matches L m n := by
  obtain ⟨pairs, rfl, rfl, hpairs⟩ := exists_pairs_of_forall₂ h
  exact of_forms (.args pairs) hm hn hline hpairs

theorem params {ms ns : List (Node × Node)} (hm : m.form = .params ms) (hn : n.form = .params ns)
    (hline : L m.line n.line)
    (h : List.Forall₂ (fun p q => Matches L p.1 q.1 ∧ Matches L p.2 q.2) ms ns) :
    Matches L m n := by
  obtain ⟨pairs, rfl, rfl, hpairs⟩ := Form.exists_params h
  exact of_forms (.params pairs) hm hn hline hpairs

end Matches

end Node

end Scriptlet
