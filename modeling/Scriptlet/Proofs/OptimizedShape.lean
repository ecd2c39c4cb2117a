import Scriptlet.Proofs.Idempotence
import Scriptlet.Proofs.Shape

/-!
# The shape of optimised trees

Optimisation keeps the shape that the grammar gives to a tree. Simplification
puts expressions where expressions were and leaves names and types alone; a
sweep only drops statements from blocks.

Results:
* `shaped_simplify`: a simplified tree is shaped if the tree is.
* `shaped_sweep`: so is a swept tree.
* `isProgram_parse`, `isProgram_simplify`, `isProgram_sweepProgram`: programs stay
  programs.
-/

namespace Scriptlet

/-- Wherever the second form may stand in a shaped tree, so may the first. -/
structure Form.Replaces (form' form : Form Node) : Prop where
  expression : form.isExpression = true → form'.isExpression = true
  statement : form.isStatement = true → form'.isStatement = true
  block : form.isBlock = true → form'.isBlock = true
  params : form.isParams = true → form'.isParams = true
  args : form.isArgs = true → form'.isArgs = true
  binder : form.isBinder = true → form'.isBinder = true
  ty : form.isTy = true → form'.isTy = true

theorem Form.Replaces.of_isExpression {form form' : Form Node} (h : form.isExpression = true)
    (h' : form'.isExpression = true) : form'.Replaces form := by
  refine ⟨fun _ => h', fun _ => isStatement_of_isExpression h', ?_, ?_, ?_, ?_, ?_⟩
  all_goals
    intro hkind
    cases form <;> first | cases hkind; done | cases h

theorem Form.Replaces.refl (form : Form Node) : form.Replaces form :=
  ⟨id, id, id, id, id, id, id⟩

theorem Form.Replaces.trans {a b c : Form Node} (hab : a.Replaces b) (hbc : b.Replaces c) :
    a.Replaces c where
  expression h := hab.expression (hbc.expression h)
  statement h := hab.statement (hbc.statement h)
  block h := hab.block (hbc.block h)
  params h := hab.params (hbc.params h)
  args h := hab.args (hbc.args h)
  binder h := hab.binder (hbc.binder h)
  ty h := hab.ty (hbc.ty h)

/-- The root of a program around a shaped block. -/
def Node.IsProgram (p : Node) : Prop := ∃ body, p.form = .program body ∧ body.Is Form.isBlock

theorem isProgram_parse (tokens : List Lexed) (firstId : Nat) :
    (parse tokens firstId).tree.IsProgram := shaped_parse tokens firstId

namespace Optimize

/-! ## Simplification -/

theorem is_literal {id line : Nat} {form : Form Node}
    (h : (∃ i, form = .int i) ∨ ∃ x, form = .float x) :
    Node.Is Form.isExpression ⟨id, line, form⟩ := by
  rcases h with ⟨i, rfl⟩ | ⟨x, rfl⟩
  · exact ⟨rfl, Node.shaped_iff.mpr ⟨rfl, by simp [Node.children, Form.children]⟩⟩
  · exact ⟨rfl, Node.shaped_iff.mpr ⟨rfl, by simp [Node.children, Form.children]⟩⟩

theorem is_arith {id line : Nat} {op : Arith} {left right : Node}
    (hleft : left.Is Form.isExpression) (hright : right.Is Form.isExpression) :
    Node.Is Form.isExpression ⟨id, line, .arith op left right⟩ := by
  refine ⟨rfl, Node.shaped_iff.mpr ⟨by simp [Form.isShaped, hleft.kind, hright.kind], ?_⟩⟩
  simpa [Node.children, Form.children] using ⟨hleft.shaped, hright.shaped⟩

/-- What an identity makes of an operator is an expression. -/
theorem is_applyIdentity {line k : Nat} {m : Match} (hoperand : m.operand.Is Form.isExpression)
    (hliteral : m.literal.Is Form.isExpression) (hread : isRead m.operand = true) :
    ((applyIdentity line m).run k).1.Is Form.isExpression := by
  have hcopy : ∀ id line, Node.Is Form.isExpression ⟨id, line, m.operand.form⟩ := by
    intro id line
    obtain ⟨x, hx⟩ := isRead_iff.mp hread
    rw [hx]
    exact ⟨rfl, Node.shaped_iff.mpr ⟨rfl, by simp [Node.children, Form.children]⟩⟩
  unfold applyIdentity
  split
  · exact hoperand
  · exact hliteral
  · refine is_literal ?_
    unfold oneLike
    split
    · exact .inr ⟨1, rfl⟩
    · exact .inl ⟨1, rfl⟩
  · exact is_arith hoperand (hcopy _ _)
  · exact is_arith hoperand (hcopy _ _)
  · exact is_arith hoperand (is_literal (.inr ⟨0.5, rfl⟩))

theorem is_simplifyArith (id line k : Nat) (op : Arith) {left right : Node}
    (hleft : left.Is Form.isExpression) (hright : right.Is Form.isExpression) :
    ((simplifyArith id line op left right).run k).1.Is Form.isExpression := by
  unfold simplifyArith
  split
  · next form hfold => exact is_literal (form_of_foldLiterals? hfold)
  · split
    · next m hm =>
      obtain ⟨hread, -, hside⟩ := match?_eq_some hm
      rcases hside with ⟨-, hoperand, hliteral, -⟩ | ⟨-, hoperand, hliteral, -⟩
      · exact is_applyIdentity (hoperand ▸ hright) (hliteral ▸ hleft) hread
      · exact is_applyIdentity (hoperand ▸ hleft) (hliteral ▸ hright) hread
    · exact is_arith hleft hright

theorem replaces_block {statements statements' : List Node} :
    (Form.block statements').Replaces (.block statements) :=
  ⟨id, id, id, id, id, id, id⟩

/-- A traversal keeps the kind of a form. -/
theorem replaces_traverse (f : Node → Fresh Node) (form : Form Node) (k : Nat) :
    ((form.traverse f).run k).1.Replaces form := by
  cases form with
  | function name parameters body => cases parameters <;> exact ⟨id, id, id, id, id, id, id⟩
  | call name arguments => cases arguments <;> exact ⟨id, id, id, id, id, id, id⟩
  | _ => exact ⟨id, id, id, id, id, id, id⟩

theorem isShaped_pairs {f : Node → Fresh Node} (pairs : List (Node × Node))
    (hf : ∀ pair ∈ pairs, ∀ k, ((f pair.1).run k).1.form.Replaces pair.1.form ∧
      ((f pair.2).run k).1.form.Replaces pair.2.form)
    (h : (pairs.all fun pair => pair.1.form.isBinder && pair.2.form.isTy) = true) (k : Nat) :
    (((pairs.mapM fun pair => (return (← f pair.1, ← f pair.2) : Fresh (Node × Node))).run
      k).1.all fun pair => pair.1.form.isBinder && pair.2.form.isTy) = true := by
  induction pairs generalizing k with
  | nil => rfl
  | cons pair pairs ih =>
    simp only [List.all_cons, Bool.and_eq_true] at h
    have hpair := hf pair (by simp)
    have hrest := ih (fun p hp => hf p (by simp [hp])) h.2
    simp only [List.mapM_cons, StateT.run_bind, StateT.run_pure]
    show ((_ && _) && _) = true
    simp only [Bool.and_eq_true]
    exact ⟨⟨(hpair _).1.binder h.1.1, (hpair _).2.ty h.1.2⟩, hrest _⟩

/-- A traversal that replaces children by children of the same kind. -/
theorem isShaped_traverse {f : Node → Fresh Node} {form : Form Node}
    (hf : ∀ m ∈ form.children, ∀ k, ((f m).run k).1.form.Replaces m.form)
    (h : form.isShaped = true) (k : Nat) : ((form.traverse f).run k).1.isShaped = true := by
  cases form with
  | program body => cases h
  | block statements =>
    refine List.all_eq_true.mpr fun m hm => ?_
    obtain ⟨n, hn, j, rfl⟩ := mem_mapM_fresh hm
    exact (hf n hn j).statement (List.all_eq_true.mp h n hn)
  | scope body => exact (hf body (by simp [Form.children]) _).block h
  | branch guard body =>
    rw [Form.isShaped, Bool.and_eq_true] at h
    exact Bool.and_eq_true_iff.mpr ⟨(hf guard (by simp [Form.children]) _).statement h.1,
      (hf body (by simp [Form.children]) _).block h.2⟩
  | whileLoop guard body =>
    rw [Form.isShaped, Bool.and_eq_true] at h
    exact Bool.and_eq_true_iff.mpr ⟨(hf guard (by simp [Form.children]) _).statement h.1,
      (hf body (by simp [Form.children]) _).block h.2⟩
  | forLoop start guard step body =>
    rw [Form.isShaped, Bool.and_eq_true, Bool.and_eq_true, Bool.and_eq_true] at h
    refine Bool.and_eq_true_iff.mpr ⟨Bool.and_eq_true_iff.mpr ⟨Bool.and_eq_true_iff.mpr ⟨?_, ?_⟩,
      ?_⟩, ?_⟩
    · exact (hf start (by simp [Form.children]) _).statement h.1.1.1
    · exact (hf guard (by simp [Form.children]) _).statement h.1.1.2
    · exact (hf step (by simp [Form.children]) _).statement h.1.2
    · exact (hf body (by simp [Form.children]) _).block h.2
  | relation rel left right =>
    rw [Form.isShaped, Bool.and_eq_true] at h
    exact Bool.and_eq_true_iff.mpr ⟨(hf left (by simp [Form.children]) _).expression h.1,
      (hf right (by simp [Form.children]) _).expression h.2⟩
  | arith op left right =>
    rw [Form.isShaped, Bool.and_eq_true] at h
    exact Bool.and_eq_true_iff.mpr ⟨(hf left (by simp [Form.children]) _).expression h.1,
      (hf right (by simp [Form.children]) _).expression h.2⟩
  | print value => exact (hf value (by simp [Form.children]) _).statement h
  | assign name value =>
    rw [Form.isShaped, Bool.and_eq_true] at h
    exact Bool.and_eq_true_iff.mpr ⟨(hf name (by simp [Form.children]) _).binder h.1,
      (hf value (by simp [Form.children]) _).statement h.2⟩
  | declare name type =>
    rw [Form.isShaped, Bool.and_eq_true] at h
    exact Bool.and_eq_true_iff.mpr ⟨(hf name (by simp [Form.children]) _).binder h.1,
      (hf type (by simp [Form.children]) _).ty h.2⟩
  | define name value =>
    rw [Form.isShaped, Bool.and_eq_true] at h
    exact Bool.and_eq_true_iff.mpr ⟨(hf name (by simp [Form.children]) _).binder h.1,
      (hf value (by simp [Form.children]) _).statement h.2⟩
  | cast value type =>
    rw [Form.isShaped, Bool.and_eq_true] at h
    exact Bool.and_eq_true_iff.mpr ⟨(hf value (by simp [Form.children]) _).statement h.1,
      (hf type (by simp [Form.children]) _).ty h.2⟩
  | params pairs =>
    refine isShaped_pairs pairs (fun pair hpair k => ⟨?_, ?_⟩) h k
    · exact hf _ (List.mem_flatMap.mpr ⟨pair, hpair, by simp⟩) k
    · exact hf _ (List.mem_flatMap.mpr ⟨pair, hpair, by simp⟩) k
  | args values =>
    refine List.all_eq_true.mpr fun m hm => ?_
    obtain ⟨n, hn, j, rfl⟩ := mem_mapM_fresh hm
    exact (hf n hn j).expression (List.all_eq_true.mp h n hn)
  | function name parameters body =>
    rw [Form.isShaped, Bool.and_eq_true, Bool.and_eq_true] at h
    cases parameters with
    | none =>
      refine Bool.and_eq_true_iff.mpr ⟨Bool.and_eq_true_iff.mpr ⟨?_, rfl⟩, ?_⟩
      · exact (hf name (by simp [Form.children]) _).binder h.1.1
      · exact (hf body (by simp [Form.children]) _).block h.2
    | some m =>
      refine Bool.and_eq_true_iff.mpr ⟨Bool.and_eq_true_iff.mpr ⟨?_, ?_⟩, ?_⟩
      · exact (hf name (by simp [Form.children]) _).binder h.1.1
      · exact (hf m (by simp [Form.children]) _).params h.1.2
      · exact (hf body (by simp [Form.children]) _).block h.2
  | call name arguments =>
    rw [Form.isShaped, Bool.and_eq_true] at h
    cases arguments with
    | none =>
      exact Bool.and_eq_true_iff.mpr ⟨(hf name (by simp [Form.children]) _).binder h.1, rfl⟩
    | some m =>
      exact Bool.and_eq_true_iff.mpr ⟨(hf name (by simp [Form.children]) _).binder h.1,
        (hf m (by simp [Form.children]) _).args h.2⟩
  | math fn argument => exact (hf argument (by simp [Form.children]) _).expression h
  | _ => rfl

/-- The local step of simplification keeps shape and kind. -/
theorem shaped_rebuild {id line : Nat} {form : Form Node} (h : form.isShaped = true)
    (hchildren : ∀ m ∈ form.children, m.Shaped) (k : Nat) :
    ((rebuild id line form).run k).1.Shaped ∧ ((rebuild id line form).run k).1.form.Replaces form := by
  unfold rebuild
  split
  · next statements =>
    have hkept : (statements.filter fun n => !n.isComment) ⊆ statements :=
      List.filter_sublist.subset
    refine ⟨Node.shaped_iff.mpr ⟨?_, fun m hm => hchildren m (hkept hm)⟩, ?_⟩
    · exact List.all_eq_true.mpr fun m hm => List.all_eq_true.mp h m (hkept hm)
    · exact replaces_block
  · next op left right =>
    rw [Form.isShaped, Bool.and_eq_true] at h
    have hresult := is_simplifyArith id line k op
      ⟨h.1, hchildren left (by simp [Form.children])⟩
      ⟨h.2, hchildren right (by simp [Form.children])⟩
    exact ⟨hresult.shaped, .of_isExpression rfl hresult.kind⟩
  · exact ⟨Node.shaped_iff.mpr ⟨h, hchildren⟩, .refl form⟩

/-- **A simplified tree is shaped if the tree is.** -/
theorem shaped_simplify {n : Node} (h : n.Shaped) (k : Nat) :
    ((simplify n).run k).1.Shaped ∧ ((simplify n).run k).1.form.Replaces n.form := by
  induction n using Node.induction generalizing k with
  | h n ih =>
    have hshape := isShaped_traverse (fun m hm k => (ih m hm (h.child hm) k).2)
      (Node.shaped_iff.mp h).1 k
    have hchildren : ∀ m ∈ ((n.form.traverse simplify).run k).1.children, m.Shaped := by
      intro m hm
      obtain ⟨n', hn', j, rfl⟩ := mem_children_traverse hm
      exact (ih n' hn' (h.child hn') j).1
    rw [simplify_eq]
    obtain ⟨hshaped, hkind⟩ := shaped_rebuild hshape hchildren _
    exact ⟨hshaped, hkind.trans (replaces_traverse simplify n.form k)⟩

theorem isProgram_simplify {p : Node} (h : p.IsProgram) (k : Nat) :
    ((simplify p).run k).1.IsProgram := by
  obtain ⟨body, hform, hbody⟩ := h
  obtain ⟨id, line, form⟩ := p
  obtain rfl : form = .program body := hform
  obtain ⟨hshaped, hkind⟩ := shaped_simplify hbody.shaped k
  exact ⟨_, rfl, hkind.block hbody.kind, hshaped⟩

/-! ## Sweeps -/

theorem replaces_sweep (everywhere outer : Names) (head : Option (List Node)) (observed : Bool)
    (n : Node) : (sweep everywhere outer head observed n).form.Replaces n.form := by
  fun_cases sweep everywhere outer head observed n <;> exact ⟨id, id, id, id, id, id, id⟩

theorem isShaped_sweep (everywhere outer : Names) (head : Option (List Node)) (observed : Bool)
    (n : Node) (h : n.form.isShaped = true) :
    (sweep everywhere outer head observed n).form.isShaped = true := by
  have hbody : ∀ head observed (body : Node), body.form.isBlock = true →
      (sweep everywhere outer head observed body).form.isBlock = true :=
    fun head observed body => (replaces_sweep everywhere outer head observed body).block
  revert h
  fun_cases sweep everywhere outer head observed n with
  | case1 _ id line body => exact fun h => by cases h
  | case2 => exact fun h => h
  | case3 id line statements head =>
    intro h
    refine List.all_eq_true.mpr fun m hm => ?_
    obtain ⟨n, hn, last, rfl⟩ := mem_sweepAll _ hm
    exact (replaces_sweep _ _ _ _ n).statement (List.all_eq_true.mp h n hn)
  | case4 _ id line body => exact hbody _ _ body
  | case5 _ id line guard body =>
    intro h
    rw [Form.isShaped, Bool.and_eq_true] at h
    exact Bool.and_eq_true_iff.mpr ⟨h.1, hbody _ _ body h.2⟩
  | case6 _ id line guard body =>
    intro h
    rw [Form.isShaped, Bool.and_eq_true] at h
    exact Bool.and_eq_true_iff.mpr ⟨h.1, hbody _ _ body h.2⟩
  | case7 _ id line start guard step body =>
    intro h
    rw [Form.isShaped, Bool.and_eq_true] at h
    exact Bool.and_eq_true_iff.mpr ⟨h.1, hbody _ _ body h.2⟩
  | case8 _ id line name params body =>
    intro h
    rw [Form.isShaped, Bool.and_eq_true] at h
    exact Bool.and_eq_true_iff.mpr ⟨h.1, hbody _ _ body h.2⟩
  | case9 => exact fun h => h

/-- **A swept tree is shaped if the tree is.** -/
theorem shaped_sweep (everywhere outer : Names) (head : Option (List Node)) (observed : Bool)
    {n : Node} (h : n.Shaped) : (sweep everywhere outer head observed n).Shaped :=
  all_sweep (isShaped_sweep everywhere) outer head observed h

theorem isProgram_sweepProgram {p : Node} (h : p.IsProgram) : (sweepProgram p).IsProgram := by
  obtain ⟨body, hform, hbody⟩ := h
  obtain ⟨id, line, form⟩ := p
  obtain rfl : form = .program body := hform
  exact ⟨_, rfl, (replaces_sweep _ _ _ _ body).block hbody.kind, shaped_sweep _ _ _ _ hbody.shaped⟩

end Optimize

end Scriptlet
