import Scriptlet.Optimize.Simplify
import Scriptlet.Proofs.Trees

/-!
# The normal form of simplification

A tree is normal if no block of it holds a comment and no operator of it can be
folded or simplified by an identity. Simplification ends in a normal tree after
a single pass from the leaves to the root, although an identity may build new
operators; and it leaves a normal tree alone, drawing no id.

Results:
* `simplify_eq`: simplification as a traversal of the children and one local
  step.
* `normal_simplify`: a simplified tree is normal.
* `simplify_of_normal`: a normal tree is its own simplification.
-/

namespace Scriptlet

/-! ## Traversal -/

/-- The form with every child replaced by a step that may draw ids, from left to
    right. -/
def Form.traverse (f : Node → Fresh Node) : Form Node → Fresh (Form Node)
  | .program body => return .program (← f body)
  | .block statements => return .block (← statements.mapM f)
  | .scope body => return .scope (← f body)
  | .branch guard body => return .branch (← f guard) (← f body)
  | .whileLoop guard body => return .whileLoop (← f guard) (← f body)
  | .forLoop start guard step body =>
    return .forLoop (← f start) (← f guard) (← f step) (← f body)
  | .relation rel left right => return .relation rel (← f left) (← f right)
  | .arith op left right => return .arith op (← f left) (← f right)
  | .print value => return .print (← f value)
  | .assign name value => return .assign (← f name) (← f value)
  | .declare name type => return .declare (← f name) (← f type)
  | .define name value => return .define (← f name) (← f value)
  | .cast value type => return .cast (← f value) (← f type)
  | .params pairs => return .params (← pairs.mapM fun pair => return (← f pair.1, ← f pair.2))
  | .args values => return .args (← values.mapM f)
  | .function name none body => return .function (← f name) none (← f body)
  | .function name (some parameters) body =>
    return .function (← f name) (some (← f parameters)) (← f body)
  | .call name none => return .call (← f name) none
  | .call name (some arguments) => return .call (← f name) (some (← f arguments))
  | .math fn argument => return .math fn (← f argument)
  | .comment text => return .comment text
  | .int n => return .int n
  | .float x => return .float x
  | .str s => return .str s
  | .bool b => return .bool b
  | .binder name => return .binder name
  | .read name => return .read name
  | .ty t => return .ty t
  | .pi => return .pi

/-- The children of a traversed form are the traversed children. -/
theorem Form.children_traverse (f : Node → Fresh Node) (form : Form Node) :
    Form.children <$> form.traverse f = form.children.mapM f := by
  cases form with
  | params pairs =>
    induction pairs with
    | nil => simp [traverse, children]
    | cons pair pairs ih =>
      simp only [traverse, children, map_pure, List.mapM_cons, List.flatMap_cons,
        List.mapM_append, List.mapM_nil, map_bind, bind_assoc, pure_bind] at ih ⊢
      simp [← ih]
  | function name params body => cases params <;> simp [traverse, children]
  | call name args => cases args <;> simp [traverse, children]
  | _ => simp [traverse, children]

/-- A traversal whose step leaves all children alone leaves the form alone. -/
theorem Form.traverse_eq_pure {f : Node → Fresh Node} {form : Form Node}
    (h : ∀ n ∈ form.children, f n = pure n) : form.traverse f = pure form := by
  have hlist : ∀ ns : List Node, (∀ n ∈ ns, f n = pure n) → ns.mapM f = pure ns := by
    intro ns
    induction ns with
    | nil => intro _; rfl
    | cons n ns ih =>
      intro hns
      rw [List.mapM_cons, hns n (by simp), ih fun m hm => hns m (by simp [hm])]
      rfl
  cases form with
  | block statements => simp [traverse, hlist statements h]
  | args values => simp [traverse, hlist values h]
  | params pairs =>
    have hpairs : (pairs.mapM fun pair => return (← f pair.1, ← f pair.2)) = pure pairs := by
      induction pairs with
      | nil => rfl
      | cons pair pairs ih =>
        obtain ⟨left, right⟩ := pair
        simp only [children, List.flatMap_cons, List.mem_append] at h
        rw [List.mapM_cons, ih fun n hn => h n (.inr hn), h left (by simp), h right (by simp)]
        rfl
    rw [traverse, hpairs]
    rfl
  | function name params body => cases params <;> simp_all [traverse, children]
  | call name args => cases args <;> simp_all [traverse, children]
  | _ => simp_all [traverse, children]

/-- Every element of a traversed list comes from an element of the list. -/
theorem mem_mapM_fresh {f : Node → Fresh Node} {ns : List Node} :
    ∀ {k : Nat} {m : Node}, m ∈ ((ns.mapM f).run k).1 →
      ∃ n ∈ ns, ∃ j, m = ((f n).run j).1 := by
  induction ns with
  | nil =>
    intro k m h
    cases h
  | cons n ns ih =>
    intro k m h
    simp only [List.mapM_cons, StateT.run_bind, StateT.run_pure] at h
    rcases List.mem_cons.mp h with h | h
    · exact ⟨n, by simp, k, h⟩
    · obtain ⟨n', hn', j, hj⟩ := ih h
      exact ⟨n', by simp [hn'], j, hj⟩

namespace Optimize

/-- What simplification makes of a node whose children are simplified. -/
def rebuild (id line : Nat) : Form Node → Fresh Node
  | .block statements => return ⟨id, line, .block (statements.filter fun n => !n.isComment)⟩
  | .arith op left right => simplifyArith id line op left right
  | form => return ⟨id, line, form⟩

theorem simplifyAll_eq_mapM (ns : List Node) : simplifyAll ns = ns.mapM simplify := by
  induction ns with
  | nil => rfl
  | cons n ns ih => rw [simplifyAll, List.mapM_cons, ih]

theorem simplifyPairs_eq_mapM (pairs : List (Node × Node)) :
    simplifyPairs pairs =
      pairs.mapM fun pair => return (← simplify pair.1, ← simplify pair.2) := by
  induction pairs with
  | nil => rfl
  | cons pair pairs ih =>
    obtain ⟨left, right⟩ := pair
    rw [simplifyPairs, List.mapM_cons, ih, simplifyPair]

/-- Simplification treats the children from left to right and then the node. -/
theorem simplify_eq (n : Node) :
    simplify n = n.form.traverse simplify >>= rebuild n.id n.line := by
  obtain ⟨id, line, form⟩ := n
  cases form with
  | block statements => simp [simplify, Form.traverse, rebuild, simplifyAll_eq_mapM]
  | args values => simp [simplify, Form.traverse, rebuild, simplifyAll_eq_mapM]
  | params pairs => simp [simplify, Form.traverse, rebuild, simplifyPairs_eq_mapM]
  | function name params body =>
    cases params <;> simp [simplify, simplifyOption, Form.traverse, rebuild]
  | call name args => cases args <;> simp [simplify, simplifyOption, Form.traverse, rebuild]
  | _ => simp [simplify, Form.traverse, rebuild]

/-- The children that simplification hands to its local step are simplified. -/
theorem mem_children_traverse {form : Form Node} {k : Nat} {m : Node}
    (h : m ∈ ((form.traverse simplify).run k).1.children) :
    ∃ n ∈ form.children, ∃ j, m = ((simplify n).run j).1 := by
  have hrun : ((form.traverse simplify).run k).1.children
      = ((form.children.mapM simplify).run k).1 :=
    congrArg (fun x => (x.run k).1) (form.children_traverse simplify)
  rw [hrun] at h
  exact mem_mapM_fresh h

/-! ## Normal trees -/

/-- A node on which simplification has nothing to do: a block without comments,
    or an operator that neither folds nor matches an identity. -/
def Irreducible (n : Node) : Prop :=
  match n.form with
  | .block statements => ∀ m ∈ statements, m.isComment = false
  | .arith op left right => foldLiterals? op left right = none ∧ match? op left right = none
  | _ => True

/-- A tree on which simplification has nothing to do. -/
def Normal (n : Node) : Prop := n.All Irreducible

theorem normal_of_leaf {n : Node} (h : Irreducible n) (hleaf : n.children = []) : Normal n := by
  rw [Normal, Node.all_iff, hleaf]
  exact ⟨h, by simp⟩

theorem isRead_iff {n : Node} : isRead n = true ↔ ∃ x, n.form = .read x := by
  unfold isRead
  split <;> simp_all

/-- An identity that applies has a number on one side and a variable on the
    other. -/
theorem match?_eq_some {op : Arith} {left right : Node} {m : Match}
    (h : match? op left right = some m) :
    isRead m.operand = true ∧ m.literal.isNumber = true ∧
      (left.isNumber = true ∧ m.operand = right ∧ m.literal = left ∧
          leftIdentity? op m.literal = some m.identity ∨
        left.isNumber = false ∧ m.operand = left ∧ m.literal = right ∧
          rightIdentity? op m.literal = some m.identity) := by
  unfold match? at h
  split at h
  · next hleft =>
    obtain ⟨identity, hidentity, rfl⟩ := Option.map_eq_some_iff.mp h
    exact ⟨hleft.2, hleft.1, .inl ⟨hleft.1, rfl, rfl, hidentity⟩⟩
  · split at h
    · next hright =>
      obtain ⟨identity, hidentity, rfl⟩ := Option.map_eq_some_iff.mp h
      obtain ⟨x, hx⟩ := isRead_iff.mp hright.2
      exact ⟨hright.2, hright.1, .inr ⟨by simp [Node.isNumber, hx], rfl, rfl, hidentity⟩⟩
    · cases h

/-- Only literals fold. -/
theorem foldLiterals?_eq_none_of_isRead {op : Arith} {left right : Node} (h : isRead left = true) :
    foldLiterals? op left right = none := by
  obtain ⟨x, hx⟩ := isRead_iff.mp h
  simp [foldLiterals?, literalValue?, hx]

/-- A folded operator is a literal, and so a leaf. -/
theorem form_of_foldLiterals? {op : Arith} {left right : Node} {form : Form Node}
    (h : foldLiterals? op left right = some form) :
    (∃ i, form = .int i) ∨ ∃ x, form = .float x := by
  unfold foldLiterals? at h
  split at h
  · split at h
    · next result _ =>
      cases result with
      | int i => exact .inl ⟨i, by simpa [literalForm?] using h.symm⟩
      | float x =>
        simp only [literalForm?] at h
        split at h
        · exact .inr ⟨x, by simpa using h.symm⟩
        · cases h
      | str _ => cases h
      | bool _ => cases h
    · cases h
  · cases h

/-- A variable beside a variable is not simplified. -/
theorem irreducible_twice {id line : Nat} {op : Arith} {left right : Node}
    (hleft : isRead left = true) (hright : isRead right = true) :
    Irreducible ⟨id, line, .arith op left right⟩ := by
  obtain ⟨x, hx⟩ := isRead_iff.mp hleft
  obtain ⟨y, hy⟩ := isRead_iff.mp hright
  refine ⟨foldLiterals?_eq_none_of_isRead hleft, ?_⟩
  simp [match?, Node.isNumber, hx, hy]

/-- Half a variable is not simplified. -/
theorem irreducible_halve {id line halfId halfLine : Nat} {operand : Node}
    (h : isRead operand = true) :
    Irreducible ⟨id, line, .arith .mul operand ⟨halfId, halfLine, .float 0.5⟩⟩ := by
  obtain ⟨x, hx⟩ := isRead_iff.mp h
  refine ⟨foldLiterals?_eq_none_of_isRead h, ?_⟩
  have h0 : (0.5 == Float.ofNat 0) = false := by decide
  have h1 : (0.5 == Float.ofNat 1) = false := by decide
  have h2 : (0.5 == Float.ofNat 2) = false := by decide
  simp [match?, Node.isNumber, isRead, rightIdentity?, isNumeral, hx, h0, h1, h2]

/-- A literal is normal. -/
theorem normal_literal {id line : Nat} {form : Form Node}
    (h : (∃ i, form = .int i) ∨ ∃ x, form = .float x) : Normal ⟨id, line, form⟩ := by
  rcases h with ⟨i, rfl⟩ | ⟨x, rfl⟩
  · exact normal_of_leaf trivial rfl
  · exact normal_of_leaf trivial rfl

/-- A binary operator is normal if its operands are and it is irreducible itself. -/
theorem normal_arith {id line : Nat} {op : Arith} {left right : Node}
    (h : Irreducible ⟨id, line, .arith op left right⟩) (hleft : Normal left)
    (hright : Normal right) : Normal ⟨id, line, .arith op left right⟩ := by
  rw [Normal, Node.all_iff]
  refine ⟨h, ?_⟩
  intro m hm
  simp only [Node.children, Form.children, List.mem_cons, List.not_mem_nil, or_false] at hm
  rcases hm with rfl | rfl
  · exact hleft
  · exact hright

/-- What an identity makes of normal operands is normal. -/
theorem normal_applyIdentity {line k : Nat} {m : Match} (hoperand : Normal m.operand)
    (hliteral : Normal m.literal) (hread : isRead m.operand = true) :
    Normal ((applyIdentity line m).run k).1 := by
  have hcopy : ∀ id line, Normal ⟨id, line, m.operand.form⟩ := by
    intro id line
    obtain ⟨x, hx⟩ := isRead_iff.mp hread
    rw [hx]
    exact normal_of_leaf trivial rfl
  unfold applyIdentity
  split
  · exact hoperand
  · exact hliteral
  · refine normal_literal ?_
    unfold oneLike
    split
    · exact .inr ⟨1, rfl⟩
    · exact .inl ⟨1, rfl⟩
  · exact normal_arith (irreducible_twice hread hread) hoperand (hcopy _ _)
  · exact normal_arith (irreducible_twice hread hread) hoperand (hcopy _ _)
  · exact normal_arith (irreducible_halve hread) hoperand (normal_literal (.inr ⟨0.5, rfl⟩))

/-- An operator between normal operands is simplified to a normal tree. -/
theorem normal_simplifyArith {id line k : Nat} {op : Arith} {left right : Node}
    (hleft : Normal left) (hright : Normal right) :
    Normal ((simplifyArith id line op left right).run k).1 := by
  unfold simplifyArith
  split
  · next form hfold => exact normal_literal (form_of_foldLiterals? hfold)
  · next hfold =>
    split
    · next m hm =>
      obtain ⟨hread, -, hside⟩ := match?_eq_some hm
      rcases hside with ⟨-, hoperand, hliteral, -⟩ | ⟨-, hoperand, hliteral, -⟩
      · exact normal_applyIdentity (hoperand ▸ hright) (hliteral ▸ hleft) hread
      · exact normal_applyIdentity (hoperand ▸ hleft) (hliteral ▸ hright) hread
    · next hm => exact normal_arith ⟨hfold, hm⟩ hleft hright

/-- The local step makes a normal tree of normal children. -/
theorem normal_rebuild {id line k : Nat} {form : Form Node}
    (h : ∀ m ∈ form.children, Normal m) : Normal ((rebuild id line form).run k).1 := by
  unfold rebuild
  split
  · next statements =>
    rw [Normal, Node.all_iff]
    constructor
    · intro m hm
      simpa using (List.mem_filter.mp hm).2
    · intro m hm
      exact h m (List.mem_filter.mp hm).1
  · next op left right =>
    have hleft : Normal left := h left (by simp [Form.children])
    have hright : Normal right := h right (by simp [Form.children])
    exact normal_simplifyArith hleft hright
  · next hblock harith =>
    rw [Normal, Node.all_iff]
    refine ⟨?_, h⟩
    unfold Irreducible
    split
    · next statements hform => exact absurd hform (hblock statements)
    · next op left right hform => exact absurd hform (harith op left right)
    · trivial

/-- **A simplified tree is normal**, whatever ids were free. -/
theorem normal_simplify (n : Node) (k : Nat) : Normal ((simplify n).run k).1 := by
  induction n using Node.induction generalizing k with
  | h n ih =>
    rw [simplify_eq]
    refine normal_rebuild ?_
    intro m hm
    obtain ⟨n', hn', j, rfl⟩ := mem_children_traverse hm
    exact ih n' hn' j

/-- The local step leaves an irreducible node alone. -/
theorem rebuild_of_irreducible {n : Node} (h : Irreducible n) :
    rebuild n.id n.line n.form = pure n := by
  obtain ⟨id, line, form⟩ := n
  cases form with
  | block statements =>
    have hkeep : (statements.filter fun n => !n.isComment) = statements := by
      rw [List.filter_eq_self]
      intro m hm
      simp [h m hm]
    simp only [rebuild, hkeep]
  | arith op left right =>
    obtain ⟨hfold, hmatch⟩ := h
    simp only [rebuild, simplifyArith, hfold, hmatch]
  | _ => rfl

/-- **A normal tree is its own simplification**, and no id is drawn for it. -/
theorem simplify_of_normal {n : Node} (h : Normal n) : simplify n = pure n := by
  induction n using Node.induction with
  | h n ih =>
    rw [simplify_eq, Form.traverse_eq_pure fun m hm => ih m hm (h.child hm), pure_bind]
    exact rebuild_of_irreducible h.root

end Optimize

end Scriptlet
