import Scriptlet.Optimize
import Scriptlet.Proofs.NormalForm

/-!
# Optimising twice

Optimising an optimised tree changes nothing. Simplification ends in a normal
tree; sweeping only drops statements, so it keeps a tree normal; and a sweep
that changes anything makes the tree smaller, so the sweeps end in a tree that
a further sweep leaves alone.

Results:
* `sweep_eq_or_size_lt`: a sweep changes nothing or makes the tree smaller.
* `normal_sweep`: a swept normal tree is normal.
* `sweepProgram_eliminate`: the sweeps end in a fixed point.
* `optimize_optimize`: an optimised tree is its own optimisation, and no id is
  drawn for it.
-/

namespace Scriptlet.Optimize

/-! ## A sweep shrinks the tree -/

/-- The number of nodes of a list of trees. -/
def sizes (ns : List Node) : Nat := (ns.flatMap Node.preorder).length

theorem sizes_cons (n : Node) (ns : List Node) : sizes (n :: ns) = n.size + sizes ns := by
  unfold sizes Node.size
  rw [List.flatMap_cons, List.length_append]

theorem sizes_append (ms ns : List Node) : sizes (ms ++ ns) = sizes ms + sizes ns := by
  unfold sizes
  rw [List.flatMap_append, List.length_append]

theorem size_eq_sizes (n : Node) : n.size = sizes n.children + 1 := Node.size_eq n

/-- A sweep over statements changes nothing or makes them fewer or smaller, if
    that is so of a sweep over each of them. -/
theorem sweepAll_eq_or_sizes_lt {everywhere : Names} {live : Liveness} {observed : Bool}
    (ns : List Node)
    (h : ∀ n ∈ ns, ∀ outer head observed, sweep everywhere outer head observed n = n ∨
      (sweep everywhere outer head observed n).size < n.size) (yields : Bool) :
    sweepAll everywhere live observed yields ns = ns ∨
      sizes (sweepAll everywhere live observed yields ns) < sizes ns := by
  induction ns generalizing yields with
  | nil => exact .inl rfl
  | cons n ns ih =>
    have hns := fun m hm => h m (List.mem_cons_of_mem n hm)
    simp only [sweepAll]
    split
    · right
      have hpos := n.size_pos
      rw [sizes_cons]
      rcases ih hns yields with hsame | hless
      · rw [hsame]
        omega
      · omega
    · rw [sizes_cons, sizes_cons]
      rcases h n (by simp) live.visible none (observed && ns.isEmpty) with hn | hn
      · rcases ih hns (!n.isValueless) with hsame | hless
        · exact .inl (by rw [hn, hsame])
        · exact .inr (by rw [hn]; omega)
      · rcases ih hns (!n.isValueless) with hsame | hless
        · exact .inr (by rw [hsame]; omega)
        · exact .inr (by omega)

/-- A node whose last child is its body is as small as the body is. -/
theorem eq_or_size_lt_of_body (wrap : Node → Node) (front : List Node) {body body' : Node}
    (hwrap : ∀ b, (wrap b).children = front ++ [b])
    (h : body' = body ∨ body'.size < body.size) :
    wrap body' = wrap body ∨ (wrap body').size < (wrap body).size := by
  rcases h with rfl | h
  · exact .inl rfl
  · right
    rw [size_eq_sizes, size_eq_sizes (wrap body), hwrap, hwrap]
    rw [sizes_append, sizes_append, sizes_cons, sizes_cons]
    omega

/-- **A sweep changes nothing or makes the tree smaller.** -/
theorem sweep_eq_or_size_lt (everywhere outer : Names) (head : Option (List Node))
    (observed : Bool) (n : Node) :
    sweep everywhere outer head observed n = n ∨
      (sweep everywhere outer head observed n).size < n.size := by
  induction n using Node.induction generalizing outer head observed with
  | h n ih =>
    fun_cases sweep everywhere outer head observed n with
    | case1 _ id line body =>
      exact eq_or_size_lt_of_body (fun b => ⟨id, line, .program b⟩) [] (fun _ => rfl)
        (ih body (by simp [Node.children, Form.children]) outer (some []) true)
    | case2 id line statements => exact .inl rfl
    | case3 id line statements head =>
      rcases sweepAll_eq_or_sizes_lt statements ih false with hsame | hless
      · exact .inl (by rw [hsame])
      · right
        rw [size_eq_sizes, size_eq_sizes ⟨id, line, .block statements⟩]
        exact Nat.add_lt_add_right hless 1
    | case4 _ id line body =>
      exact eq_or_size_lt_of_body (fun b => ⟨id, line, .scope b⟩) [] (fun _ => rfl)
        (ih body (by simp [Node.children, Form.children]) outer (some []) observed)
    | case5 _ id line guard body =>
      exact eq_or_size_lt_of_body (fun b => ⟨id, line, .branch guard b⟩) [guard] (fun _ => rfl)
        (ih body (by simp [Node.children, Form.children]) outer (some [guard]) observed)
    | case6 _ id line guard body =>
      exact eq_or_size_lt_of_body (fun b => ⟨id, line, .whileLoop guard b⟩) [guard] (fun _ => rfl)
        (ih body (by simp [Node.children, Form.children]) outer (some [guard]) observed)
    | case7 _ id line start guard step body =>
      exact eq_or_size_lt_of_body (fun b => ⟨id, line, .forLoop start guard step b⟩)
        [start, guard, step] (fun _ => rfl)
        (ih body (by simp [Node.children, Form.children]) outer (some [start, guard, step])
          observed)
    | case8 _ id line name params body =>
      exact eq_or_size_lt_of_body (fun b => ⟨id, line, .function name params b⟩)
        (name :: params.toList) (fun _ => rfl)
        (ih body (by simp [Node.children, Form.children]) outer (some []) true)
    | case9 => exact .inl rfl

/-! ## A sweep keeps a tree normal -/

theorem isComment_sweep (everywhere outer : Names) (head : Option (List Node)) (observed : Bool)
    (n : Node) : (sweep everywhere outer head observed n).isComment = n.isComment := by
  fun_cases sweep everywhere outer head observed n <;> rfl

/-- What is left of some statements are swept statements. -/
theorem mem_sweepAll {everywhere : Names} {live : Liveness} {observed : Bool} {m : Node}
    {ns : List Node} (yields : Bool) (h : m ∈ sweepAll everywhere live observed yields ns) :
    ∃ n ∈ ns, ∃ last, m = sweep everywhere live.visible none last n := by
  induction ns generalizing yields with
  | nil => cases h
  | cons n ns ih =>
    simp only [sweepAll] at h
    split at h
    · obtain ⟨n', hn', hm⟩ := ih yields h
      exact ⟨n', List.mem_cons_of_mem n hn', hm⟩
    · rcases List.mem_cons.mp h with h | h
      · exact ⟨n, by simp, _, h⟩
      · obtain ⟨n', hn', hm⟩ := ih _ h
        exact ⟨n', List.mem_cons_of_mem n hn', hm⟩

/-- The children of a swept tree are children of the tree, swept or not. -/
theorem mem_children_sweep {everywhere outer : Names} {head : Option (List Node)}
    {observed : Bool} {m n : Node} (h : m ∈ (sweep everywhere outer head observed n).children) :
    m ∈ n.children ∨ ∃ k ∈ n.children, ∃ outer head observed,
      m = sweep everywhere outer head observed k := by
  have hbody : ∀ (front : List Node) {body body' : Node}, m ∈ front ++ [body'] →
      (∃ outer head observed, body' = sweep everywhere outer head observed body) →
      m ∈ front ++ [body] ∨ ∃ k ∈ front ++ [body], ∃ outer head observed,
        m = sweep everywhere outer head observed k := by
    intro front body body' hm hswept
    rcases List.mem_append.mp hm with hm | hm
    · exact .inl (List.mem_append_left _ hm)
    · rw [List.mem_singleton.mp hm]
      exact .inr ⟨body, by simp, hswept⟩
  revert h
  fun_cases sweep everywhere outer head observed n with
  | case1 => exact fun h => hbody [] h ⟨_, _, _, rfl⟩
  | case2 => exact .inl
  | case3 id line statements head =>
    intro h
    obtain ⟨k, hk, last, rfl⟩ := mem_sweepAll _ h
    exact .inr ⟨k, hk, _, _, _, rfl⟩
  | case4 => exact fun h => hbody [] h ⟨_, _, _, rfl⟩
  | case5 _ id line guard body => exact fun h => hbody [guard] h ⟨_, _, _, rfl⟩
  | case6 _ id line guard body => exact fun h => hbody [guard] h ⟨_, _, _, rfl⟩
  | case7 _ id line start guard step body =>
    exact fun h => hbody [start, guard, step] h ⟨_, _, _, rfl⟩
  | case8 _ id line name params body =>
    exact fun h => hbody (name :: params.toList) h ⟨_, _, _, rfl⟩
  | case9 => exact .inl

/-- What a sweep keeps of single nodes it keeps of all nodes of a tree. -/
theorem all_sweep {P : Node → Prop} {everywhere : Names}
    (hP : ∀ outer head observed n, P n → P (sweep everywhere outer head observed n))
    (outer : Names) (head : Option (List Node)) (observed : Bool) {n : Node} (h : n.All P) :
    (sweep everywhere outer head observed n).All P := by
  induction n using Node.induction generalizing outer head observed with
  | h n ih =>
    rw [Node.all_iff]
    refine ⟨hP outer head observed n h.root, fun m hm => ?_⟩
    rcases mem_children_sweep hm with hm | ⟨k, hk, outer', head', observed', rfl⟩
    · exact h.child hm
    · exact ih k hk outer' head' observed' (h.child hk)

theorem irreducible_sweep (everywhere outer : Names) (head : Option (List Node))
    (observed : Bool) (n : Node) (h : Irreducible n) :
    Irreducible (sweep everywhere outer head observed n) := by
  revert h
  fun_cases sweep everywhere outer head observed n with
  | case3 id line statements head =>
    intro h m hm
    obtain ⟨n', hn', last, rfl⟩ := mem_sweepAll _ hm
    rw [isComment_sweep]
    exact h n' hn'
  | case2 => exact fun h => h
  | case9 => exact fun h => h
  | _ => exact fun _ => trivial

/-- **A swept normal tree is normal.** -/
theorem normal_sweep (everywhere outer : Names) (head : Option (List Node)) (observed : Bool)
    {n : Node} (h : Normal n) : Normal (sweep everywhere outer head observed n) :=
  all_sweep (irreducible_sweep everywhere) outer head observed h

/-! ## The sweeps end in a fixed point -/

/-- **No sweep changes a tree without dead code.** -/
theorem sweepProgram_eliminate (n : Node) : sweepProgram (eliminate n) = eliminate n := by
  fun_induction eliminate n with
  | case1 n swept hless ih => exact ih
  | case2 n swept hless =>
    have hsame : sweepProgram n = n :=
      (sweep_eq_or_size_lt n.usedEverywhere [] none true n).resolve_right hless
    simp only [swept, hsame]

theorem eliminate_of_fixed {n : Node} (h : sweepProgram n = n) : eliminate n = n := by
  rw [eliminate]
  simp [h]

theorem normal_eliminate {n : Node} (h : Normal n) : Normal (eliminate n) := by
  fun_induction eliminate n with
  | case1 n swept hless ih => exact ih (normal_sweep _ _ _ _ h)
  | case2 n swept hless => exact normal_sweep _ _ _ _ h

end Scriptlet.Optimize

namespace Scriptlet

open Optimize

/-- **An optimised tree is its own optimisation**: optimising it once more, with
    whatever ids are then free, gives the same ids, lines and forms and draws no
    id. -/
theorem optimize_optimize (dropDeadCode : Bool) (n : Node) (free next : Nat) :
    (optimize dropDeadCode ((optimize dropDeadCode n).run free).1).run next =
      (((optimize dropDeadCode n).run free).1, next) := by
  have hsimple : Normal ((simplify n).run free).1 := normal_simplify n free
  cases dropDeadCode with
  | false =>
    show (optimize false ((simplify n).run free).1).run next = (((simplify n).run free).1, next)
    rw [optimize, simplify_of_normal hsimple]
    rfl
  | true =>
    show (optimize true (eliminate ((simplify n).run free).1)).run next =
      (eliminate ((simplify n).run free).1, next)
    rw [optimize, simplify_of_normal (normal_eliminate hsimple), pure_bind,
      eliminate_of_fixed (sweepProgram_eliminate _)]
    rfl

end Scriptlet
