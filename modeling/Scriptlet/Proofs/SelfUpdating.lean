import Scriptlet.Proofs.Elimination

/-!
# Programs whose assignments read their own targets

Where the value of every assignment reads the variable that is assigned to, as
in `n = n - 1`, the target of an assignment is used wherever the assignment
stands. So no sweep drops an assignment, nor the declaration of a variable that
is assigned to: all that a sweep drops are variables that only their declarations
bind, and functions that are never called.

What is left to mind is the end of a block. A comment there hides from the sweep
that the statement before it is the last one, on which the value of the block
depends. `plainEnds` says that in a block whose value is observed a comment at
the end follows only an expression or a print, which every sweep keeps.

Results:
* `SelfUpdating.assignedAnywhere_subset`: what is assigned in such a tree is read.
* `plainEnds_sweep`: a sweep keeps the ends of observed blocks plain.
* `tidy_of_selfUpdating`: every sweep over such a program is tidy.
* `evaluates_eliminate_of_selfUpdating`: a clean run without dead code, down to the
  variables that are left.
* `not_evaluates_eliminate_of_comment`: a comment at the end that makes a difference.
-/

namespace Scriptlet

namespace Node

/-! ## Assignments that read their targets -/

/-- Whether a node, if it is an assignment, reads its target for the value. -/
def readsTarget (n : Node) : Bool :=
  match n.form with
  | .assign name value => name.name?.all fun x => value.reads.contains x
  | _ => true

/-- Every assignment in the tree reads its target. -/
def SelfUpdating (n : Node) : Prop := n.All fun m => m.readsTarget = true

instance : DecidablePred SelfUpdating := fun n =>
  inferInstanceAs (Decidable (n.All fun m => m.readsTarget = true))

theorem SelfUpdating.child {m n : Node} (h : n.SelfUpdating) (hm : m ∈ n.children) :
    m.SelfUpdating :=
  All.child h hm

theorem ownAssigned_subset_reads {n : Node} (h : n.readsTarget = true) :
    n.ownAssigned ⊆ n.reads := by
  obtain ⟨id, line, form⟩ := n
  cases form with
  | assign name value =>
    intro x hx
    have hx : name.name? = some x := by simpa [ownAssigned] using hx
    have hread : x ∈ value.reads := by simpa [readsTarget, hx] using h
    exact reads_subset (by simp [children, Form.children]) hread
  | _ => exact List.nil_subset _

/-- **What is assigned in a self-updating tree is read in it.** -/
theorem SelfUpdating.assignedAnywhere_subset {n : Node} (h : n.SelfUpdating) :
    n.assignedAnywhere ⊆ n.reads := by
  induction n using Node.induction with
  | h n ih =>
    intro x hx
    rw [assignedAnywhere, preorder_eq, List.flatMap_cons, List.mem_append] at hx
    rcases hx with hx | hx
    · exact ownAssigned_subset_reads (All.root h) hx
    · obtain ⟨k, hk, hx⟩ := List.mem_flatMap.mp hx
      obtain ⟨m, hm, hk⟩ := List.mem_flatMap.mp hk
      exact reads_subset hm (ih m hm (h.child hm) (List.mem_flatMap.mpr ⟨k, hk, hx⟩))

theorem mem_of_mem_assignedAll {x : String} {ns : List Node} (h : x ∈ assignedAll ns) :
    ∃ n ∈ ns, x ∈ n.assigned := by
  induction ns with
  | nil => cases h
  | cons n ns ih =>
    rw [assignedAll, List.mem_append] at h
    rcases h with h | h
    · exact ⟨n, by simp, h⟩
    · obtain ⟨m, hm, hx⟩ := ih h
      exact ⟨m, List.mem_cons_of_mem n hm, hx⟩

/-- A name assigned to in the scope of a tree is the target of the node itself or
    assigned to in the scope of a child. -/
theorem mem_assigned {n : Node} {x : String} (h : x ∈ n.assigned) :
    x ∈ n.ownAssigned ∨ ∃ m ∈ n.children, x ∈ m.assigned := by
  obtain ⟨id, line, form⟩ := n
  cases form with
  | block statements => exact .inr (mem_of_mem_assignedAll h)
  | args values => exact .inr (mem_of_mem_assignedAll h)
  | call name arguments =>
    cases arguments with
    | none => cases h
    | some m => exact .inr ⟨m, by simp [children, Form.children], h⟩
  | assign name value =>
    rcases List.mem_append.mp h with h | h
    · exact .inl h
    · exact .inr ⟨value, by simp [children, Form.children], h⟩
  | _ => simp_all [assigned, children, Form.children]

theorem assigned_subset (n : Node) : n.assigned ⊆ n.assignedAnywhere := by
  induction n using Node.induction with
  | h n ih =>
    intro x hx
    rcases mem_assigned hx with hx | ⟨m, hm, hx⟩
    · exact ownAssigned_subset n hx
    · exact assignedAnywhere_subset hm (ih m hm hx)

end Node

namespace Optimize

open Node

/-! ## Assignments after a sweep -/

section Sweeps

variable {everywhere outer : Names} {head : Option (List Node)} {observed : Bool} {n : Node}

theorem selfUpdating_sweep (h : n.SelfUpdating) :
    (sweep everywhere outer head observed n).SelfUpdating := by
  refine all_sweep (fun outer head observed n h => ?_) outer head observed h
  rw [← h]
  fun_cases sweep everywhere outer head observed n <;> rfl

/-- A sweep adds no assignment. -/
theorem assignedAnywhere_sweep_subset :
    (sweep everywhere outer head observed n).assignedAnywhere ⊆ n.assignedAnywhere := by
  have hown : n.All fun m => m.ownAssigned ⊆ n.assignedAnywhere := fun m hm x hx =>
    List.mem_flatMap.mpr ⟨m, hm, hx⟩
  have hswept : (sweep everywhere outer head observed n).All
      fun m => m.ownAssigned ⊆ n.assignedAnywhere := by
    refine all_sweep (fun outer head observed m hm => ?_) outer head observed hown
    have hsame : (sweep everywhere outer head observed m).ownAssigned = m.ownAssigned := by
      fun_cases sweep everywhere outer head observed m <;> rfl
    rwa [hsame]
  intro x hx
  obtain ⟨m, hm, hx⟩ := List.mem_flatMap.mp hx
  exact hswept m hm hx

end Sweeps

/-! ## Comments at the end of an observed block -/

/-- Whether every sweep keeps a statement as it is: it binds no name and has no body. -/
def isKept (n : Node) : Bool :=
  match n.form with
  | .program _ | .block _ | .scope _ | .branch _ _ | .whileLoop _ _ | .forLoop _ _ _ _ => false
  | .assign _ _ | .declare _ _ | .define _ _ | .function _ _ _ => false
  | _ => true

mutual

/-- Whether comments at the end of a block whose value is observed stand only after a
    statement that is kept. -/
def plainEnds (observed : Bool) : Node → Bool
  | ⟨_, _, .program body⟩ => plainEnds true body
  | ⟨_, _, .block statements⟩ => plainEndsAll observed statements
  | ⟨_, _, .scope body⟩ => plainEnds observed body
  | ⟨_, _, .branch _ body⟩ => plainEnds observed body
  | ⟨_, _, .whileLoop _ body⟩ => plainEnds observed body
  | ⟨_, _, .forLoop _ _ _ body⟩ => plainEnds observed body
  | ⟨_, _, .function _ _ body⟩ => plainEnds true body
  | _ => true
termination_by structural n => n

/-- Whether that is so of a block with the given statements, and of the blocks in it. -/
def plainEndsAll (observed : Bool) : List Node → Bool
  | [] => true
  | n :: ns =>
    let last := observed && ns.all Node.isComment
    (!last || ns.isEmpty || isKept n) && plainEnds last n && plainEndsAll observed ns
termination_by structural ns => ns

end

section Kept

variable {n : Node}

theorem isKept_of_isComment (h : n.isComment = true) : isKept n = true := by
  obtain ⟨id, line, form⟩ := n
  cases form <;> first | rfl | cases h

theorem isValueless_of_isComment (h : n.isComment = true) : n.isValueless = false := by
  obtain ⟨id, line, form⟩ := n
  cases form <;> first | rfl | cases h

theorem sweep_of_isKept (h : isKept n = true) (everywhere outer : Names)
    (head : Option (List Node)) (observed : Bool) :
    sweep everywhere outer head observed n = n := by
  obtain ⟨id, line, form⟩ := n
  cases form <;> first | rfl | cases h

theorem isDead_of_isKept (h : isKept n = true) (live : Liveness) : live.isDead n = false := by
  obtain ⟨id, line, form⟩ := n
  cases form <;> first | rfl | cases h

theorem plainEnds_of_isKept (h : isKept n = true) (observed : Bool) :
    plainEnds observed n = true := by
  obtain ⟨id, line, form⟩ := n
  cases form <;> first | rfl | cases h

/-- In a statement that never yields a value it does not matter whether its value
    is observed. -/
theorem plainEnds_of_isValueless (h : n.isValueless = true) (observed observed' : Bool) :
    plainEnds observed n = plainEnds observed' n := by
  obtain ⟨id, line, form⟩ := n
  cases form <;> first | rfl | cases h

end Kept

section Sweeps

variable {everywhere : Names} {live : Liveness} {observed : Bool}

theorem sweepAll_of_all_isComment {comments : List Node} (h : comments.all Node.isComment = true)
    (yields : Bool) : sweepAll everywhere live observed yields comments = comments := by
  induction comments generalizing yields with
  | nil => rfl
  | cons n ns ih =>
    rw [List.all_cons, Bool.and_eq_true] at h
    have hkept := isKept_of_isComment h.1
    simp only [sweepAll, isDead_of_isKept hkept, sweep_of_isKept hkept, Bool.false_and, ih h.2]
    rfl

/-- Comments at the end of a block make no difference to the sweep. -/
theorem sweepAll_append {comments : List Node} (hcomments : comments.all Node.isComment = true)
    {ns : List Node} (h : plainEndsAll observed (ns ++ comments) = true) (yields : Bool) :
    sweepAll everywhere live observed yields (ns ++ comments) =
      sweepAll everywhere live observed yields ns ++ comments := by
  induction ns generalizing yields with
  | nil => exact sweepAll_of_all_isComment hcomments yields
  | cons n ns ih =>
    rw [List.cons_append, plainEndsAll, Bool.and_eq_true, Bool.and_eq_true] at h
    obtain ⟨⟨hlast, -⟩, hrest⟩ := h
    have hsame : isKept n = true ∨
        (observed && (ns ++ comments).isEmpty) = (observed && ns.isEmpty) := by
      cases ns with
      | cons m ms => exact .inr rfl
      | nil =>
        cases observed with
        | false => exact .inr rfl
        | true =>
          simp only [List.nil_append, hcomments, Bool.true_and, Bool.not_true, Bool.false_or,
            Bool.or_eq_true] at hlast
          exact hlast.symm.imp_right fun hempty => by simpa using hempty
    rcases hsame with hkept | hflag
    · simp only [List.cons_append, sweepAll, isDead_of_isKept hkept, sweep_of_isKept hkept,
        Bool.false_and, ih hrest]
      rfl
    · simp only [List.cons_append, sweepAll, hflag, ih hrest]
      split
      · rfl
      · rw [List.cons_append]

/-- After a statement that may yield a value the last one stays. -/
theorem isEmpty_sweepAll (ns : List Node) :
    (sweepAll everywhere live true true ns).isEmpty = ns.isEmpty := by
  induction ns with
  | nil => rfl
  | cons n ns ih =>
    rw [sweepAll]
    split
    · next hdrop =>
      rw [ih]
      simpa using (Bool.and_eq_true_iff.mp hdrop).2
    · rfl

/-- A sweep over an observed block does not leave comments only. -/
theorem all_isComment_of_sweepAll {ns : List Node} (h : plainEndsAll true ns = true)
    (yields : Bool) (hall : (sweepAll everywhere live true yields ns).all Node.isComment = true) :
    ns.all Node.isComment = true ∨ sweepAll everywhere live true yields ns = [] := by
  induction ns generalizing yields with
  | nil => exact .inl rfl
  | cons n ns ih =>
    rw [plainEndsAll, Bool.and_eq_true, Bool.and_eq_true] at h
    obtain ⟨⟨hlast, -⟩, hrest⟩ := h
    rw [sweepAll] at hall ⊢
    split
    · next hdrop =>
      rw [if_pos hdrop] at hall
      rcases ih hrest yields hall with hcomments | hnil
      · right
        have hempty : ns.isEmpty = true := by
          cases hkept : isKept n with
          | true => simp [isDead_of_isKept hkept] at hdrop
          | false => simpa [hcomments, hkept] using hlast
        rw [List.isEmpty_iff.mp hempty]
        rfl
      · exact .inr hnil
    · next hkeep =>
      rw [if_neg hkeep, List.all_cons, Bool.and_eq_true, isComment_sweep] at hall
      obtain ⟨hn, hall⟩ := hall
      left
      rw [List.all_cons, hn, Bool.true_and]
      rcases ih hrest _ hall with hcomments | hnil
      · exact hcomments
      · -- a comment may yield a value as far as the sweep can see
        rw [isValueless_of_isComment hn, Bool.not_false, ← List.isEmpty_iff, isEmpty_sweepAll,
          List.isEmpty_iff] at hnil
        rw [hnil]
        rfl

theorem all_isComment_sweepAll {ns : List Node} (h : plainEndsAll true ns = true)
    (hns : ns.all Node.isComment = ns.isEmpty) {yields : Bool} :
    (sweepAll everywhere live true yields ns).all Node.isComment =
      (sweepAll everywhere live true yields ns).isEmpty := by
  rw [Bool.eq_iff_iff]
  constructor
  · intro hall
    rcases all_isComment_of_sweepAll h yields hall with hcomments | hnil
    · rw [hns, List.isEmpty_iff] at hcomments
      rw [hcomments]
      rfl
    · rw [hnil]
      rfl
  · intro hempty
    rw [List.isEmpty_iff.mp hempty]
    rfl

theorem plainEndsAll_sweepAll {ns : List Node}
    (hsweep : ∀ n ∈ ns, ∀ outer observed, plainEnds observed n = true →
      plainEnds observed (sweep everywhere outer none observed n) = true)
    (h : plainEndsAll observed ns = true) (yields : Bool) :
    plainEndsAll observed (sweepAll everywhere live observed yields ns) = true := by
  induction ns generalizing yields with
  | nil => rfl
  | cons n ns ih =>
    rw [plainEndsAll, Bool.and_eq_true, Bool.and_eq_true] at h
    obtain ⟨⟨hlast, hn⟩, hrest⟩ := h
    have ih := ih (fun m hm => hsweep m (List.mem_cons_of_mem n hm)) hrest
    rw [sweepAll]
    split
    · exact ih yields
    rw [plainEndsAll, Bool.and_eq_true, Bool.and_eq_true]
    refine ⟨?_, ih _⟩
    cases hkept : isKept n with
    | true =>
      rw [sweep_of_isKept hkept, hkept, Bool.or_true]
      exact ⟨rfl, plainEnds_of_isKept hkept _⟩
    | false =>
      cases observed with
      | false => exact ⟨rfl, hsweep n (by simp) _ _ hn⟩
      | true =>
        have hns : ns.all Node.isComment = ns.isEmpty := by
          cases ns with
          | nil => rfl
          | cons m ms =>
            simp only [hkept, Bool.true_and, List.isEmpty_cons, Bool.or_false,
              Bool.not_eq_true'] at hlast
            exact hlast
        rw [hns] at hn
        have hn' := hsweep n (by simp) live.visible _ hn
        rw [all_isComment_sweepAll hrest hns]
        refine ⟨by simp, ?_⟩
        -- the statement becomes the last one only where it never yields a value
        cases hvalue : n.isValueless with
        | true => rwa [plainEnds_of_isValueless ((Setting.isValueless_sweep ..).trans hvalue)]
        | false => rwa [Bool.not_false, isEmpty_sweepAll]

/-- **A sweep keeps the ends of observed blocks plain.** -/
theorem plainEnds_sweep (outer : Names) (head : Option (List Node)) {n : Node}
    (h : plainEnds observed n = true) :
    plainEnds observed (sweep everywhere outer head observed n) = true := by
  induction n using Node.induction generalizing outer head observed with
  | h n ih =>
    revert h
    fun_cases sweep everywhere outer head observed n with
    | case1 _ _ _ body => exact ih body (by simp [children, Form.children]) _ _
    | case2 => exact id
    | case3 id line statements head live =>
      exact fun h => plainEndsAll_sweepAll (fun m hm outer _ => ih m hm outer none) h false
    | case4 _ _ _ body => exact ih body (by simp [children, Form.children]) _ _
    | case5 _ _ _ _ body => exact ih body (by simp [children, Form.children]) _ _
    | case6 _ _ _ _ body => exact ih body (by simp [children, Form.children]) _ _
    | case7 _ _ _ _ _ _ body => exact ih body (by simp [children, Form.children]) _ _
    | case8 _ _ _ _ _ body => exact ih body (by simp [children, Form.children]) _ _
    | case9 => exact id

end Sweeps

/-! ## The blocks of a self-updating program -/

/-- A block of a self-updating program with a plain end. -/
structure Site.Regular (s : Site) : Prop where
  head : ∀ n ∈ s.head, n.SelfUpdating
  beside : s.beside ⊆ s.head
  statements : ∀ n ∈ s.statements, n.SelfUpdating
  ends : plainEndsAll s.observed s.statements = true

/-- What runs alongside a block of a self-updating program. -/
def RegularAround (around : Option (List Node × List Node)) : Prop :=
  ∀ pair ∈ around, (∀ n ∈ pair.1, n.SelfUpdating) ∧ pair.2 ⊆ pair.1

theorem regular_of_mem_sitesAll {everywhere : Names} {live : Liveness} {observed : Bool}
    {s : Site} {ns : List Node}
    (hsites : ∀ n ∈ ns, ∀ outer observed, plainEnds observed n = true →
      s ∈ sites everywhere outer none observed n → s.Regular)
    (h : plainEndsAll observed ns = true) (yields : Bool)
    (hs : s ∈ sitesAll everywhere live observed yields ns) : s.Regular := by
  induction ns generalizing yields with
  | nil => cases hs
  | cons n ns ih =>
    rw [plainEndsAll, Bool.and_eq_true, Bool.and_eq_true] at h
    obtain ⟨⟨-, hn⟩, hrest⟩ := h
    have ih := ih (fun m hm => hsites m (List.mem_cons_of_mem n hm)) hrest
    rw [sitesAll] at hs
    split at hs
    · exact ih _ hs
    · rcases List.mem_append.mp hs with hs | hs
      · exact hsites n (by simp) _ _ hn hs
      · exact ih _ hs

theorem regular_of_mem_sites {everywhere outer : Names} {around : Option (List Node × List Node)}
    {observed : Bool} {s : Site} {n : Node} (hself : n.SelfUpdating)
    (haround : RegularAround around) (hends : plainEnds observed n = true)
    (hs : s ∈ sites everywhere outer around observed n) : s.Regular := by
  induction n using Node.induction generalizing outer around observed with
  | h n ih =>
    -- a body, with the children of the node that run alongside it
    have hbody : ∀ body ∈ n.children, ∀ head ⊆ n.children, ∀ beside ⊆ head, ∀ observed,
        plainEnds observed body = true →
        s ∈ sites everywhere outer (some (head, beside)) observed body → s.Regular := by
      intro body hbody head hhead beside hbeside observed
      refine ih body hbody (hself.child hbody) fun pair hpair => ?_
      obtain rfl : (head, beside) = pair := by simpa using hpair
      exact ⟨fun m hm => hself.child (hhead hm), hbeside⟩
    revert hends hs
    fun_cases sites everywhere outer around observed n with
    | case1 _ _ _ body =>
      exact hbody body (by simp [children, Form.children]) [] (by simp) [] (by simp) _
    | case2 => exact fun _ hs => by cases hs
    | case3 id line statements head beside t =>
      intro hends hs
      rcases List.mem_cons.mp hs with rfl | hs
      · obtain ⟨hhead, hbeside⟩ := haround (head, beside) rfl
        exact ⟨hhead, hbeside, fun m hm => hself.child hm, hends⟩
      · refine regular_of_mem_sitesAll (fun m hm outer observed => ?_) hends false hs
        exact ih m hm (hself.child hm) (by simp [RegularAround])
    | case4 _ _ _ body =>
      exact hbody body (by simp [children, Form.children]) [] (by simp) [] (by simp) _
    | case5 _ _ _ guard body =>
      exact hbody body (by simp [children, Form.children]) [guard]
        (by simp [children, Form.children]) [] (by simp) _
    | case6 _ _ _ guard body =>
      exact hbody body (by simp [children, Form.children]) [guard]
        (by simp [children, Form.children]) [guard] (by simp) _
    | case7 _ _ _ start guard step body =>
      exact hbody body (by simp [children, Form.children]) [start, guard, step]
        (by simp [children, Form.children]) [start, guard, step] (by simp) _
    | case8 _ _ _ _ _ body =>
      exact hbody body (by simp [children, Form.children]) [] (by simp) [] (by simp) _
    | case9 => exact fun _ hs => by cases hs

namespace Site.Regular

variable {s : Site}

/-- What an assignment in the block or beside it assigns to is used near. -/
theorem mem_near {n : Node} {x : String} (h : s.Regular) (hn : n ∈ s.head ∨ n ∈ s.statements)
    (hx : x ∈ n.assignedAnywhere) : x ∈ s.live.near := by
  have hself : n.SelfUpdating := hn.elim (h.head n) (h.statements n)
  exact mem_near_of_used hn (reads_subset_used n (hself.assignedAnywhere_subset hx))

/-- **No assignment is dropped.** -/
theorem isAssign_of_mem_dropped {d : Dropped} (h : s.Regular) (hd : d ∈ s.dropped) :
    d.statement.isAssign = false := by
  obtain ⟨x, hx, hnear⟩ := not_mem_near_of_isDead (isDead_of_mem_dropped hd)
  have hown : x ∉ d.statement.ownAssigned := fun hx =>
    hnear (h.mem_near (.inr (mem_of_mem_dropped hd)) (ownAssigned_subset _ hx))
  obtain ⟨⟨id, line, form⟩, declared⟩ := d
  cases form with
  | assign name value =>
    have hname : name.name? = some x := hx
    simp [ownAssigned, hname] at hown
  | _ => rfl

theorem stale_eq_nil (h : s.Regular) : s.stale = [] := by
  refine List.eq_nil_iff_forall_not_mem.mpr fun x hx => ?_
  obtain ⟨d, hd, hassign, -⟩ := mem_stale.mp hx
  rw [h.isAssign_of_mem_dropped hd] at hassign
  cases hassign

/-- A variable whose declaration is dropped is not assigned to. -/
theorem not_mem_assignedAll_of_lost {x : String} (h : s.Regular) (hx : x ∈ s.lost) :
    x ∉ assignedAll (s.beside ++ s.left) := by
  intro hassigned
  obtain ⟨m, hm, hxm⟩ := mem_of_mem_assignedAll hassigned
  refine not_mem_near_of_lost hx ?_
  rcases List.mem_append.mp hm with hm | hm
  · exact h.mem_near (.inl (h.beside hm)) (assigned_subset m hxm)
  · obtain ⟨n, hn, last, rfl⟩ := mem_sweepAll _ hm
    exact h.mem_near (.inr hn) (assignedAnywhere_sweep_subset (assigned_subset _ hxm))

/-- **A sweep is tidy in the block.** -/
theorem tidy (h : s.Regular) : s.Tidy where
  assigned x hx := h.not_mem_assignedAll_of_lost hx
  declared d hd hassign := by
    rw [h.isAssign_of_mem_dropped hd] at hassign
    cases hassign
  ends := by
    have hends := h.ends
    have hcomments : s.comments.all Node.isComment = true :=
      List.all_eq_true.mpr fun _ => isComment_of_mem_comments
    rw [← s.front_append_comments] at hends
    have hleft : s.left = s.swept (s.front ++ s.comments) := by rw [s.front_append_comments, left]
    rw [hleft, swept, swept, sweepAll_append hcomments hends]

end Site.Regular

/-! ## Programs -/

section Program

variable {p : Node}

theorem regular_of_mem_sitesOf {s : Site} (hself : p.SelfUpdating)
    (hends : plainEnds true p = true) (hs : s ∈ sitesOf p) : s.Regular :=
  regular_of_mem_sites hself (by simp [RegularAround]) hends hs

/-- **Every sweep over a self-updating program is tidy**, if its observed blocks have
    plain ends. -/
theorem tidy_of_selfUpdating (hp : p.IsProgram) (hself : p.SelfUpdating)
    (hends : plainEnds true p = true) : Tidy p where
  sites s hs := (regular_of_mem_sitesOf hself hends hs).tidy
  globals s hs x hx hassigned := by
    have hregular : s.Regular := regular_of_mem_sitesOf hself hends (List.mem_of_mem_head? hs)
    obtain ⟨body, hform, hbody⟩ := hp
    obtain ⟨bodyId, bodyLine, statements, rfl⟩ := Setting.exists_block hbody.kind
    obtain ⟨id, line, form⟩ := p
    obtain rfl : form = .program ⟨bodyId, bodyLine, .block statements⟩ := hform
    obtain rfl := Option.some.inj hs
    -- what the program assigns it reads, and what it reads is used in its outermost block
    have hused := reads_subset_used _
      (hself.assignedAnywhere_subset (assignedAnywhere_sweep_subset hassigned))
    have hstatement : ∃ n ∈ statements, x ∈ n.used := by
      rw [used_eq] at hused
      simp only [children, Form.children, List.flatMap_singleton] at hused
      rw [used_eq ⟨bodyId, bodyLine, .block statements⟩] at hused
      simpa [ownReads, ownCalls, ownTargets, children, Form.children] using hused
    obtain ⟨n, hn, hx'⟩ := hstatement
    exact Site.not_mem_near_of_lost hx (Site.mem_near_of_used (.inr hn) hx')

/-- No sweep over such a program drops an assignment. -/
theorem stale_of_selfUpdating (hself : p.SelfUpdating) (hends : plainEnds true p = true) :
    (sitesOf p).flatMap Site.stale = [] :=
  List.flatMap_eq_nil_iff.mpr fun _ hs => (regular_of_mem_sitesOf hself hends hs).stale_eq_nil

/-- One sweep over such a program does not change a clean run, down to the variables
    that are left. -/
theorem evaluates_sweepProgram_of_selfUpdating (hp : p.IsProgram) (hself : p.SelfUpdating)
    (hends : plainEnds true p = true) {maxCallDepth : Nat} {echo writable : Bool}
    {value : Option Value} {c : Context}
    (hrun : Evaluates p (.initial maxCallDepth echo writable) value c)
    (hclean : c.diagnostics = #[]) :
    ∃ c', Evaluates (sweepProgram p) (.initial maxCallDepth echo writable) value c' ∧
      c'.output = c.output ∧ c'.diagnostics = #[] ∧
      ∀ x v, c'.scopes.globals.find? x = some v → c.scopes.globals.find? x = some v := by
  obtain ⟨c', hrun', houtput, hclean', hglobals⟩ :=
    evaluates_sweepProgram_globals hp (tidy_of_selfUpdating hp hself hends) hrun hclean
  refine ⟨c', hrun', houtput, hclean', fun x v hv => ?_⟩
  obtain ⟨⟨ty, value⟩, hu, rfl, hvalue⟩ := hglobals x v hv
  obtain rfl : value = v.value := hvalue (by simp [stale_of_selfUpdating hself hends])
  exact hu

end Program

end Optimize

open Optimize

/-- **Dropping dead code does not change a clean run of a self-updating program**, if
    in blocks whose value is observed a comment at the end follows only an expression
    or a print: the program ends with the same value and the same output and reports
    nothing, and every name that is still bound in the global scope has the type and
    the value that it had. -/
theorem evaluates_eliminate_of_selfUpdating (tokens : List Lexed) (firstId : Nat) {p : Node}
    (hp : p = (parse tokens firstId).tree) (hself : p.SelfUpdating)
    (hends : plainEnds true p = true) {maxCallDepth : Nat} {echo writable : Bool}
    {value : Option Value} {c : Context}
    (hrun : Evaluates p (.initial maxCallDepth echo writable) value c)
    (hclean : c.diagnostics = #[]) :
    ∃ c', Evaluates (eliminate p) (.initial maxCallDepth echo writable) value c' ∧
      c'.output = c.output ∧ c'.diagnostics = #[] ∧
      ∀ x v, c'.scopes.globals.find? x = some v → c.scopes.globals.find? x = some v := by
  have hprogram : p.IsProgram := hp ▸ isProgram_parse tokens firstId
  clear hp
  fun_induction eliminate p generalizing c with
  | case1 p swept hless ih =>
    obtain ⟨c₁, hrun₁, houtput₁, hclean₁, hglobals₁⟩ :=
      evaluates_sweepProgram_of_selfUpdating hprogram hself hends hrun hclean
    obtain ⟨c', hrun', houtput, hclean', hglobals⟩ := ih (selfUpdating_sweep hself)
      (plainEnds_sweep _ _ hends) hrun₁ hclean₁ (isProgram_sweepProgram hprogram)
    exact ⟨c', hrun', houtput.trans houtput₁, hclean', fun x v hv =>
      hglobals₁ x v (hglobals x v hv)⟩
  | case2 p swept hless =>
    exact evaluates_sweepProgram_of_selfUpdating hprogram hself hends hrun hclean

/-- A loop over two variables that it updates. A function is never called, and without
    it a variable is never read, so that it takes two sweeps. There are comments at
    the ends of the loop and of the program. -/
theorem evaluates_eliminate_of_countdown :
    let source := "n := 3; t := n; total := 0; function f() = { t := 1; t = t + 1 }; " ++
      "while (n > 0) \x7b total = total + n; n = n - 1 # down\n \x7d; total # sum"
    let p := (parse (tokenize source).1 0).tree
    p.SelfUpdating ∧ plainEnds true p = true ∧
      (sweepProgram (sweepProgram p)).size < (sweepProgram p).size ∧
      ∃ c c', Evaluates p (.initial 8 false true) (some (.int 6)) c ∧ c.diagnostics = #[] ∧
        Evaluates (eliminate p) (.initial 8 false true) (some (.int 6)) c' ∧
        c'.output = c.output ∧ c'.diagnostics = #[] ∧
        ∀ x v, c'.scopes.globals.find? x = some v → c.scopes.globals.find? x = some v := by
  intro source p
  have hcheck : p.SelfUpdating ∧ plainEnds true p = true ∧
      (sweepProgram (sweepProgram p)).size < (sweepProgram p).size ∧
      ((eval 12 p).run (.initial 8 false true)).map (fun r => (r.1, r.2.diagnostics)) =
        some (some (.int 6), #[]) := by decide +kernel
  obtain ⟨hself, hplain, hless, hends⟩ := hcheck
  obtain ⟨⟨value, c⟩, hrun, hr⟩ := Option.map_eq_some_iff.mp hends
  simp only [Prod.mk.injEq] at hr
  obtain ⟨rfl, hclean⟩ := hr
  obtain ⟨c', hrun', houtput, hclean', hglobals⟩ :=
    evaluates_eliminate_of_selfUpdating (tokenize source).1 0 rfl hself hplain ⟨12, hrun⟩ hclean
  exact ⟨hself, hplain, hless, c, c', ⟨12, hrun⟩, hclean, hrun', houtput, hclean', hglobals⟩

/-- **A comment at the end can make a difference**: it hides the last statement, which
    is dropped and lets the value before it through, although the only assignment
    reads its target. -/
theorem not_evaluates_eliminate_of_comment :
    let source := "function f() = { x := 2; 5; x = x * 0 }; f(); 7; t := 1 # c"
    let p := (parse (tokenize source).1 0).tree
    p.SelfUpdating ∧ ∃ c, Evaluates p (.initial 8 false true) none c ∧ c.diagnostics = #[] ∧
      ¬ ∃ c', Evaluates (eliminate p) (.initial 8 false true) none c' ∧
        c'.output = c.output ∧ c'.diagnostics = #[] ∧
        ∀ x v, c'.scopes.globals.find? x = some v → c.scopes.globals.find? x = some v := by
  intro source p
  have hends : ((eval 8 p).run (.initial 8 false true)).map
      (fun r => (r.1, r.2.diagnostics)) = some (none, #[]) := by decide +kernel
  have hswept : ((eval 8 (sweepProgram p)).run (.initial 8 false true)).map
      (fun r => r.1) = some (some (.int 7)) := by decide +kernel
  have hfixed : eliminate p = sweepProgram p := by
    rw [← eliminate_sweepProgram]
    exact eliminate_of_fixed (sweepProgram_eq_self (by decide +kernel))
  obtain ⟨⟨value, c⟩, hrun, hr⟩ := Option.map_eq_some_iff.mp hends
  obtain ⟨⟨value', c'⟩, hrun', hvalue⟩ := Option.map_eq_some_iff.mp hswept
  simp only [Prod.mk.injEq] at hr
  obtain ⟨rfl, hclean⟩ := hr
  refine ⟨by decide +kernel, c, ⟨8, hrun⟩, hclean, ?_⟩
  rintro ⟨d, hd, -⟩
  rw [hfixed] at hd
  obtain ⟨rfl, -⟩ := hd.unique ⟨8, hrun'⟩
  cases hvalue

end Scriptlet
