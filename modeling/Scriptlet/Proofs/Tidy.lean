import Mathlib.Data.List.DropRight
import Scriptlet.Optimize.DeadCode
import Scriptlet.Proofs.Trees

/-!
# What a sweep leaves behind

A sweep drops statements from blocks by name, block by block. Whether that is
safe depends on what it leaves: an assignment needs the declaration of its
target, an assignment that is dropped must not have reached a variable that is
still read, and the last statement of a block decides its value. A sweep that
respects this is tidy.

`Node.sites` lists the blocks a sweep visits, each with what the sweep knows of
it; `Site.Tidy` states what the sweep has to respect there, and `Tidy` what it
has to respect in the program as a whole.
-/

namespace Scriptlet

namespace Node

/-! ## Names in a tree -/

/-- The names read anywhere in a tree. -/
def reads (n : Node) : Names := n.preorder.flatMap ownReads

/-- The name a node itself assigns to. -/
def ownAssigned (n : Node) : Names :=
  match n.form with
  | .assign name _ => name.name?.toList
  | _ => []

/-- The names assigned to anywhere in a tree. -/
def assignedAnywhere (n : Node) : Names := n.preorder.flatMap ownAssigned

/-- Whether a statement declares a variable. -/
def isDeclaration (n : Node) : Bool :=
  match n.form with
  | .declare _ _ | .define _ _ => true
  | _ => false

mutual

/-- The names assigned to in the scope a tree runs in, and not in a scope that it
    opens. -/
def assigned : Node → Names
  | ⟨_, _, .program body⟩ => assigned body
  | ⟨_, _, .block statements⟩ => assignedAll statements
  | ⟨_, _, .branch guard _⟩ => assigned guard
  | ⟨_, _, .relation _ left right⟩ => assigned left ++ assigned right
  | ⟨_, _, .arith _ left right⟩ => assigned left ++ assigned right
  | ⟨_, _, .print value⟩ => assigned value
  | ⟨_, _, .assign name value⟩ => name.name?.toList ++ assigned value
  | ⟨_, _, .define _ value⟩ => assigned value
  | ⟨_, _, .cast value _⟩ => assigned value
  | ⟨_, _, .args values⟩ => assignedAll values
  | ⟨_, _, .call _ args⟩ => assignedOption args
  | ⟨_, _, .math _ argument⟩ => assigned argument
  | _ => []
termination_by structural n => n

/-- The names assigned to in the scope that some trees run in. -/
def assignedAll : List Node → Names
  | [] => []
  | n :: ns => assigned n ++ assignedAll ns
termination_by structural ns => ns

/-- The names assigned to in the scope that a tree runs in, if there is one. -/
def assignedOption : Option Node → Names
  | none => []
  | some n => assigned n
termination_by structural n => n

end

theorem mem_assignedAll {x : String} {n : Node} {ns : List Node} (hn : n ∈ ns)
    (hx : x ∈ n.assigned) : x ∈ assignedAll ns := by
  induction ns with
  | nil => cases hn
  | cons m ns ih =>
    rw [assignedAll, List.mem_append]
    rcases List.mem_cons.mp hn with rfl | hn
    · exact .inl hx
    · exact .inr (ih hn)

theorem preorder_subset {m n : Node} (h : m ∈ n.children) : m.preorder ⊆ n.preorder := by
  intro k hk
  rw [preorder_eq n]
  exact List.mem_cons_of_mem _ (List.mem_flatMap.mpr ⟨m, h, hk⟩)

theorem reads_subset {m n : Node} (h : m ∈ n.children) : m.reads ⊆ n.reads := by
  intro x hx
  obtain ⟨k, hk, hx⟩ := List.mem_flatMap.mp hx
  exact List.mem_flatMap.mpr ⟨k, preorder_subset h hk, hx⟩

theorem assignedAnywhere_subset {m n : Node} (h : m ∈ n.children) :
    m.assignedAnywhere ⊆ n.assignedAnywhere := by
  intro x hx
  obtain ⟨k, hk, hx⟩ := List.mem_flatMap.mp hx
  exact List.mem_flatMap.mpr ⟨k, preorder_subset h hk, hx⟩

theorem mem_preorder_self (n : Node) : n ∈ n.preorder := by
  rw [preorder_eq]
  exact List.mem_cons_self

theorem ownAssigned_subset (n : Node) : n.ownAssigned ⊆ n.assignedAnywhere := by
  intro x hx
  exact List.mem_flatMap.mpr ⟨n, n.mem_preorder_self, hx⟩

theorem reads_subset_used (n : Node) : n.reads ⊆ n.used := by
  intro x hx
  obtain ⟨k, hk, hx⟩ := List.mem_flatMap.mp hx
  exact List.mem_flatMap.mpr ⟨k, hk, by simp [hx]⟩

/-! ## Names that functions use -/

theorem withFunction_eq (inside : Bool) (n : Node) :
    n.withFunction inside =
      (inside, n) :: n.children.flatMap (withFunction (inside || n.isFunction)) :=
  walk_eq _ _ _

/-- The nodes inside a function are marked so. -/
theorem mem_withFunction_true {n m : Node} (h : m ∈ n.preorder) :
    (true, m) ∈ n.withFunction true := by
  induction n using Node.induction with
  | h n ih =>
    rw [preorder_eq] at h
    rw [withFunction_eq]
    rcases List.mem_cons.mp h with rfl | h
    · exact List.mem_cons_self
    · obtain ⟨k, hk, hm⟩ := List.mem_flatMap.mp h
      exact List.mem_cons_of_mem _ (List.mem_flatMap.mpr ⟨k, hk, ih k hk hm⟩)

theorem mem_preorder_of_mem_withFunction {n m : Node} {inside mark : Bool}
    (h : (mark, m) ∈ n.withFunction inside) : m ∈ n.preorder := by
  induction n using Node.induction generalizing inside with
  | h n ih =>
    rw [withFunction_eq] at h
    rw [preorder_eq]
    rcases List.mem_cons.mp h with h | h
    · cases h
      exact List.mem_cons_self
    · obtain ⟨k, hk, hm⟩ := List.mem_flatMap.mp h
      exact List.mem_cons_of_mem _ (List.mem_flatMap.mpr ⟨k, hk, ih k hk hm⟩)

theorem mem_usedEverywhere {n : Node} {x : String} :
    x ∈ n.usedEverywhere ↔ ∃ mark m, (mark, m) ∈ n.withFunction false ∧
      (x ∈ m.ownCalls ∨ mark = true ∧ x ∈ m.ownReads) := by
  unfold usedEverywhere
  simp only [List.mem_flatMap, Prod.exists, List.mem_append]
  constructor
  · rintro ⟨mark, m, hm, hx⟩
    refine ⟨mark, m, hm, hx.imp (fun h => h) ?_⟩
    cases mark <;> simp
  · rintro ⟨mark, m, hm, hx⟩
    refine ⟨mark, m, hm, hx.imp (fun h => h) ?_⟩
    rintro ⟨rfl, hread⟩
    simpa using hread

theorem ownCalls_subset (n : Node) : n.ownCalls ⊆ n.usedEverywhere := by
  intro x hx
  refine mem_usedEverywhere.mpr ⟨false, n, ?_, .inl hx⟩
  rw [withFunction_eq]
  exact List.mem_cons_self

/-- What a part of a tree uses everywhere, the tree does. -/
theorem usedEverywhere_subset {m n : Node} (h : m ∈ n.children) :
    m.usedEverywhere ⊆ n.usedEverywhere := by
  intro x hx
  obtain ⟨mark, k, hk, hx⟩ := mem_usedEverywhere.mp hx
  cases hf : n.isFunction with
  | false =>
    refine mem_usedEverywhere.mpr ⟨mark, k, ?_, hx⟩
    rw [withFunction_eq, hf]
    exact List.mem_cons_of_mem _ (List.mem_flatMap.mpr ⟨m, h, hk⟩)
  | true =>
    refine mem_usedEverywhere.mpr ⟨true, k, ?_, hx.imp (fun h => h) fun hx => ⟨rfl, hx.2⟩⟩
    rw [withFunction_eq, hf]
    exact List.mem_cons_of_mem _ (List.mem_flatMap.mpr
      ⟨m, h, mem_withFunction_true (mem_preorder_of_mem_withFunction hk)⟩)

/-- What a function reads is used everywhere. -/
theorem reads_subset_usedEverywhere {m n : Node} (hn : n.isFunction = true)
    (h : m ∈ n.children) : m.reads ⊆ n.usedEverywhere := by
  intro x hx
  obtain ⟨k, hk, hx⟩ := List.mem_flatMap.mp hx
  refine mem_usedEverywhere.mpr ⟨true, k, ?_, .inr ⟨rfl, hx⟩⟩
  rw [withFunction_eq, hn]
  exact List.mem_cons_of_mem _ (List.mem_flatMap.mpr ⟨m, h, mem_withFunction_true hk⟩)

end Node

namespace Optimize

/-! ## The blocks a sweep visits -/

/-- A statement that a sweep drops from a block, with the names that the block
    declares before it. -/
structure Dropped where
  statement : Node
  declared : Names

/-- The statements that a sweep drops from a block. The last statement is the
    last one that is not a comment. -/
def dropped (live : Liveness) (observed yields : Bool) (declared : Names) :
    List Node → List Dropped
  | [] => []
  | n :: ns =>
    let declared' := if n.isDeclaration then n.target?.toList ++ declared else declared
    if live.isDead n && !(observed && ns.all Node.isComment && yields) then
      ⟨n, declared⟩ :: dropped live observed yields declared' ns
    else dropped live observed (!n.isValueless) declared' ns

/-- A block that a sweep visits. -/
structure Site where
  /-- the names used everywhere in the program -/
  everywhere : Names
  /-- the names visible in the blocks around -/
  outer : Names
  /-- the nodes that run alongside the block -/
  head : List Node
  /-- those of them that run in the scope of the block -/
  beside : List Node
  /-- whether the value of the block is observed -/
  observed : Bool
  statements : List Node

namespace Site

/-- The uses that matter to the statements. -/
def live (s : Site) : Liveness := .ofBlock s.everywhere s.outer s.head s.statements

/-- What a sweep leaves of some statements of the block. -/
def swept (s : Site) (ns : List Node) : List Node :=
  sweepAll s.everywhere s.live s.observed false ns

/-- What a sweep leaves of the block. -/
def left (s : Site) : List Node := s.swept s.statements

/-- What a sweep drops from the block. -/
def dropped (s : Site) : List Dropped :=
  Optimize.dropped s.live s.observed false [] s.statements

/-- The variables whose declarations are dropped. -/
def lost (s : Site) : Names :=
  (s.dropped.filter fun d => d.statement.isDeclaration).filterMap fun d => d.statement.target?

/-- The variables to which an assignment is dropped. -/
def stale (s : Site) : Names :=
  (s.dropped.filter fun d => d.statement.isAssign).filterMap fun d => d.statement.target?

/-- The comments at the end of the block. -/
def comments (s : Site) : List Node := s.statements.rtakeWhile Node.isComment

/-- The statements before the comments at the end. -/
def front (s : Site) : List Node := s.statements.rdropWhile Node.isComment

/-- What a sweep has to respect in a block. -/
structure Tidy (s : Site) : Prop where
  /-- where a declaration is dropped, no assignment to its variable is left -/
  assigned : ∀ x ∈ s.lost, x ∉ Node.assignedAll (s.beside ++ s.left)
  /-- an assignment to a name that is used around the block is dropped only if
      the block declares a variable of that name before -/
  declared : ∀ d ∈ s.dropped, d.statement.isAssign = true →
    ∀ x ∈ d.statement.target?, x ∈ s.live.visible → x ∈ d.declared
  /-- comments at the end make no difference -/
  ends : s.left = s.swept s.front ++ s.comments

end Site

mutual

/-- The blocks that a sweep over a tree visits, with the arguments of the sweep. -/
def sites (everywhere outer : Names) (around : Option (List Node × List Node))
    (observed : Bool) : Node → List Site
  | ⟨_, _, .program body⟩ => sites everywhere outer (some ([], [])) true body
  | ⟨_, _, .block statements⟩ =>
    match around with
    | none => []
    | some (head, beside) =>
      let s : Site := ⟨everywhere, outer, head, beside, observed, statements⟩
      s :: sitesAll everywhere s.live observed false statements
  | ⟨_, _, .scope body⟩ => sites everywhere outer (some ([], [])) observed body
  | ⟨_, _, .branch guard body⟩ => sites everywhere outer (some ([guard], [])) observed body
  | ⟨_, _, .whileLoop guard body⟩ =>
    sites everywhere outer (some ([guard], [guard])) observed body
  | ⟨_, _, .forLoop start guard step body⟩ =>
    sites everywhere outer (some ([start, guard, step], [start, guard, step])) observed body
  | ⟨_, _, .function _ _ body⟩ => sites everywhere outer (some ([], [])) true body
  | _ => []
termination_by structural n => n

/-- The blocks that a sweep over the statements of a block visits. -/
def sitesAll (everywhere : Names) (live : Liveness) (observed yields : Bool) :
    List Node → List Site
  | [] => []
  | n :: ns =>
    let last := observed && ns.all Node.isComment
    if live.isDead n && !(last && yields) then sitesAll everywhere live observed yields ns
    else
      sites everywhere live.visible none last n ++
        sitesAll everywhere live observed (!n.isValueless) ns
termination_by structural ns => ns

end

/-- The blocks that a sweep over a program visits, the outermost one first. -/
def sitesOf (p : Node) : List Site := sites p.usedEverywhere [] none true p

/-- A sweep that respects what it has to: in every block, and for the variables
    of the outermost block, which are global, in the whole program. -/
structure Tidy (p : Node) : Prop where
  sites : ∀ s ∈ sitesOf p, s.Tidy
  globals : ∀ s ∈ (sitesOf p).head?, ∀ x ∈ s.lost, x ∉ (sweepProgram p).assignedAnywhere

/-- All sweeps before the one that changes nothing are tidy. -/
inductive TidySweeps : Node → Prop
  | done {p : Node} (hsame : sweepProgram p = p) : TidySweeps p
  | step {p : Node} (h : Tidy p) (hnext : TidySweeps (sweepProgram p)) : TidySweeps p

/-! ## Uses in a block -/

/-- A dead statement binds a name that is not used near it. -/
theorem not_mem_near_of_isDead {s : Site} {n : Node} (h : s.live.isDead n = true) :
    ∃ x, n.target? = some x ∧ x ∉ s.live.near := by
  unfold Liveness.isDead at h
  cases hx : n.target? with
  | none => simp [hx] at h
  | some x =>
    refine ⟨x, rfl, ?_⟩
    simp only [hx] at h
    split at h
    · simpa using h
    · simpa using h
    · simp only [Bool.and_eq_true] at h
      simpa using h.1
    · simp only [Bool.and_eq_true] at h
      replace h := h.1
      split at h
      · simpa using h
      · -- what is used near is visible
        intro hnear
        have hvisible : x ∈ s.live.visible := List.mem_append_right _ hnear
        simp [hvisible] at h
    · cases h

theorem isDead_of_mem_dropped {live : Liveness} {observed yields : Bool} {declared : Names}
    {ns : List Node} {d : Dropped} (h : d ∈ dropped live observed yields declared ns) :
    live.isDead d.statement = true := by
  induction ns generalizing yields declared with
  | nil => cases h
  | cons n ns ih =>
    simp only [dropped] at h
    split at h
    · next hdead =>
      rcases List.mem_cons.mp h with rfl | h
      · exact (Bool.and_eq_true _ _ ▸ hdead).1
      · exact ih h
    · exact ih h

theorem mem_of_mem_dropped {live : Liveness} {observed yields : Bool} {declared : Names}
    {ns : List Node} {d : Dropped} (h : d ∈ dropped live observed yields declared ns) :
    d.statement ∈ ns := by
  induction ns generalizing yields declared with
  | nil => cases h
  | cons n ns ih =>
    simp only [dropped] at h
    split at h
    · rcases List.mem_cons.mp h with rfl | h
      · exact List.mem_cons_self
      · exact List.mem_cons_of_mem n (ih h)
    · exact List.mem_cons_of_mem n (ih h)

namespace Site

variable {s : Site} {x : String}

theorem mem_lost : x ∈ s.lost ↔
    ∃ d ∈ s.dropped, d.statement.isDeclaration = true ∧ d.statement.target? = some x := by
  simp [lost, and_assoc]

theorem mem_stale : x ∈ s.stale ↔
    ∃ d ∈ s.dropped, d.statement.isAssign = true ∧ d.statement.target? = some x := by
  simp [stale, and_assoc]

theorem mem_near_of_everywhere (h : x ∈ s.everywhere) : x ∈ s.live.near :=
  List.mem_append_left _ h

theorem mem_near_of_used {n : Node} (hn : n ∈ s.head ∨ n ∈ s.statements) (hx : x ∈ n.used) :
    x ∈ s.live.near :=
  List.mem_append_right _ (List.mem_flatMap.mpr ⟨n, List.mem_append.mpr hn, hx⟩)

theorem not_mem_near_of_lost (h : x ∈ s.lost) : x ∉ s.live.near := by
  obtain ⟨d, hd, -, htarget⟩ := mem_lost.mp h
  obtain ⟨y, hy, hnear⟩ := not_mem_near_of_isDead (isDead_of_mem_dropped hd)
  obtain rfl : x = y := Option.some.inj (htarget.symm.trans hy)
  exact hnear

/-- Without comments it does not matter what follows the last statement. -/
theorem ends_of_commentless (h : ∀ n ∈ s.statements, n.isComment = false) :
    s.left = s.swept s.front ++ s.comments := by
  have hfront : s.front = s.statements :=
    List.rdropWhile_eq_self_iff.mpr fun hne => by simp [h _ (List.getLast_mem hne)]
  have hcomments : s.comments = [] :=
    List.rtakeWhile_eq_nil_iff.mpr fun hne => by simp [h _ (List.getLast_mem hne)]
  rw [hfront, hcomments, List.append_nil]
  rfl

theorem front_append_comments (s : Site) : s.front ++ s.comments = s.statements :=
  List.rdropWhile_append_rtakeWhile

theorem isComment_of_mem_comments {n : Node} (h : n ∈ s.comments) : n.isComment = true :=
  List.mem_rtakeWhile_imp h

theorem isComment_getLast_front (h : s.front ≠ []) : (s.front.getLast h).isComment = false := by
  have hlast := List.rdropWhile_last_not Node.isComment s.statements h
  rwa [Bool.not_eq_true] at hlast

end Site

/-- Whether a sweep over a program without comments is tidy. -/
def isTidy (p : Node) : Bool :=
  (sitesOf p).all (fun s => s.statements.all (fun n => !n.isComment) &&
    decide (∀ x ∈ s.lost, x ∉ Node.assignedAll (s.beside ++ s.left)) &&
    decide (∀ d ∈ s.dropped, d.statement.isAssign = true →
      ∀ x ∈ d.statement.target?, x ∈ s.live.visible → x ∈ d.declared)) &&
  decide (∀ s ∈ (sitesOf p).head?, ∀ x ∈ s.lost, x ∉ (sweepProgram p).assignedAnywhere)

theorem tidy_of_isTidy {p : Node} (h : isTidy p = true) : Tidy p := by
  simp only [isTidy, Bool.and_eq_true, List.all_eq_true, decide_eq_true_eq] at h
  obtain ⟨hsites, hglobals⟩ := h
  refine ⟨fun s hs => ?_, hglobals⟩
  obtain ⟨⟨hcomment, hassigned⟩, hdeclared⟩ := hsites s hs
  exact ⟨hassigned, hdeclared, Site.ends_of_commentless fun n hn => by simpa using hcomment n hn⟩

/-! ## Comments at the end of a block -/

theorem isDead_of_isComment {live : Liveness} {n : Node} (h : n.isComment = true) :
    live.isDead n = false := by
  obtain ⟨id, line, form⟩ := n
  cases form <;> first | rfl | cases h

theorem sites_of_isComment {everywhere outer : Names} {observed : Bool} {n : Node}
    (h : n.isComment = true) : sites everywhere outer none observed n = [] := by
  obtain ⟨id, line, form⟩ := n
  cases form <;> first | rfl | cases h

theorem dropped_append {live : Liveness} {observed : Bool} {comments : List Node}
    (h : ∀ n ∈ comments, n.isComment = true) (ns : List Node) (yields : Bool)
    (declared : Names) :
    dropped live observed yields declared (ns ++ comments) =
      dropped live observed yields declared ns := by
  induction ns generalizing yields declared with
  | nil =>
    induction comments generalizing yields declared with
    | nil => rfl
    | cons n ns ih =>
      have hn : live.isDead n = false := isDead_of_isComment (h n (by simp))
      simp only [List.nil_append, dropped, hn, Bool.false_and, Bool.false_eq_true, if_false] at ih ⊢
      exact ih (fun m hm => h m (by simp [hm])) _ _
  | cons n ns ih =>
    have hall : (ns ++ comments).all Node.isComment = ns.all Node.isComment := by
      simp only [List.all_append, List.all_eq_true.mpr h, Bool.and_true]
    simp only [List.cons_append, dropped, hall, ih]

theorem sitesAll_append {everywhere : Names} {live : Liveness} {observed : Bool}
    {comments : List Node} (h : ∀ n ∈ comments, n.isComment = true) (ns : List Node)
    (yields : Bool) :
    sitesAll everywhere live observed yields (ns ++ comments) =
      sitesAll everywhere live observed yields ns := by
  induction ns generalizing yields with
  | nil =>
    induction comments generalizing yields with
    | nil => rfl
    | cons n ns ih =>
      have hn : live.isDead n = false := isDead_of_isComment (h n (by simp))
      simp only [List.nil_append, sitesAll, hn, Bool.false_and, Bool.false_eq_true, if_false,
        sites_of_isComment (h n (by simp))] at ih ⊢
      exact ih (fun m hm => h m (by simp [hm])) _
  | cons n ns ih =>
    have hall : (ns ++ comments).all Node.isComment = ns.all Node.isComment := by
      simp only [List.all_append, List.all_eq_true.mpr h, Bool.and_true]
    simp only [List.cons_append, sitesAll, hall, ih]

end Optimize

end Scriptlet
