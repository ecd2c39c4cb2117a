import Scriptlet.Proofs.Ambiguity
import Scriptlet.Proofs.OptimizedShape

/-!
# Printing a tree

`Node.tokens` prints a tree of the shape that the grammar produces. Statements
are separated by semicolons, and an operand stands in parentheses if and only if
its operator is looser than its place allows: relations are looser than sums,
sums are looser than products, and products are looser than powers. The left
operand of an operator may be of the same precedence, the right operand may not;
for powers it is the other way round.
-/

namespace Scriptlet

open Grammar

/-! ## The printer -/

/-- The sign of an operator. -/
def Arith.sign : Arith → Sign
  | .add => .plus
  | .sub => .minus
  | .mul => .star
  | .div => .slash
  | .pow => .caret

/-- The sign of a relation. -/
def Rel.sign : Rel → Sign
  | .lt => .less
  | .gt => .greater
  | .le => .lessEqual
  | .ge => .greaterEqual
  | .eq => .equalEqual
  | .ne => .bangEqual

/-- The precedence of an operator. -/
def Arith.rank : Arith → Nat
  | .add | .sub => 1
  | .mul | .div => 2
  | .pow => 3

/-- The precedence of an expression; what has no operator binds tightest. -/
def Form.rank {α : Type} : Form α → Nat
  | .relation _ _ _ => 0
  | .arith op _ _ => op.rank
  | _ => 4

/-- Whether an operator associates to the right. -/
def Arith.isRightAssociative : Arith → Bool
  | .pow => true
  | _ => false

/-- The least precedence of a left operand. -/
def Arith.leftRank (op : Arith) : Nat := if op.isRightAssociative then op.rank + 1 else op.rank

/-- The least precedence of a right operand. -/
def Arith.rightRank (op : Arith) : Nat := if op.isRightAssociative then op.rank else op.rank + 1

/-- The tokens `ts` of an operand, in parentheses if it is too loose. -/
def enclose (least : Nat) (operand : Node) (ts : List Token) : List Token :=
  if operand.form.rank < least then parens ts else ts

/-- Lists of tokens with a sign between them. -/
def separated (sg : Sign) : List (List Token) → List Token
  | [] => []
  | ts :: tss => ts ++ tss.flatMap fun us => .sign sg :: us

namespace Node

mutual

/-- The tokens of a tree. -/
def tokens : Node → List Token
  | ⟨_, _, form⟩ => formTokens form
termination_by structural n => n

/-- The tokens of a form. -/
def formTokens : Form Node → List Token
  | .program body => tokens body
  | .block statements => separated .semicolon (listTokens statements)
  | .scope body => braces (tokens body)
  | .branch guard body => .keyword .ifWord :: (parens (tokens guard) ++ braces (tokens body))
  | .whileLoop guard body => .keyword .whileWord :: (parens (tokens guard) ++ braces (tokens body))
  | .forLoop start guard step body =>
    .keyword .forWord :: (parens (separated .semicolon [tokens start, tokens guard, tokens step]) ++
      braces (tokens body))
  | .relation rel left right =>
    enclose 0 left (tokens left) ++ .sign rel.sign :: enclose 1 right (tokens right)
  | .arith op left right =>
    enclose op.leftRank left (tokens left) ++
      .sign op.sign :: enclose op.rightRank right (tokens right)
  | .print value => .keyword .print :: parens (tokens value)
  | .assign name value => tokens name ++ .sign .equals :: tokens value
  | .declare name ty => tokens name ++ .sign .colon :: tokens ty
  | .define name value => tokens name ++ .sign .colonEquals :: tokens value
  | .cast value ty =>
    .keyword .staticCast :: parens (separated .comma [tokens value, tokens ty])
  | .params pairs => separated .comma (pairTokens pairs)
  | .args values => separated .comma (listTokens values)
  | .function name params body => .keyword .function ::
    (tokens name ++ (parens (optionTokens params) ++ .sign .equals :: braces (tokens body)))
  | .call name args => tokens name ++ parens (optionTokens args)
  | .math fn argument => .math fn :: parens (tokens argument)
  | .comment text => [.comment text]
  | .int n => [.int n]
  | .float x => [.float x]
  | .str s => [.str s]
  | .bool b => [.bool b]
  | .binder name => [.name name]
  | .read name => [.name name]
  | .ty t => [.ty t]
  | .pi => [.pi]
termination_by structural form => form

/-- The tokens of each node of a list. -/
def listTokens : List Node → List (List Token)
  | [] => []
  | n :: ns => tokens n :: listTokens ns
termination_by structural ns => ns

/-- The tokens of a node that may be absent. -/
def optionTokens : Option Node → List Token
  | none => []
  | some n => tokens n
termination_by structural n => n

/-- The tokens of each parameter of a list. -/
def pairTokens : List (Node × Node) → List (List Token)
  | [] => []
  | pair :: pairs => typedTokens pair :: pairTokens pairs
termination_by structural pairs => pairs

/-- The tokens of a name with its type. -/
def typedTokens : Node × Node → List Token
  | (name, ty) => tokens name ++ .sign .colon :: tokens ty
termination_by structural pair => pair

end

theorem listTokens_eq_map (ns : List Node) : listTokens ns = ns.map tokens := by
  induction ns with
  | nil => rfl
  | cons n ns ih => rw [listTokens, ih, List.map_cons]

theorem pairTokens_eq_map (pairs : List (Node × Node)) :
    pairTokens pairs = pairs.map typedTokens := by
  induction pairs with
  | nil => rfl
  | cons pair pairs ih => rw [pairTokens, ih, List.map_cons]

theorem tokens_eq (n : Node) : n.tokens = formTokens n.form := by
  obtain ⟨id, line, form⟩ := n
  rfl

end Node

/-! ## Operands by precedence -/

namespace Grammar

open Scriptlet.Parser (Level)

/-- An operand that is at least as tight as a precedence. -/
def Phrase.ofRank : Nat → Node → Phrase
  | 0, n => .operand .relation n
  | 1, n => .operand .sum n
  | 2, n => .operand .product n
  | 3, n => .power n
  | _, n => .primary n

namespace Written

variable {n : Node} {ts : List Token}

theorem single (level : Level) (h : Written (.tighter level n) ts) :
    Written (.operand level n) ts := by
  rw [← List.append_nil ts]
  exact .operand h .lastOperand

/-- A tight operand may stand where a looser one may. -/
theorem ofRank_of_le {least rank : Nat} (h : Written (.ofRank rank n) ts) (hle : least ≤ rank) :
    Written (.ofRank least n) ts := by
  induction hle with
  | refl => exact h
  | @step rank _ ih =>
    refine ih ?_
    match rank, h with
    | 0, h => exact single .relation h
    | 1, h => exact single .sum h
    | 2, h => exact single .product h
    | 3, h => exact .base h
    | _ + 4, h => exact h

theorem ofRank_enclose {least : Nat} (h : Written (.ofRank n.form.rank n) ts) :
    Written (.ofRank least n) (enclose least n ts) := by
  unfold enclose
  split
  · have hprimary : Written (.ofRank (least + 4) n) (parens ts) :=
      .enclosed (h.ofRank_of_le (Nat.zero_le _))
    exact hprimary.ofRank_of_le (Nat.le_add_right _ _)
  · next hle => exact h.ofRank_of_le (Nat.le_of_not_lt hle)

/-- One more operator to the right of others. -/
theorem operators_snoc {level : Level} {left l r : Node} {sg : Sign}
    {form : Node → Node → Form Node}
    {us : List Token} (hop : level.operator? (.sign sg) = some form) (hn : n.form = form l r)
    (h : Written (.operators level left l) ts) (hr : Written (.tighter level r) us) :
    Written (.operators level left n) (ts ++ .sign sg :: us) := by
  generalize hphrase : Phrase.operators level left l = phrase at h
  induction h generalizing left with
  | lastOperand =>
    cases hphrase
    rw [← List.append_nil us]
    exact .nextOperand hop hn hr .lastOperand
  | nextOperand hop' hm ha _ _ ih =>
    cases hphrase
    have h := Written.nextOperand hop' hm ha (ih rfl)
    rw [← List.append_assoc] at h
    exact h
  | _ => cases hphrase

theorem operand_snoc (level : Level) {l r : Node} {sg : Sign} {form : Node → Node → Form Node}
    {us : List Token}
    (hop : level.operator? (.sign sg) = some form) (hn : n.form = form l r)
    (hl : Written (.operand level l) ts) (hr : Written (.tighter level r) us) :
    Written (.operand level n) (ts ++ .sign sg :: us) := by
  cases hl with
  | operand ha hts =>
    rw [List.append_assoc]
    exact .operand ha (hts.operators_snoc hop hn hr)

theorem relation {rel : Rel} {l r : Node} {us : List Token} (hn : n.form = .relation rel l r)
    (hl : Written (.ofRank 0 l) ts) (hr : Written (.ofRank 1 r) us) :
    Written (.ofRank 0 n) (ts ++ .sign rel.sign :: us) := by
  have hop : Level.relation.operator? (.sign rel.sign) = some (.relation rel) := by
    cases rel <;> rfl
  exact operand_snoc .relation hop hn hl hr

theorem arith {op : Arith} {l r : Node} {us : List Token} (hn : n.form = .arith op l r)
    (hl : Written (.ofRank op.leftRank l) ts) (hr : Written (.ofRank op.rightRank r) us) :
    Written (.ofRank op.rank n) (ts ++ .sign op.sign :: us) := by
  cases op with
  | add => exact operand_snoc .sum rfl hn hl hr
  | sub => exact operand_snoc .sum rfl hn hl hr
  | mul => exact operand_snoc .product rfl hn hl hr
  | div => exact operand_snoc .product rfl hn hl hr
  | pow => exact .power hn hl hr

end Written

end Grammar

/-! ## Printed trees -/

/-- Whether the lists of parameters and arguments are not empty; where there are
    none, there is no node for them. -/
def Form.isFull {α : Type} : Form α → Bool
  | .params pairs => !pairs.isEmpty
  | .args values => !values.isEmpty
  | _ => true

namespace Node

/-- Whether a node and its children are as the grammar has them. -/
def IsWellFormed (n : Node) : Prop := n.form.isShaped = true ∧ n.form.isFull = true

instance : DecidablePred IsWellFormed := fun n =>
  inferInstanceAs (Decidable (n.form.isShaped = true ∧ n.form.isFull = true))

/-- What the tokens of a node are written for. -/
def Printed (n : Node) : Prop :=
  match n.form with
  | .program _ | .binder _ | .ty _ => True
  | .block ns => Written (.block ns) n.tokens
  | .params pairs => ∃ x ty y t rest params, pairs = (x, ty) :: rest ∧ x.form = .binder y ∧
      ty.form = .ty t ∧ n.tokens = typed y t ++ params ∧ Written (.moreParameters rest) params
  | .args values => ∃ v rest a ts, values = v :: rest ∧ n.tokens = a ++ ts ∧
      Written (.operand .relation v) a ∧ Written (.moreArguments rest) ts
  | form => if form.isExpression then Written (.ofRank form.rank n) n.tokens
      else Written (.statement n) n.tokens

namespace Printed

variable {n : Node}

theorem ofRank (h : n.Printed) (hn : n.form.isExpression = true) :
    Written (.ofRank n.form.rank n) n.tokens := by
  obtain ⟨id, line, form⟩ := n
  cases form <;> first | exact h | cases hn

theorem expression (h : n.Printed) (hn : n.form.isExpression = true) :
    Written (.operand .relation n) n.tokens :=
  (h.ofRank hn).ofRank_of_le (Nat.zero_le _)

theorem statement (h : n.Printed) (hn : n.form.isStatement = true) :
    Written (.statement n) n.tokens := by
  by_cases hexpr : n.form.isExpression = true
  · exact .expression (h.expression hexpr)
  · obtain ⟨id, line, form⟩ := n
    cases form <;> first | exact h | exact absurd rfl hexpr | cases hn

theorem exists_block (h : n.Printed) (hn : n.form.isBlock = true) :
    ∃ ns, n.form = .block ns ∧ Written (.block ns) n.tokens := by
  obtain ⟨id, line, form⟩ := n
  cases form <;> first | exact ⟨_, rfl, h⟩ | cases hn

theorem exists_params (h : n.Printed) (hn : n.form.isParams = true) :
    ∃ x ty y t rest params, n.form = .params ((x, ty) :: rest) ∧ x.form = .binder y ∧
      ty.form = .ty t ∧ n.tokens = typed y t ++ params ∧ Written (.moreParameters rest) params := by
  obtain ⟨id, line, form⟩ := n
  cases form with
  | params pairs =>
    obtain ⟨x, ty, y, t, rest, params, rfl, h⟩ := h
    exact ⟨x, ty, y, t, rest, params, rfl, h⟩
  | _ => cases hn

theorem exists_args (h : n.Printed) (hn : n.form.isArgs = true) :
    ∃ v rest a ts, n.form = .args (v :: rest) ∧ n.tokens = a ++ ts ∧
      Written (.operand .relation v) a ∧ Written (.moreArguments rest) ts := by
  obtain ⟨id, line, form⟩ := n
  cases form with
  | args values =>
    obtain ⟨v, rest, a, ts, rfl, h⟩ := h
    exact ⟨v, rest, a, ts, rfl, h⟩
  | _ => cases hn

end Printed

theorem exists_binder {n : Node} (hn : n.form.isBinder = true) :
    ∃ x, n.form = .binder x ∧ n.tokens = [.name x] := by
  obtain ⟨id, line, form⟩ := n
  cases form <;> first | exact ⟨_, rfl, rfl⟩ | cases hn

theorem exists_ty {n : Node} (hn : n.form.isTy = true) :
    ∃ t, n.form = .ty t ∧ n.tokens = [.ty t] := by
  obtain ⟨id, line, form⟩ := n
  cases form <;> first | exact ⟨_, rfl, rfl⟩ | cases hn

section Lists

variable {ns : List Node}

/-- Statements with a semicolon before each of them. -/
theorem written_moreStatements (h : ∀ n ∈ ns, Written (.statement n) n.tokens) :
    Written (.block ns) ((ns.map tokens).flatMap fun ts => .sign .semicolon :: ts) ∧
      ∀ a, Apart a ((ns.map tokens).flatMap fun ts => .sign .semicolon :: ts) := by
  induction ns with
  | nil => exact ⟨.done, fun _ _ _ => by simp⟩
  | cons n ns ih =>
    rw [List.forall_mem_cons] at h
    obtain ⟨hns, hapart⟩ := ih h.2
    exact ⟨.separator (.next h.1 hns (hapart _)), fun _ _ _ => by simp⟩

theorem written_block (h : ∀ n ∈ ns, Written (.statement n) n.tokens) :
    Written (.block ns) (separated .semicolon (ns.map tokens)) := by
  cases ns with
  | nil => exact .done
  | cons n ns =>
    rw [List.forall_mem_cons] at h
    obtain ⟨hns, hapart⟩ := written_moreStatements h.2
    exact .next h.1 hns (hapart _)

theorem written_moreArguments (h : ∀ n ∈ ns, Written (.operand .relation n) n.tokens) :
    Written (.moreArguments ns) ((ns.map tokens).flatMap fun ts => .sign .comma :: ts) := by
  induction ns with
  | nil => exact .lastArgument
  | cons n ns ih =>
    rw [List.forall_mem_cons] at h
    exact .nextArgument h.1 (ih h.2)

theorem written_moreParameters {pairs : List (Node × Node)}
    (h : ∀ pair ∈ pairs, pair.1.form.isBinder = true ∧ pair.2.form.isTy = true) :
    Written (.moreParameters pairs) ((pairTokens pairs).flatMap fun ts => .sign .comma :: ts) := by
  induction pairs with
  | nil => exact .lastParameter
  | cons pair pairs ih =>
    rw [List.forall_mem_cons] at h
    obtain ⟨⟨hname, hty⟩, hpairs⟩ := h
    obtain ⟨x, hx, hxs⟩ := exists_binder hname
    obtain ⟨t, ht, hts⟩ := exists_ty hty
    rw [pairTokens, List.flatMap_cons, typedTokens, hxs, hts]
    exact .nextParameter hx ht (ih hpairs)

end Lists

/-! ## Forms

A node is printed as it is written if its children are. -/

namespace Printed

variable {id line : Nat}

theorem block {ns : List Node} (h : ∀ n ∈ ns, n.Printed)
    (hstatements : ∀ n ∈ ns, n.form.isStatement = true) : Printed ⟨id, line, .block ns⟩ := by
  change Written (.block ns) (separated .semicolon (listTokens ns))
  rw [listTokens_eq_map]
  exact written_block fun n hn => (h n hn).statement (hstatements n hn)

section Bodies

variable {b : Node} (hb : b.Printed) (hbody : b.form.isBlock = true)

include hb hbody

theorem scope : Printed ⟨id, line, .scope b⟩ := by
  obtain ⟨ns, hns, hb⟩ := hb.exists_block hbody
  exact Written.scope rfl hns hb

theorem branch {g : Node} (hg : g.Printed) (hguard : g.form.isStatement = true) :
    Printed ⟨id, line, .branch g b⟩ := by
  obtain ⟨ns, hns, hb⟩ := hb.exists_block hbody
  exact Written.branch rfl hns (hg.statement hguard) hb

theorem whileLoop {g : Node} (hg : g.Printed) (hguard : g.form.isStatement = true) :
    Printed ⟨id, line, .whileLoop g b⟩ := by
  obtain ⟨ns, hns, hb⟩ := hb.exists_block hbody
  exact Written.whileLoop rfl hns (hg.statement hguard) hb

theorem forLoop {start g step : Node} (hstart : Written (.statement start) start.tokens)
    (hg : Written (.statement g) g.tokens) (hstep : Written (.statement step) step.tokens) :
    Printed ⟨id, line, .forLoop start g step b⟩ := by
  obtain ⟨ns, hns, hb⟩ := hb.exists_block hbody
  have h := Written.forLoop (n := ⟨id, line, .forLoop start g step b⟩) rfl hns hstart hg hstep hb
  simpa [Printed, tokens, formTokens, separated, Form.isExpression] using h

theorem function {name : Node} {ps : Option Node} (hname : name.form.isBinder = true)
    (hps : ∀ m ∈ ps, m.Printed ∧ m.form.isParams = true) :
    Printed ⟨id, line, .function name ps b⟩ := by
  obtain ⟨f, hf, hfs⟩ := exists_binder hname
  obtain ⟨ns, hns, hb⟩ := hb.exists_block hbody
  change Written _ (.keyword .function ::
    (name.tokens ++ (parens (optionTokens ps) ++ .sign .equals :: braces b.tokens)))
  rw [hfs]
  cases ps with
  | none => exact .procedure rfl hf hns hb
  | some ps =>
    obtain ⟨hprinted, hkind⟩ := hps ps rfl
    obtain ⟨x, ty, y, t, pairs, params, hform, hy, ht, htokens, hpairs⟩ :=
      hprinted.exists_params hkind
    rw [optionTokens, htokens]
    exact .function rfl hf hform hy ht hns hpairs hb

end Bodies

section Operands

variable {l r : Node} (hl : l.Printed) (hr : r.Printed) (hleft : l.form.isExpression = true)
  (hright : r.form.isExpression = true)

include hl hr hleft hright

theorem relation (rel : Rel) : Printed ⟨id, line, .relation rel l r⟩ :=
  Written.relation rfl (hl.ofRank hleft).ofRank_enclose (hr.ofRank hright).ofRank_enclose

theorem arith (op : Arith) : Printed ⟨id, line, .arith op l r⟩ :=
  Written.arith rfl (hl.ofRank hleft).ofRank_enclose (hr.ofRank hright).ofRank_enclose

end Operands

section Names

variable {name : Node} (hname : name.form.isBinder = true)

include hname

theorem assign {v : Node} (hv : Written (.statement v) v.tokens) :
    Printed ⟨id, line, .assign name v⟩ := by
  obtain ⟨x, hx, hxs⟩ := exists_binder hname
  change Written _ (name.tokens ++ .sign .equals :: v.tokens)
  rw [hxs]
  exact .assign rfl hx hv

theorem define {v : Node} (hv : Written (.statement v) v.tokens) :
    Printed ⟨id, line, .define name v⟩ := by
  obtain ⟨x, hx, hxs⟩ := exists_binder hname
  change Written _ (name.tokens ++ .sign .colonEquals :: v.tokens)
  rw [hxs]
  exact .define rfl hx hv

theorem declare {ty : Node} (hty : ty.form.isTy = true) : Printed ⟨id, line, .declare name ty⟩ := by
  obtain ⟨x, hx, hxs⟩ := exists_binder hname
  obtain ⟨t, ht, hts⟩ := exists_ty hty
  change Written _ (name.tokens ++ .sign .colon :: ty.tokens)
  rw [hxs, hts]
  exact .declare rfl hx ht

theorem call {args : Option Node} (hargs : ∀ m ∈ args, m.Printed ∧ m.form.isArgs = true) :
    Printed ⟨id, line, .call name args⟩ := by
  obtain ⟨f, hf, hfs⟩ := exists_binder hname
  change Written _ (name.tokens ++ parens (optionTokens args))
  rw [hfs]
  cases args with
  | none => exact .bareCall rfl hf
  | some args =>
    obtain ⟨hprinted, hkind⟩ := hargs args rfl
    obtain ⟨v, values, a, ts, hform, htokens, hv, hvalues⟩ := hprinted.exists_args hkind
    rw [optionTokens, htokens]
    exact .call rfl hf hform hv hvalues

end Names

theorem cast {v ty : Node} (hv : Written (.statement v) v.tokens) (hty : ty.form.isTy = true) :
    Printed ⟨id, line, .cast v ty⟩ := by
  obtain ⟨t, ht, hts⟩ := exists_ty hty
  change Written _ (.keyword .staticCast :: parens (separated .comma [v.tokens, ty.tokens]))
  rw [hts]
  exact Written.cast rfl ht hv

theorem params {pair : Node × Node} {pairs : List (Node × Node)}
    (h : ∀ p ∈ pair :: pairs, p.1.form.isBinder = true ∧ p.2.form.isTy = true) :
    Printed ⟨id, line, .params (pair :: pairs)⟩ := by
  rw [List.forall_mem_cons] at h
  obtain ⟨⟨hname, hty⟩, hpairs⟩ := h
  obtain ⟨x, hx, hxs⟩ := exists_binder hname
  obtain ⟨t, ht, hts⟩ := exists_ty hty
  refine ⟨_, _, x, t, pairs, _, rfl, hx, ht, ?_, written_moreParameters hpairs⟩
  change separated .comma (typedTokens pair :: pairTokens pairs) = _
  rw [separated, typedTokens, hxs, hts]
  rfl

theorem args {v : Node} {values : List Node}
    (h : ∀ m ∈ v :: values, Written (.operand .relation m) m.tokens) :
    Printed ⟨id, line, .args (v :: values)⟩ := by
  rw [List.forall_mem_cons] at h
  refine ⟨v, values, v.tokens, _, rfl, ?_, h.1, written_moreArguments h.2⟩
  change separated .comma (v.tokens :: listTokens values) = _
  rw [separated, listTokens_eq_map]

end Printed

/-- A tree of the shape that the grammar produces is printed as it is written. -/
theorem printed {n : Node} (h : n.All IsWellFormed) : n.Printed := by
  induction n using Node.induction with
  | h n ih =>
    obtain ⟨⟨hshaped, hfull⟩, hchildren⟩ := all_iff.mp h
    have ih := fun m hm => ih m hm (hchildren m hm)
    obtain ⟨id, line, form⟩ := n
    simp only [children, Form.children] at ih
    cases form with
    | program _ | binder _ | ty _ => trivial
    | block ns =>
      simp only [Form.isShaped, List.all_eq_true] at hshaped
      exact .block ih hshaped
    | scope b => exact .scope (ih b (by simp)) hshaped
    | branch g b =>
      obtain ⟨hguard, hbody⟩ := Bool.and_eq_true_iff.mp hshaped
      exact .branch (ih b (by simp)) hbody (ih g (by simp)) hguard
    | whileLoop g b =>
      obtain ⟨hguard, hbody⟩ := Bool.and_eq_true_iff.mp hshaped
      exact .whileLoop (ih b (by simp)) hbody (ih g (by simp)) hguard
    | forLoop start g step b =>
      simp only [Form.isShaped, Bool.and_eq_true] at hshaped
      obtain ⟨⟨⟨hstart, hguard⟩, hstep⟩, hbody⟩ := hshaped
      exact .forLoop (ih b (by simp)) hbody ((ih start (by simp)).statement hstart)
        ((ih g (by simp)).statement hguard) ((ih step (by simp)).statement hstep)
    | relation rel l r =>
      obtain ⟨hleft, hright⟩ := Bool.and_eq_true_iff.mp hshaped
      exact .relation (ih l (by simp)) (ih r (by simp)) hleft hright rel
    | arith op l r =>
      obtain ⟨hleft, hright⟩ := Bool.and_eq_true_iff.mp hshaped
      exact .arith (ih l (by simp)) (ih r (by simp)) hleft hright op
    | print v => exact Written.print rfl ((ih v (by simp)).statement hshaped)
    | assign name v =>
      obtain ⟨hname, hvalue⟩ := Bool.and_eq_true_iff.mp hshaped
      exact .assign hname ((ih v (by simp)).statement hvalue)
    | define name v =>
      obtain ⟨hname, hvalue⟩ := Bool.and_eq_true_iff.mp hshaped
      exact .define hname ((ih v (by simp)).statement hvalue)
    | declare name ty =>
      obtain ⟨hname, hty⟩ := Bool.and_eq_true_iff.mp hshaped
      exact .declare hname hty
    | cast v ty =>
      obtain ⟨hvalue, hty⟩ := Bool.and_eq_true_iff.mp hshaped
      exact .cast ((ih v (by simp)).statement hvalue) hty
    | params pairs =>
      simp only [Form.isShaped, List.all_eq_true, Bool.and_eq_true] at hshaped
      cases pairs with
      | nil => cases hfull
      | cons pair pairs => exact .params hshaped
    | args values =>
      simp only [Form.isShaped, List.all_eq_true] at hshaped
      cases values with
      | nil => cases hfull
      | cons v values => exact .args fun m hm => (ih m hm).expression (hshaped m hm)
    | function name ps b =>
      simp only [Form.isShaped, Bool.and_eq_true, Option.all_eq_true] at hshaped
      obtain ⟨⟨hname, hparams⟩, hbody⟩ := hshaped
      exact .function (ih b (by simp)) hbody hname fun m hm =>
        ⟨ih m (by simp [Option.mem_def.mp hm]), hparams m hm⟩
    | call name args =>
      simp only [Form.isShaped, Bool.and_eq_true, Option.all_eq_true] at hshaped
      exact .call hshaped.1 fun m hm =>
        ⟨ih m (by simp [Option.mem_def.mp hm]), hshaped.2 m hm⟩
    | math fn m => exact Written.math rfl ((ih m (by simp)).expression hshaped)
    | comment text => exact Written.comment rfl
    | read x => exact Written.read rfl
    | int | float | str | bool | pi => exact Written.literal rfl

end Node

end Scriptlet
