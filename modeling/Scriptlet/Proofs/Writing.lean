import Scriptlet.Proofs.Grammar
import Scriptlet.Proofs.Matching
import Scriptlet.Proofs.Outcome

/-!
# How trees are written

`Written` says which lists of tokens write a tree, or the part of a tree that a
rule of the grammar stands for. Other than `Derives` it is not ambiguous: two
statements are not written next to each other if they could be read as a call.
Parentheses and semicolons that nobody needs are allowed.

Results:
* `Grammar.Written.beginsOperand`, `Grammar.Written.opens`: how the tokens of an
  expression and of a statement begin.
* `Grammar.Written.stops`: what ends an expression also ends its first operand.
-/

namespace Scriptlet

namespace Grammar

open Scriptlet.Parser (Level bindingSigns)

/-- What a rule of the grammar yields. -/
inductive Phrase where
  | block (statements : List Node)
  | statement (n : Node)
  | moreParameters (pairs : List (Node × Node))
  | operand (level : Level) (n : Node)
  /-- further operands, which make `n` of the operand `left` before them -/
  | operators (level : Level) (left n : Node)
  | power (n : Node)
  | primary (n : Node)
  | moreArguments (values : List Node)

/-- An operand of the operators of a level. -/
def Phrase.tighter : Level → Node → Phrase
  | .relation, n => .operand .sum n
  | .sum, n => .operand .product n
  | .product, n => .power n

/-- What follows does not make a call of a name at the end. -/
def Apart (ts us : List Token) : Prop :=
  ∀ x, ts.getLast? = some (.name x) → us.head? ≠ some (.sign .openParen)

/-- The tokens that a part of a tree may be written as. -/
inductive Written : Phrase → List Token → Prop
  | done : Written (.block []) []
  | separator {ns : List Node} {ts : List Token} : Written (.block ns) ts →
      Written (.block ns) (.sign .semicolon :: ts)
  | next {n : Node} {ns : List Node} {s ts : List Token} : Written (.statement n) s →
      Written (.block ns) ts → Apart s ts → Written (.block (n :: ns)) (s ++ ts)
  | scope {n b : Node} {ns : List Node} {body : List Token} : n.form = .scope b →
      b.form = .block ns → Written (.block ns) body → Written (.statement n) (braces body)
  | comment {n : Node} {text : String} : n.form = .comment text →
      Written (.statement n) [.comment text]
  | print {n v : Node} {value : List Token} : n.form = .print v → Written (.statement v) value →
      Written (.statement n) (.keyword .print :: parens value)
  | branch {n g b : Node} {ns : List Node} {guard body : List Token} : n.form = .branch g b →
      b.form = .block ns → Written (.statement g) guard → Written (.block ns) body →
      Written (.statement n) (.keyword .ifWord :: (parens guard ++ braces body))
  | whileLoop {n g b : Node} {ns : List Node} {guard body : List Token} :
      n.form = .whileLoop g b → b.form = .block ns → Written (.statement g) guard →
      Written (.block ns) body →
      Written (.statement n) (.keyword .whileWord :: (parens guard ++ braces body))
  | forLoop {n a g c b : Node} {ns : List Node} {start guard step body : List Token} :
      n.form = .forLoop a g c b → b.form = .block ns → Written (.statement a) start →
      Written (.statement g) guard → Written (.statement c) step → Written (.block ns) body →
      Written (.statement n) (.keyword .forWord ::
        (parens (start ++ .sign .semicolon :: (guard ++ .sign .semicolon :: step)) ++ braces body))
  | procedure {n name b : Node} {f : String} {ns : List Node} {body : List Token} :
      n.form = .function name none b → name.form = .binder f → b.form = .block ns →
      Written (.block ns) body → Written (.statement n)
        (.keyword .function :: .name f :: (parens [] ++ .sign .equals :: braces body))
  | function {n name ps x ty b : Node} {f y : String} {t : Ty} {pairs : List (Node × Node)}
      {ns : List Node} {params body : List Token} : n.form = .function name (some ps) b →
      name.form = .binder f → ps.form = .params ((x, ty) :: pairs) → x.form = .binder y →
      ty.form = .ty t → b.form = .block ns → Written (.moreParameters pairs) params →
      Written (.block ns) body → Written (.statement n) (.keyword .function :: .name f ::
        (parens (typed y t ++ params) ++ .sign .equals :: braces body))
  | assign {n name v : Node} {x : String} {value : List Token} : n.form = .assign name v →
      name.form = .binder x → Written (.statement v) value →
      Written (.statement n) (.name x :: .sign .equals :: value)
  | define {n name v : Node} {x : String} {value : List Token} : n.form = .define name v →
      name.form = .binder x → Written (.statement v) value →
      Written (.statement n) (.name x :: .sign .colonEquals :: value)
  | declare {n name ty : Node} {x : String} {t : Ty} : n.form = .declare name ty →
      name.form = .binder x → ty.form = .ty t → Written (.statement n) (typed x t)
  | expression {n : Node} {ts : List Token} : Written (.operand .relation n) ts →
      Written (.statement n) ts
  | lastParameter : Written (.moreParameters []) []
  | nextParameter {name ty : Node} {x : String} {t : Ty} {pairs : List (Node × Node)}
      {ts : List Token} : name.form = .binder x → ty.form = .ty t →
      Written (.moreParameters pairs) ts →
      Written (.moreParameters ((name, ty) :: pairs)) (.sign .comma :: (typed x t ++ ts))
  | operand {level : Level} {left n : Node} {a ts : List Token} :
      Written (.tighter level left) a → Written (.operators level left n) ts →
      Written (.operand level n) (a ++ ts)
  | lastOperand {level : Level} {n : Node} : Written (.operators level n n) []
  | nextOperand {level : Level} {left right m n : Node} {sg : Sign}
      {form : Node → Node → Form Node} {a ts : List Token} :
      level.operator? (.sign sg) = some form → m.form = form left right →
      Written (.tighter level right) a → Written (.operators level m n) ts →
      Written (.operators level left n) (.sign sg :: (a ++ ts))
  | base {n : Node} {ts : List Token} : Written (.primary n) ts → Written (.power n) ts
  | power {n l r : Node} {a b : List Token} : n.form = .arith .pow l r → Written (.primary l) a →
      Written (.power r) b → Written (.power n) (a ++ .sign .caret :: b)
  | literal {n : Node} {t : Token} : Parser.literal? t = some n.form → Written (.primary n) [t]
  | read {n : Node} {x : String} : n.form = .read x → Written (.primary n) [.name x]
  | bareCall {n name : Node} {f : String} : n.form = .call name none → name.form = .binder f →
      Written (.primary n) (.name f :: parens [])
  | call {n name args v : Node} {f : String} {values : List Node} {a ts : List Token} :
      n.form = .call name (some args) → name.form = .binder f → args.form = .args (v :: values) →
      Written (.operand .relation v) a → Written (.moreArguments values) ts →
      Written (.primary n) (.name f :: parens (a ++ ts))
  | math {n m : Node} {fn : MathFn} {ts : List Token} : n.form = .math fn m →
      Written (.operand .relation m) ts → Written (.primary n) (.math fn :: parens ts)
  | cast {n v ty : Node} {t : Ty} {value : List Token} : n.form = .cast v ty → ty.form = .ty t →
      Written (.statement v) value →
      Written (.primary n) (.keyword .staticCast :: parens (value ++ [.sign .comma, .ty t]))
  | enclosed {n : Node} {ts : List Token} : Written (.operand .relation n) ts →
      Written (.primary n) (parens ts)
  | lastArgument : Written (.moreArguments []) []
  | nextArgument {v : Node} {values : List Node} {a ts : List Token} :
      Written (.operand .relation v) a → Written (.moreArguments values) ts →
      Written (.moreArguments (v :: values)) (.sign .comma :: (a ++ ts))

/-! ## Where a phrase begins -/

/-- Whether a token may begin a statement. -/
def opens : Token → Bool
  | .sign .openBrace | .sign .openParen => true
  | .sign _ | .ty _ | .lineBreak | .blank => false
  | _ => true

/-- Whether a token may begin an expression. -/
def opensOperand : Token → Bool
  | .sign .openParen | .keyword .staticCast => true
  | .sign _ | .keyword _ | .ty _ | .comment _ | .lineBreak | .blank => false
  | _ => true

/-- Tokens that begin as an expression does: nothing is bound to a name that
    comes first. -/
structure BeginsOperand (ts : List Token) : Prop where
  opens : ∃ t us, ts = t :: us ∧ opensOperand t = true
  unbound : ∀ x us, ts = .name x :: us → ∀ sg ∈ bindingSigns, us.head? ≠ some (.sign sg)

theorem BeginsOperand.append {ts us : List Token} (h : BeginsOperand ts)
    (hus : ∀ sg ∈ bindingSigns, us.head? ≠ some (.sign sg)) : BeginsOperand (ts ++ us) := by
  obtain ⟨⟨t, ts, rfl, ht⟩, hunbound⟩ := h
  refine ⟨⟨t, ts ++ us, rfl, ht⟩, ?_⟩
  rintro x _ ⟨⟩ sg hsg
  cases ts with
  | nil => exact hus sg hsg
  | cons t ts => exact hunbound x _ rfl sg hsg

/-- An expression begins with no sign but a parenthesis that is opened. -/
theorem BeginsOperand.head?_append_ne {ts : List Token} (h : BeginsOperand ts) (us : List Token)
    {sg : Sign} (hsg : sg ≠ .openParen) : (ts ++ us).head? ≠ some (.sign sg) := by
  obtain ⟨t, ts, rfl, ht⟩ := h.opens
  intro heq
  cases heq
  cases sg <;> first | exact hsg rfl | cases ht

/-- Whether a phrase is an expression. -/
def Phrase.isOperand : Phrase → Bool
  | .operand _ _ | .power _ | .primary _ => true
  | _ => false

theorem Phrase.isOperand_tighter (level : Level) (n : Node) :
    (Phrase.tighter level n).isOperand = true := by
  cases level <;> rfl

/-- Further operands begin with an operator. -/
theorem Written.operators_head {level : Level} {left n : Node} {ts : List Token}
    (h : Written (.operators level left n) ts) :
    ts = [] ∨ ∃ sg ∈ operatorSigns level, ts.head? = some (.sign sg) := by
  cases h with
  | lastOperand => exact .inl rfl
  | @nextOperand _ _ _ _ _ sg _ _ _ hop =>
    obtain ⟨sg', hsg', heq⟩ := operator?_isSome.mp (by rw [hop]; rfl)
    cases heq
    exact .inr ⟨sg, hsg', rfl⟩

theorem Written.operators_unbound {level : Level} {left n : Node} {ts : List Token}
    (h : Written (.operators level left n) ts) :
    ∀ sg ∈ bindingSigns, ts.head? ≠ some (.sign sg) := by
  have hdisjoint : ∀ sg ∈ operatorSigns level, sg ∉ bindingSigns := by cases level <;> decide
  intro sg hsg heq
  rcases h.operators_head with rfl | ⟨sg', hsg', hhead⟩
  · cases heq
  · rw [hhead] at heq
    cases heq
    exact hdisjoint _ hsg' hsg

theorem Written.beginsOperand {phrase : Phrase} {ts : List Token} (h : Written phrase ts)
    (hphrase : phrase.isOperand = true) : BeginsOperand ts := by
  induction h with
  | operand _ hts ih _ =>
    exact (ih (Phrase.isOperand_tighter _ _)).append hts.operators_unbound
  | base _ ih => exact ih rfl
  | power _ _ _ ih _ => exact (ih rfl).append (by simp [bindingSigns])
  | @literal n t ht =>
    cases t with
    | int | float | str | bool | pi => exact ⟨⟨_, _, rfl, rfl⟩, by simp⟩
    | _ => cases ht
  | read _ =>
    refine ⟨⟨_, _, rfl, rfl⟩, ?_⟩
    rintro x _ ⟨⟩
    simp
  | bareCall _ _ | call _ _ _ _ _ _ _ =>
    refine ⟨⟨_, _, rfl, rfl⟩, ?_⟩
    rintro x _ ⟨⟩
    simp [parens, bindingSigns]
  | math _ _ _ | cast _ _ _ _ | enclosed _ _ => exact ⟨⟨_, _, rfl, rfl⟩, by simp [parens]⟩
  | _ => cases hphrase

theorem opens_of_opensOperand {t : Token} (h : opensOperand t = true) : opens t = true := by
  cases t with
  | sign sg => cases sg <;> first | rfl | cases h
  | _ => first | rfl | cases h

/-- A statement begins with a token that goes on with no other statement, except
    that a parenthesis makes a call of a name. -/
theorem Written.opens {n : Node} {ts : List Token} (h : Written (.statement n) ts) :
    ∃ t us, ts = t :: us ∧ opens t = true := by
  cases h with
  | expression h =>
    obtain ⟨t, us, rfl, ht⟩ := (h.beginsOperand rfl).opens
    exact ⟨t, us, rfl, opens_of_opensOperand ht⟩
  | _ => exact ⟨_, _, rfl, rfl⟩

/-! ## Where a phrase ends -/

/-- The operators that go on with an operand of the operators of a level. -/
def tighterReach : Level → List Sign
  | .product => [.caret]
  | .sum => operatorSigns .product ++ [.caret]
  | .relation => operatorSigns .sum ++ operatorSigns .product ++ [.caret]

/-- The operators that go on with an expression of a level. -/
def reach (level : Level) : List Sign := operatorSigns level ++ tighterReach level

/-- What follows neither goes on with one of the signs nor makes a call of a name
    at the end. -/
structure Stops (signs : List Sign) (ts rest : List Token) : Prop where
  sign : ∀ sg ∈ signs, rest.head? ≠ some (.sign sg)
  apart : Apart ts rest

theorem Stops.of_head {signs : List Sign} {ts rest : List Token} {sg : Sign}
    (h : rest.head? = some (.sign sg)) (hsg : sg ∉ .openParen :: signs) : Stops signs ts rest := by
  rw [List.mem_cons, not_or] at hsg
  refine ⟨fun sg' hsg' heq => ?_, fun x _ heq => ?_⟩
  · rw [h] at heq
    cases heq
    exact hsg.2 hsg'
  · rw [h] at heq
    cases heq
    exact hsg.1 rfl

theorem Apart.right {ts us rest : List Token} (h : Apart (ts ++ us) rest) : Apart us rest := by
  intro x hx
  refine h x ?_
  rw [List.getLast?_append, hx]
  rfl

theorem Apart.of_cons {t : Token} {ts rest : List Token} (h : Apart (t :: ts) rest) :
    Apart ts rest := by
  rw [← List.singleton_append] at h
  exact h.right

/-- What follows a first operand and the further ones stops the first one too. -/
theorem Written.stops {level : Level} {left n : Node} {a ts rest : List Token}
    (h : Written (.operators level left n) ts) (hrest : Stops (reach level) (a ++ ts) rest) :
    Stops (tighterReach level) a (ts ++ rest) := by
  have hdisjoint : ∀ sg ∈ operatorSigns level, sg ∉ .openParen :: tighterReach level := by
    cases level <;> decide
  rcases h.operators_head with rfl | ⟨sg, hsg, hhead⟩
  · rw [List.append_nil] at hrest
    exact ⟨fun sg hsg => hrest.sign sg (List.mem_append_right _ hsg), hrest.apart⟩
  · refine .of_head ?_ (hdisjoint sg hsg)
    rw [List.head?_append, hhead]
    rfl

/-- Further arguments stop the one before them. -/
theorem Written.stops_argument {values : List Node} {a ts rest : List Token}
    (h : Written (.moreArguments values) ts) :
    Stops (reach .relation) a (ts ++ .sign .closeParen :: rest) := by
  cases h with
  | lastArgument => exact .of_head rfl (by decide)
  | nextArgument _ _ => exact .of_head rfl (by decide)

end Grammar

end Scriptlet
