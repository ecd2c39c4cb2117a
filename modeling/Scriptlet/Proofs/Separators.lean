import Mathlib.Data.List.Induction
import Mathlib.Data.List.TakeWhile
import Scriptlet.Proofs.Progress

/-!
# Comments as separators

Between two statements a comment may stand where a semicolon may stand. Nothing else
takes a comment for what it is: inside a statement it is read as a statement of its
own, where one is expected, and is reported everywhere else. Semicolons are reported
there too, two in a row even in the header of a loop, and they can be told from those
of a source by their line.

So a comment stands apart from the statements around it if the parser does not report
one of two such semicolons in its place, and if the next token does not go on with the
statement before: without the comment it would do so. An operator goes on with an operand.
Many operands end with a parenthesis, but so do a print and a header, with which nothing
goes on; which one it is shows before the parenthesis that was opened.

Results:
* `Parser.marked`, `Parser.Separated`: the two conditions.
* `Parser.Grows.rule`: errors are only added.
* `Parser.Trips.statement`: a semicolon is found where a statement is expected.
-/

namespace Scriptlet

/-! ## Comments among tokens -/

namespace Token

/-- Whether a token is a comment. -/
def isComment : Token → Bool
  | comment _ => true
  | _ => false

/-- Whether a token is a name. -/
def isName : Token → Bool
  | name _ => true
  | _ => false

/-- Whether a token is an operator. -/
def isOperator : Token → Bool
  | sign s => s.arith?.isSome || s.rel?.isSome
  | _ => false

/-- Whether a token says what is done with a name before it. -/
def followsName : Token → Bool
  | sign s => s = .openParen || s ∈ Parser.bindingSigns
  | _ => false

/-- Whether the parenthesis after a token is that of a print or of a header, and not of an
    expression. -/
def opensHeader : Token → Bool
  | keyword .print | keyword .ifWord | keyword .whileWord | keyword .forWord => true
  | _ => false

/-- Whether `depth + 1` closing parentheses after some tokens come back to the parenthesis of
    an operand. The last token comes first. If there is a block in between, they may. -/
def closesOperand : Nat → List Token → Bool
  | _, [] => false
  | 0, .sign .openParen :: ts => !ts.head?.any opensHeader
  | depth + 1, .sign .openParen :: ts => closesOperand depth ts
  | depth, .sign .closeParen :: ts => closesOperand (depth + 1) ts
  | _, .sign .openBrace :: _ => false
  | _, .sign .closeBrace :: _ => true
  | depth, _ :: ts => closesOperand depth ts

/-- Whether an operand may end with the last one of some tokens, which comes first. -/
def endsOperand : List Token → Bool
  | .float _ :: _ | .int _ :: _ | .bool _ :: _ | .pi :: _ | .str _ :: _ | .name _ :: _ => true
  | .sign .closeParen :: ts => closesOperand 0 ts
  | _ => false

/-- Whether a token may go on with the phrase that ends before it. The tokens before it are
    those of `read`, the last one first. -/
def goesOn (read : List Token) (next : Token) : Bool :=
  endsOperand read && next.isOperator || read.head?.any isName && next.followsName

theorem goesOn_comment {read : List Token} {next : Token} (h : next.isComment = true) :
    goesOn read next = false := by
  cases next with
  | comment _ => simp [goesOn, isOperator, followsName]
  | _ => cases h

theorem isOperator_of_operator? {level : Parser.Level} {t : Token}
    {form : Node → Node → Form Node} (h : level.operator? t = some form) :
    t.isOperator = true := by
  cases t with
  | sign s => cases level <;> cases s <;> first | rfl | cases h
  | _ => cases level <;> cases h

end Token

/-- The same error where the source ends on another line. -/
def SourceError.relocate (endLine : Nat) : SourceError → SourceError
  | unexpectedEnd _ => unexpectedEnd endLine
  | e => e

namespace Parser

variable {α β γ δ : Type}

/-- A semicolon on no line of a source. -/
def mark : Lexed := ⟨.sign .semicolon, 0⟩

/-- The error at such a semicolon. -/
def markFound : SourceError := .unexpectedToken (.sign .semicolon) 0

/-- The tokens with two such semicolons in place of every comment. A single one could
    be taken for one of the two in the header of a loop. -/
def marked (ts : List Lexed) : List Lexed :=
  ts.flatMap fun t => if t.token.isComment then [mark, mark] else [t]

theorem marked_cons_comment {c : Lexed} (hc : c.token.isComment = true) (ts : List Lexed) :
    marked (c :: ts) = mark :: mark :: marked ts := by
  simp [marked, hc]

theorem marked_cons {t : Lexed} (ht : t.token.isComment = false) (ts : List Lexed) :
    marked (t :: ts) = t :: marked ts := by
  simp [marked, ht]

theorem marked_append (ss ts : List Lexed) : marked (ss ++ ts) = marked ss ++ marked ts :=
  List.flatMap_append

/-- The last tokens, with marks and without them. -/
theorem reverse_map_marked_concat (ts : List Lexed) (t : Lexed) :
    ((marked (ts ++ [t])).map Lexed.token).reverse =
      (if t.token.isComment then [mark.token, mark.token] else [t.token]) ++
        ((marked ts).map Lexed.token).reverse := by
  rw [marked_append, List.map_append, List.reverse_append]
  congr 1
  cases ht : t.token.isComment with
  | true =>
    rw [marked_cons_comment ht]
    rfl
  | false =>
    rw [marked_cons ht]
    rfl

/-- Neither a mark nor a comment opens a header. -/
theorem any_opensHeader_marked (ts : List Lexed) :
    ((marked ts).getLast?.map Lexed.token).any Token.opensHeader =
      (ts.getLast?.map Lexed.token).any Token.opensHeader := by
  induction ts using List.reverseRecOn with
  | nil => rfl
  | append_singleton ts t =>
    obtain ⟨token, line⟩ := t
    rw [marked_append, List.getLast?_concat]
    cases token <;> simp [marked, Token.isComment, mark, Token.opensHeader]

/-- The way back leads over marks as over comments. -/
theorem closesOperand_marked (depth : Nat) (ts : List Lexed) :
    Token.closesOperand depth ((marked ts).map Lexed.token).reverse =
      Token.closesOperand depth (ts.map Lexed.token).reverse := by
  induction ts using List.reverseRecOn generalizing depth with
  | nil => rfl
  | append_singleton ts t ih =>
    have hhead := any_opensHeader_marked ts
    rw [reverse_map_marked_concat, List.map_append, List.reverse_append]
    obtain ⟨token, line⟩ := t
    cases token with
    | sign sg => cases sg <;> cases depth <;> simp [Token.isComment, Token.closesOperand, ih, hhead]
    | _ => simp [Token.isComment, Token.closesOperand, mark, ih]

/-- Marks in the place of comments do not change what goes on with what was read. -/
theorem goesOn_marked (ts : List Lexed) (next : Token) :
    Token.goesOn ((marked ts).map Lexed.token).reverse next =
      Token.goesOn (ts.map Lexed.token).reverse next := by
  induction ts using List.reverseRecOn with
  | nil => rfl
  | append_singleton ts t =>
    have hback := closesOperand_marked 0 ts
    rw [reverse_map_marked_concat, List.map_append, List.reverse_append]
    obtain ⟨token, line⟩ := t
    cases token with
    | sign sg => cases sg <;> simp [Token.isComment, Token.goesOn, Token.endsOperand, hback]
    | _ => rfl

/-- No token after comments goes on with what stands before them. -/
def Separated (ts : List Lexed) : Prop :=
  ∀ before comments next after, ts = before ++ (comments ++ next :: after) → comments ≠ [] →
    (∀ c ∈ comments, c.token.isComment = true) →
    Token.goesOn (before.map Lexed.token).reverse next.token = false

/-- The same after the tokens of `read`, the last one first. -/
def SeparatedAfter (read : List Token) (ts : List Lexed) : Prop :=
  ∀ before comments next after, ts = before ++ (comments ++ next :: after) → comments ≠ [] →
    (∀ c ∈ comments, c.token.isComment = true) →
    Token.goesOn ((before.map Lexed.token).reverse ++ read) next.token = false

theorem separated_iff {ts : List Lexed} : Separated ts ↔ SeparatedAfter [] ts := by
  simp only [Separated, SeparatedAfter, List.append_nil]

theorem separatedAfter_cons {read : List Token} {t : Lexed} {ts : List Lexed} :
    SeparatedAfter read (t :: ts) ↔
      (t.token.isComment = true → ∀ next ∈ (ts.dropWhile fun c => c.token.isComment).head?,
        Token.goesOn read next.token = false) ∧ SeparatedAfter (t.token :: read) ts := by
  constructor
  · refine fun h => ⟨fun hcomment next hnext => ?_, ?_⟩
    · obtain ⟨after, hafter⟩ := List.head?_eq_some_iff.mp hnext
      refine h [] (t :: ts.takeWhile fun c => c.token.isComment) next after ?_
        (List.cons_ne_nil _ _) ?_
      · rw [List.nil_append, List.cons_append, ← hafter, List.takeWhile_append_dropWhile]
      · rintro c (_ | ⟨_, hc⟩)
        · exact hcomment
        · exact List.mem_takeWhile_imp (p := fun c : Lexed => c.token.isComment) hc
    · intro before comments next after hts hne hcomments
      have hgoesOn := h (t :: before) comments next after (by rw [hts]; rfl) hne hcomments
      rwa [List.map_cons, List.reverse_cons, List.append_assoc] at hgoesOn
  · rintro ⟨hfirst, hrest⟩ before comments next after hts hne hcomments
    cases before with
    | nil =>
      by_cases hnext : next.token.isComment = true
      · exact Token.goesOn_comment hnext
      obtain ⟨c, cs, rfl⟩ := List.exists_cons_of_ne_nil hne
      rw [List.nil_append, List.cons_append] at hts
      obtain ⟨rfl, rfl⟩ := List.cons.inj hts
      refine hfirst (hcomments t List.mem_cons_self) next ?_
      rw [List.dropWhile_append_of_pos fun c hc => hcomments c (List.mem_cons_of_mem _ hc),
        List.dropWhile_cons_of_neg (p := fun c : Lexed => c.token.isComment) hnext]
      rfl
    | cons b before =>
      obtain ⟨rfl, rfl⟩ := List.cons.inj hts
      rw [List.map_cons, List.reverse_cons, List.append_assoc]
      exact hrest before comments next after rfl hne hcomments

instance decidableSeparatedAfter : (read : List Token) → (ts : List Lexed) →
    Decidable (SeparatedAfter read ts)
  | _, [] => isTrue fun before _ _ _ h => by
    have hne := congrArg List.length h
    simp at hne
  | read, t :: ts =>
    have := decidableSeparatedAfter (t.token :: read) ts
    decidable_of_iff _ separatedAfter_cons.symm

instance (ts : List Lexed) : Decidable (Separated ts) := decidable_of_iff _ separated_iff.symm

/-! ## Errors are only added -/

/-- A parser only adds to the errors found before. -/
class Grows (p : Parser α) : Prop where
  grows {s t : State} {r : Except SourceError α} :
    outcome p s = some (r, t) → s.errors.toList <+: t.errors.toList

theorem prefix_recorded (e : SourceError) (errors : Array SourceError) :
    errors.toList <+: (recorded e errors).toList := by
  rw [toList_recorded]
  split
  · exact List.prefix_refl _
  · exact List.prefix_append _ _

namespace Grows

theorem of_errors_eq {p : Parser α}
    (h : ∀ s r t, outcome p s = some (r, t) → t.errors = s.errors) : Grows p :=
  ⟨fun hrun => h _ _ _ hrun ▸ List.prefix_refl _⟩

instance : Grows (exhausted : Parser α) := of_errors_eq fun _ _ _ hrun => by cases hrun

instance (a : α) : Grows (pure a : Parser α) := of_errors_eq fun _ _ _ hrun => by cases hrun; rfl

instance : Grows (unexpected : Parser α) := by
  refine of_errors_eq fun s _ _ hrun => ?_
  rw [outcome_unexpected] at hrun
  cases hrun
  rfl

theorem bind {p : Parser α} {f : α → Parser β} (hp : Grows p) (hf : ∀ a, Grows (f a)) :
    Grows (p >>= f) := by
  refine ⟨fun hrun => ?_⟩
  rcases outcome_bind_eq_some.mp hrun with ⟨a, t, hfirst, hsecond⟩ | ⟨e, hfirst, -⟩
  · exact (hp.grows hfirst).trans ((hf a).grows hsecond)
  · exact hp.grows hfirst

instance {p : Parser α} {f : α → Parser β} [Grows p] [∀ a, Grows (f a)] : Grows (p >>= f) :=
  bind inferInstance inferInstance

instance {c : Prop} [Decidable c] {p q : Parser α} [Grows p] [Grows q] :
    Grows (if c then p else q) := by
  split <;> infer_instance

theorem get_bind {f : State → Parser α} (h : ∀ s, Grows (f s)) : Grows (get >>= f) :=
  ⟨fun hrun => (h _).grows hrun⟩

/-- A step that meets no error. -/
theorem of_run {p : Step α}
    (h : ∀ s a t, p.run s = some (a, t) → s.errors.toList <+: t.errors.toList) :
    Grows (liftM p) := by
  refine ⟨fun hrun => ?_⟩
  obtain ⟨a, hrun, -⟩ := outcome_lift_eq_some.mp hrun
  exact h _ a _ hrun

theorem run {p : Step α} (hp : Grows (liftM p)) {s t : State} {a : α}
    (hrun : p.run s = some (a, t)) : s.errors.toList <+: t.errors.toList :=
  hp.grows (outcome_lift_eq_some.mpr ⟨a, hrun, rfl⟩)

instance : Grows (liftM peek) := of_errors_eq fun _ _ _ hrun => by cases hrun; rfl

instance : Grows (liftM advance) := of_errors_eq fun _ _ _ hrun => by cases hrun; rfl

instance (sg : Sign) : Grows (liftM (sees sg)) := of_errors_eq fun _ _ _ hrun => by cases hrun; rfl

instance (line : Nat) (form : Form Node) : Grows (liftM (node line form)) :=
  of_errors_eq fun _ _ _ hrun => by cases hrun; rfl

instance (accept? : Token → Option α) : Grows (take accept?) := by
  refine of_errors_eq fun s _ _ hrun => ?_
  cases haccept : s.ahead.head?.bind fun t => accept? t.token with
  | none =>
    rw [outcome_take_none haccept, outcome_unexpected] at hrun
    cases hrun
    rfl
  | some a =>
    obtain ⟨x, hx, ha⟩ := Option.bind_eq_some_iff.mp haccept
    obtain ⟨tail, hahead⟩ := List.head?_eq_some_iff.mp hx
    rw [outcome_take_some hahead ha] at hrun
    cases hrun
    rfl

instance (sg : Sign) : Grows (sign sg) := by
  unfold sign
  infer_instance

instance : Grows name := by
  unfold name
  infer_instance

instance : Grows typeName := by
  unfold typeName
  infer_instance

instance : Grows typedName := by
  unfold typedName
  infer_instance

instance (fuel : Nat) : Grows (moreParams fuel) := by
  induction fuel with
  | zero =>
    rw [moreParams]
    infer_instance
  | succ fuel ih =>
    rw [moreParams]
    infer_instance

instance (fuel : Nat) : Grows (paramList fuel) := by
  unfold paramList
  infer_instance

section Succ

variable {fuel : Nat} (h : ∀ r : Rule, Grows (r.parser fuel))

include h

theorem statements_succ (nested : Bool) :
    Grows (liftM (Parser.statements nested (fuel + 1))) := by
  have hrest {s t : State} {ns : List Node}
      (hrun : (Parser.statements nested fuel).run s = some (ns, t)) :
      s.errors.toList <+: t.errors.toList := (h (.statements nested)).run hrun
  refine of_run fun s ns u hrun => ?_
  cases passes_of_run_statements hrun with
  | nil | closed => exact List.prefix_refl _
  | separator _ _ hrun => exact (hrest hrun :)
  | next _ _ _ hn hrun => exact ((h .statement).grows hn).trans (hrest hrun)
  | failed _ _ _ he hrun =>
    exact ((h .statement).grows he).trans ((prefix_recorded _ _).trans (hrest hrun))

theorem block_succ (nested : Bool) : Grows (liftM (Parser.block nested (fuel + 1))) := by
  refine of_run fun s b u hrun => ?_
  obtain ⟨ns, t, hstatements, -, rfl⟩ := exists_of_run_block hrun
  exact ((h (.statements nested)).run hstatements :)

theorem statement_succ : Grows (Parser.statement (fuel + 1)) := by
  have hstatement : Grows (Parser.statement fuel) := h .statement
  have hparenthesized : Grows (Parser.parenthesized fuel) := h .parenthesized
  have hbraced : Grows (Parser.braced fuel) := h .braced
  have hoperand (level : Level) : Grows (Parser.operand fuel level) := h (.operand level)
  rw [Parser.statement]
  refine .get_bind fun s => ?_
  split
  iterate 6 infer_instance
  · -- the header of a loop
    refine .bind inferInstance fun _ => .bind inferInstance fun _ => .bind inferInstance fun _ => ?_
    infer_instance
  iterate 5 infer_instance

theorem primary_succ : Grows (Parser.primary (fuel + 1)) := by
  have hstatement : Grows (Parser.statement fuel) := h .statement
  have hoperand (level : Level) : Grows (Parser.operand fuel level) := h (.operand level)
  have hmoreArgs : Grows (Parser.moreArgs fuel) := h .moreArgs
  rw [Parser.primary]
  refine .get_bind fun s => ?_
  split
  · refine .bind inferInstance fun _ => .bind inferInstance fun _ => .bind inferInstance fun _ => ?_
    infer_instance
  · infer_instance
  · infer_instance
  · refine .bind inferInstance fun _ => .bind inferInstance fun _ => .bind inferInstance fun _ => ?_
    infer_instance
  · infer_instance
  · split <;> infer_instance
  · infer_instance

theorem operators_succ (level : Level) (left : Node) :
    Grows (Parser.operators (fuel + 1) level left) := by
  have htighter : Grows (Parser.tighter fuel level) := h (.tighter level)
  have hoperators (left : Node) : Grows (Parser.operators fuel level left) :=
    h (.operators level left)
  rw [Parser.operators]
  refine .bind inferInstance fun next => ?_
  split
  · infer_instance
  · split <;> infer_instance

theorem power_succ : Grows (Parser.power (fuel + 1)) := by
  have hprimary : Grows (Parser.primary fuel) := h .primary
  have hpower : Grows (Parser.power fuel) := h .power
  rw [Parser.power]
  refine .bind inferInstance fun base => .bind inferInstance fun next => ?_
  split <;> infer_instance

end Succ

/-- **Every rule only adds to the errors** found before. -/
theorem rule (fuel : Nat) (r : Rule) : Grows (r.parser fuel) := by
  induction fuel, r using Rule.induction with
  | exhausted r =>
    rw [r.parser_zero]
    infer_instance
  | statement fuel h => exact statement_succ h
  | parenthesized fuel h =>
    have hstatement : Grows (Parser.statement fuel) := h .statement
    rw [Rule.parser, Parser.parenthesized]
    infer_instance
  | braced fuel h =>
    have hblock : Grows (liftM (Parser.block true fuel)) := h (.block true)
    rw [Rule.parser, Parser.braced]
    infer_instance
  | block fuel nested h => exact block_succ h nested
  | statements fuel nested h => exact statements_succ h nested
  | operand fuel level h => exact bind (h (.tighter level)) fun left => h (.operators level left)
  | operators fuel level left h => exact operators_succ h level left
  | tighter fuel level h =>
    cases level with
    | relation => exact h (.operand .sum)
    | sum => exact h (.operand .product)
    | product => exact h .power
  | power fuel h => exact power_succ h
  | primary fuel h => exact primary_succ h
  | moreArgs fuel h =>
    have hoperand : Grows (Parser.operand fuel .relation) := h (.operand .relation)
    have hmoreArgs : Grows (Parser.moreArgs fuel) := h .moreArgs
    rw [Rule.parser, Parser.moreArgs]
    infer_instance

instance (fuel : Nat) : Grows (statement fuel) := rule fuel .statement

instance (fuel : Nat) : Grows (braced fuel) := rule fuel .braced

instance (nested : Bool) (fuel : Nat) : Grows (liftM (block nested fuel)) :=
  rule fuel (.block nested)

instance (nested : Bool) (fuel : Nat) : Grows (liftM (statements nested fuel)) :=
  rule fuel (.statements nested)

instance (fuel : Nat) (level : Level) : Grows (operand fuel level) := rule fuel (.operand level)

instance (fuel : Nat) (level : Level) (left : Node) : Grows (operators fuel level left) :=
  rule fuel (.operators level left)

instance (fuel : Nat) : Grows (power fuel) := rule fuel .power

instance (fuel : Nat) : Grows (moreArgs fuel) := rule fuel .moreArgs

end Grows

/-! ## Marks are found -/

/-- A parser that comes to something finds a mark that comes next. -/
def Trips (p : Parser α) : Prop :=
  ∀ s tail r, s.ahead = mark :: tail → outcome p s = some r → r = (.error markFound, s)

namespace Trips

theorem exhausted : Trips (exhausted : Parser α) := by
  intro _ _ _ _ hrun
  cases hrun

theorem unexpected : Trips (unexpected : Parser α) := by
  intro s tail r hs hrun
  rw [outcome_unexpected_cons hs] at hrun
  cases hrun
  rfl

theorem of_outcome_eq {p q : Parser α} (hq : Trips q)
    (h : ∀ s tail, s.ahead = mark :: tail → outcome p s = outcome q s) : Trips p :=
  fun s tail r hs hrun => hq s tail r hs (h s tail hs ▸ hrun)

theorem bind {p : Parser α} (hp : Trips p) (f : α → Parser β) : Trips (p >>= f) := by
  rintro s tail ⟨r, u⟩ hs hrun
  rcases outcome_bind_eq_some.mp hrun with ⟨a, t, hfirst, -⟩ | ⟨e, hfirst, rfl⟩
  · cases hp s tail _ hs hfirst
  · cases hp s tail _ hs hfirst
    rfl

theorem take {accept? : Token → Option α} (h : accept? (.sign .semicolon) = none) :
    Trips (take accept?) :=
  of_outcome_eq unexpected fun _ _ hs => outcome_take_none (by rw [hs]; exact h)

theorem sign {sg : Sign} (h : sg ≠ .semicolon) : Trips (sign sg) :=
  bind (take (if_neg fun heq => h (Token.sign.inj heq).symm)) _

theorem typedName : Trips typedName := bind (take rfl) _

theorem primary (fuel : Nat) : Trips (primary fuel) := by
  cases fuel with
  | zero => exact exhausted
  | succ fuel =>
    refine of_outcome_eq unexpected fun s tail hs => ?_
    rw [Parser.primary, outcome_get_bind]
    simp only [hs]
    rfl

theorem power (fuel : Nat) : Trips (power fuel) := by
  cases fuel with
  | zero => exact exhausted
  | succ fuel => exact bind (primary fuel) _

theorem operand (fuel : Nat) (level : Level) : Trips (operand fuel level) := by
  have hboth (level : Level) :
      Trips (Parser.operand fuel level) ∧ Trips (Parser.tighter fuel level) := by
    induction fuel generalizing level with
    | zero => exact ⟨exhausted, exhausted⟩
    | succ fuel ih =>
      refine ⟨bind (ih level).2 _, ?_⟩
      cases level with
      | relation => exact (ih .sum).1
      | sum => exact (ih .product).1
      | product => exact power fuel
  exact (hboth level).1

theorem statement (fuel : Nat) : Trips (statement fuel) := by
  cases fuel with
  | zero => exact exhausted
  | succ fuel =>
    refine of_outcome_eq (operand fuel .relation) fun s tail hs => ?_
    exact outcome_statement_operand hs rfl fun _ hname => by cases hname

end Trips

end Parser

end Scriptlet
