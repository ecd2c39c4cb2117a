import Scriptlet.Proofs.Abreast
import Scriptlet.Proofs.Parentheses

/-!
# Comments between statements in the grammar

Two parsers that are abreast go through the rules of the grammar together. Two places
need more than that both read the same tokens. After an operand, and after a name,
the first parser ends the phrase at a semicolon that stands for a comment, and the second
one at whatever comes after the comment, which is no operator and says nothing about the
name. That an operand was read shows in the last token, unless this is a parenthesis: then
`Pairing.all` finds the one that was opened. Between statements the first parser passes over
the two semicolons, and the second one reads the comment as a statement that does not count,
or does nothing.

Results:
* `Parser.InPace.all`: the two parsers stay in pace in every rule.
* `Parser.recommented_parse`: two parsers that read the same tokens up to comments
  between statements find the same statements and errors.
-/

namespace Scriptlet

namespace Parser

variable {α β γ δ : Type}

/-! ## Where a phrase ends -/

/-- An operand may end with the last one of the tokens that the first parser has read. -/
def Ended (S : Screen) (s : State) : Prop :=
  ∃ read : List Lexed, read ++ s.ahead = marked S.tokens ∧
    Token.endsOperand (read.map Lexed.token).reverse = true

theorem Ended.of_ahead_eq {S : Screen} {s t : State} (h : Ended S s) (ht : t.ahead = s.ahead) :
    Ended S t := by
  unfold Ended
  rwa [ht]

section Places

variable {S : Screen} {s s' : State} {next : Token}

/-- What goes on with what was read comes next for both parsers or for none of them. -/
theorem Aligned.head?_eq_iff (h : Aligned S s s') {read : List Lexed}
    (hread : read ++ s.ahead = marked S.tokens)
    (hnext : Token.goesOn (read.map Lexed.token).reverse next = true) :
    s.ahead.head?.map Lexed.token = some next ↔ s'.ahead.head?.map Lexed.token = some next := by
  by_cases hmark : s.ahead.head? = some mark
  · obtain ⟨tail, hahead⟩ := List.head?_eq_some_iff.mp hmark
    refine ⟨fun hs => ?_, fun hs' => ?_⟩
    · -- a semicolon goes on with no phrase
      rw [hmark] at hs
      cases hs
      rw [Token.goesOn, show (mark.token.isOperator) = false from rfl,
        show (mark.token.followsName) = false from rfl, Bool.and_false, Bool.and_false] at hnext
      cases hnext
    · obtain ⟨y, tail', hahead', rfl⟩ := exists_of_head? hs'
      have hreads := h.reads
      rw [hahead, hahead'] at hreads
      rw [hreads.goesOn_eq_false (hahead ▸ hread)] at hnext
      cases hnext
  · rw [h.head?_eq hmark]

/-- Operators come next for both parsers or for none of them. -/
theorem Aligned.operator_iff (h : Aligned S s s') (hended : Ended S s)
    (hnext : next.isOperator = true) :
    s.ahead.head?.map Lexed.token = some next ↔ s'.ahead.head?.map Lexed.token = some next := by
  obtain ⟨read, hread, hend⟩ := hended
  refine h.head?_eq_iff hread ?_
  rw [Token.goesOn, hend, hnext]
  rfl

/-- After a name, what says something about it comes next for both or for none. -/
theorem Aligned.follows_iff (h : Aligned S s s') {x : String} {line : Nat}
    (hname : ⟨.name x, line⟩ :: s.ahead <:+ marked S.tokens) (hnext : next.followsName = true) :
    s.ahead.head?.map Lexed.token = some next ↔ s'.ahead.head?.map Lexed.token = some next := by
  obtain ⟨before, hbefore⟩ := hname
  have hread : (before ++ [⟨.name x, line⟩]) ++ s.ahead = marked S.tokens := by
    simpa using hbefore
  refine h.head?_eq_iff hread ?_
  rw [List.map_append, List.reverse_append, Token.goesOn, hnext, Bool.and_true,
    show ((List.map Lexed.token [⟨.name x, line⟩]).reverse ++ _).head?.any Token.isName = true
      from rfl, Bool.or_true]

/-- **An operand ends with a token that may end an operand**, as it does not begin with the
    parenthesis of a header. -/
theorem Abreast.ended_of_primary (h : Abreast S s s') {fuel : Nat} {n : Node} {t : State}
    (hrun : outcome (primary fuel) s = some (.ok n, t)) : Ended S t := by
  obtain ⟨read, hread, -, hclosed⟩ := Pairing.all fuel .primary s _ _ hrun
  obtain ⟨before, hbefore⟩ := h.reads.suffix
  refine ⟨before ++ read, by rw [List.append_assoc, ← hread, hbefore], ?_⟩
  rw [List.map_append, List.reverse_append]
  refine (hclosed n rfl trivial).2 _ fun hopen => ?_
  by_contra hheader
  -- the word of the header stands before what was read
  rw [List.head?_reverse, List.getLast?_map] at hheader
  cases hlast : before.getLast? with
  | none => simp [hlast] at hheader
  | some x =>
    obtain ⟨front, rfl⟩ := List.getLast?_eq_some_iff.mp hlast
    have hword : x.token.opensHeader = true := by simpa using hheader
    refine h.clear x ⟨front, by simpa using hbefore⟩ hword ?_
    rw [hread]
    cases read with
    | nil => cases hopen
    | cons y read => exact hopen

end Places

/-! ## The rules -/

/-- A mark that stops a statement is recorded. -/
theorem Stained.resume {e : SourceError} {u : State}
    (h : Stained ((.error e, u) : Except SourceError α × State)) (nested : Bool) (length : Nat) :
    markFound ∈ (Parser.resume nested length e u).errors.toList := by
  show markFound ∈ (recorded e u.errors).toList
  rcases h with hmark | he
  · exact (prefix_recorded e u.errors).subset hmark
  · cases he
    rw [toList_recorded]
    simp [markFound]

/-- A comment is a statement. -/
theorem eq_of_statement_comment {fuel line : Nat} {s : State} {text : String}
    {rest : List Lexed} {r : Except SourceError Node × State}
    (hs : s.ahead = ⟨.comment text, line⟩ :: rest) (h : outcome (statement fuel) s = some r) :
    r = (.ok ⟨s.nextId, line, .comment text⟩,
      { s with ahead := rest, nextId := s.nextId + 1 }) := by
  cases fuel with
  | zero =>
    rw [statement] at h
    cases h
  | succ fuel =>
    rw [statement, outcome_get_bind] at h
    simp only [hs] at h
    rw [outcome_advance_bind, outcome_node, hs] at h
    exact (Option.some.inj h).symm

/-- What begins with a token reads it. -/
theorem lt_of_outcome_advance {p : Unit → Parser α} {s t : State} {x : Lexed} {tail : List Lexed}
    {r : Except SourceError α} (hs : s.ahead = x :: tail)
    (hp : ∀ s, Covers s (fun _ => True) (p ()))
    (h : outcome (liftM advance >>= p) s = some (r, t)) : t.ahead.length < s.ahead.length := by
  obtain ⟨read, hread, -⟩ := hp _ _ _ h
  have hlength := congrArg List.length hread
  simp only [hs, List.tail_cons, List.length_append] at hlength
  rw [hs, List.length_cons]
  omega

/-- A statement with a header reads at least its first word. -/
theorem lt_of_outcome_statement {fuel line : Nat} {s t : State} {token : Token}
    {tail : List Lexed} {r : Except SourceError Node} (hs : s.ahead = ⟨token, line⟩ :: tail)
    (hheader : token.opensHeader = true) (h : outcome (statement fuel) s = some (r, t)) :
    t.ahead.length < s.ahead.length := by
  cases fuel with
  | zero => cases h
  | succ fuel =>
    have hrule := Pairing.all fuel
    rw [statement, outcome_get_bind] at h
    cases token with
    | keyword k =>
      cases k with
      | print =>
        simp only [hs] at h
        refine lt_of_outcome_advance hs (fun s => ?_) h
        exact .bind (hrule .parenthesized s) fun _ _ _ => .node fun _ => trivial
      | ifWord | whileWord =>
        simp only [hs] at h
        refine lt_of_outcome_advance hs (fun s => ?_) h
        refine .bind (hrule .parenthesized s) fun _ s _ => ?_
        exact .bind (hrule .braced s) fun _ _ _ => .node fun _ _ => trivial
      | forWord =>
        simp only [hs] at h
        refine lt_of_outcome_advance hs (fun s => ?_) h
        refine .bind (.sign .openParen) fun _ s _ => .bind (hrule .statement s) fun _ s _ => ?_
        refine .bind (.sign .semicolon) fun _ s _ => .bind (hrule .statement s) fun _ s _ => ?_
        refine .bind (.sign .semicolon) fun _ s _ => .bind (hrule .statement s) fun _ s _ => ?_
        refine .bind (.sign .closeParen) fun _ s _ => .bind (hrule .braced s) fun _ _ _ => ?_
        exact .node fun _ _ _ _ _ _ _ _ => trivial
      | _ => cases hheader
    | _ => cases hheader

/-- The results of two rules for statements. -/
abbrev Statements (m n : Node) (_ _ : State) : Prop := m.Recommented n

/-- The results of two rules for operands. -/
def Operands (S : Screen) (m n : Node) (t _ : State) : Prop := m.Recommented n ∧ Ended S t

/-- Making the node of an operand. -/
theorem Together.operands {S : Screen} {s s' t t' : State} {p p' : Parser Node}
    (hended : Ended S s) (h : Together S
      (fun m n t t' => m.Recommented n ∧ t.ahead = s.ahead ∧ t'.ahead = s'.ahead) t t' p p') :
    Together S (Operands S) t t' p p' :=
  h.imp fun _ _ _ _ hnode => ⟨hnode.1, hended.of_ahead_eq hnode.2.1⟩

/-- Making the node of a statement. -/
theorem Together.statements {S : Screen} {s s' t t' : State} {p p' : Parser Node}
    (h : Together S
      (fun m n t t' => m.Recommented n ∧ t.ahead = s.ahead ∧ t'.ahead = s'.ahead) t t' p p') :
    Together S Statements t t' p p' :=
  h.imp fun _ _ _ _ => And.left

/-- The two parsers stay in pace in a rule. -/
def Marches (S : Screen) (Q : α → β → State → State → Prop) (p : Parser α) (p' : Parser β) :
    Prop :=
  ∀ s s', Abreast S s s' → Together S Q s s' p p'

theorem Marches.of_extends {S : Screen} {Q : α → β → State → State → Prop} {p : Parser α}
    {p' q' : Parser β} (h : Marches S Q p q') (hmore : Extends p' q') : Marches S Q p p' :=
  fun s s' hs r r' hrun hrun' => h s s' hs r r' hrun (hmore s' r' hrun')

/-- How the results of two blocks are related, unless the first parser finds a mark. -/
def EndsAlike (S : Screen) (Q : α → β → Prop) (p : Step α) (p' : Step β) : Prop :=
  ∀ s s' a t a' t', Abreast S s s' → p.run s = some (a, t) → p'.run s' = some (a', t') →
    markFound ∈ t.errors.toList ∨ Abreast S t t' ∧ Q a a'

/-- A block, and then a parser that only adds to the errors. -/
theorem EndsAlike.bind {S : Screen} {P : γ → δ → Prop} {Q : α → β → State → State → Prop}
    {s s' : State} {m : Step γ} {m' : Step δ} {f : γ → Parser α} {f' : δ → Parser β}
    [∀ c, Grows (f c)] (hm : EndsAlike S P m m') (hs : Abreast S s s')
    (hf : ∀ c d t t', Abreast S t t' → P c d → Together S Q t t' (f c) (f' d)) :
    Together S Q s s' (liftM m >>= f) (liftM m' >>= f') := by
  refine Together.bind (P := fun c d _ _ => P c d) ?_ hf
  rintro ⟨r, t⟩ ⟨r', t'⟩ hrun hrun'
  obtain ⟨c, hc, rfl⟩ := outcome_lift_eq_some.mp hrun
  obtain ⟨d, hd, rfl⟩ := outcome_lift_eq_some.mp hrun'
  rcases hm s s' c t d t' hs hc hd with hmark | ⟨ht, hcd⟩
  · exact .stained (.inl hmark)
  · exact .ok ht hcd

/-- The same statements but for the comments among them. -/
def SameStatements (ms ns : List Node) : Prop :=
  List.Forall₂ Node.Recommented (ms.filter fun n => !n.isComment)
    (ns.filter fun n => !n.isComment)

theorem SameStatements.cons {m n : Node} {ms ns : List Node} (hmn : m.Recommented n)
    (h : SameStatements ms ns) : SameStatements (m :: ms) (n :: ns) := by
  unfold SameStatements at h ⊢
  rw [List.filter_cons, List.filter_cons, hmn.isComment_eq]
  split
  · exact .cons hmn h
  · exact h

/-- A comment more on the second side. -/
theorem SameStatements.comment {ms ns : List Node} (id line : Nat) (text : String)
    (h : SameStatements ms ns) : SameStatements ms (⟨id, line, .comment text⟩ :: ns) := by
  unfold SameStatements at h ⊢
  rwa [List.filter_cons_of_neg (by simp [Node.isComment])]

/-- The two parsers stay in pace in every rule, each under its own bound. -/
def InPace (S : Screen) (fuel fuel' : Nat) : Rule → Prop
  | .statement => Marches S Statements (statement fuel) (statement fuel')
  | .parenthesized => ∀ s s', Aligned S s s' →
      Together S Statements s s' (parenthesized fuel) (parenthesized fuel')
  | .braced => Marches S Statements (braced fuel) (braced fuel')
  | .block nested => EndsAlike S Node.Recommented (block nested fuel) (block nested fuel')
  | .statements nested =>
    EndsAlike S SameStatements (statements nested fuel) (statements nested fuel')
  | .operand level => Marches S (Operands S) (operand fuel level) (operand fuel' level)
  | .operators level left => ∀ left' s s', left.Recommented left' → Ended S s → Abreast S s s' →
      Together S (Operands S) s s' (operators fuel level left) (operators fuel' level left')
  | .tighter level => Marches S (Operands S) (tighter fuel level) (tighter fuel' level)
  | .power => Marches S (Operands S) (power fuel) (power fuel')
  | .primary => Marches S (Operands S) (primary fuel) (primary fuel')
  | .moreArgs => Marches S (fun ms ns _ _ => List.Forall₂ Node.Recommented ms ns)
      (moreArgs fuel) (moreArgs fuel')

namespace InPace

section Succ

variable {S : Screen} {fuel fuel' : Nat} (h : ∀ r, InPace S fuel fuel' r)

include h

theorem parenthesized_succ (s s' : State) (hs : Aligned S s s') :
    Together S Statements s s' (Parser.parenthesized (fuel + 1))
      (Parser.parenthesized (fuel' + 1)) := by
  rw [Parser.parenthesized, Parser.parenthesized]
  refine .bind (.opening hs) fun _ _ t t' ht _ => ?_
  refine .bind (h .statement _ _ ht) ?_
  refine fun n n' t t' ht hn => ?_
  refine .bind (.sign (by decide) ht) fun _ _ t t' ht _ => ?_
  exact .pure ht hn

theorem tighter_succ (level : Level) : Marches S (Operands S) (Parser.tighter (fuel + 1) level)
    (Parser.tighter (fuel' + 1) level) := by
  cases level with
  | relation => exact h (.operand .sum)
  | sum => exact h (.operand .product)
  | product => exact h .power

theorem operand_succ (level : Level) : Marches S (Operands S) (Parser.operand (fuel + 1) level)
    (Parser.operand (fuel' + 1) level) := by
  intro s s' hs
  rw [Parser.operand, Parser.operand]
  refine .bind (h (.tighter level) _ _ hs) ?_
  rintro left left' t t' ht ⟨hleft, hended⟩
  exact h (.operators level left) left' t t' hleft hended ht

theorem operators_succ (level : Level) (left left' : Node) (s s' : State)
    (hleft : left.Recommented left') (hended : Ended S s) (hs : Abreast S s s') :
    Together S (Operands S) s s' (Parser.operators (fuel + 1) level left)
      (Parser.operators (fuel' + 1) level left') := by
  by_cases hdone : ∀ t, s.ahead.head?.map Lexed.token = some t → level.operator? t = none
  · have hdone' : ∀ t, s'.ahead.head?.map Lexed.token = some t → level.operator? t = none := by
      intro t ht
      by_contra hsome
      obtain ⟨form, hform⟩ := Option.ne_none_iff_exists'.mp hsome
      have hoperator := Token.isOperator_of_operator? hform
      exact hsome (hdone t ((hs.operator_iff hended hoperator).mpr ht))
    exact .of_eq (outcome_operators_done hdone) (outcome_operators_done hdone')
      (.ok hs ⟨hleft, hended⟩)
  · simp only [not_forall] at hdone
    obtain ⟨t, ht, hop⟩ := hdone
    obtain ⟨form, hform⟩ := Option.ne_none_iff_exists'.mp hop
    obtain ⟨x, tail, hahead, rfl⟩ := exists_of_head? ht
    have hx : x ≠ mark := by
      rintro rfl
      cases level <;> cases hform
    have hother : x.token.opensHeader = false := by
      obtain ⟨token, line⟩ := x
      cases token <;> first | rfl | (cases level <;> cases hform)
    obtain ⟨tail', hahead', -⟩ := hs.cons hahead hx
    rw [Parser.operators, Parser.operators]
    refine .peek_bind ?_
    simp only [hahead, hahead', List.head?_cons, hform]
    refine .advance_bind hs hahead hx hother fun t t' ht _ => ?_
    refine .bind (h (.tighter level) _ _ ht) ?_
    rintro right right' t t' ht ⟨hright, hended⟩
    refine .node_bind ht (fun _ _ => ?_) fun m m' u u' hu hahead hahead' hm => ?_
    · exact .operator (Level.operator?_eq_some hform) rfl rfl rfl hleft hright
    · exact h (.operators level m) m' u u' hm (hended.of_ahead_eq hahead) hu

theorem power_succ :
    Marches S (Operands S) (Parser.power (fuel + 1)) (Parser.power (fuel' + 1)) := by
  intro s s' hs
  rw [Parser.power, Parser.power]
  refine .bind_of_grows (fun base => .bind inferInstance fun next => ?_)
    (h .primary _ _ hs) ?_
  · split <;> infer_instance
  rintro base base' t t' ht ⟨hbase, hended⟩
  refine .peek_bind ?_
  have hoperator : (Token.sign .caret).isOperator = true := rfl
  have hiff := ht.operator_iff hended hoperator
  by_cases hcaret : t.ahead.head?.map Lexed.token = some (.sign .caret)
  · obtain ⟨⟨_, line⟩, tail, hahead, rfl⟩ := exists_of_head? hcaret
    obtain ⟨tail', hahead', -⟩ := ht.cons hahead (by rintro ⟨⟩)
    simp only [hahead, hahead', List.head?_cons]
    refine .advance_bind ht hahead (by rintro ⟨⟩) rfl fun t t' ht _ => ?_
    refine .bind (h .power _ _ ht) ?_
    rintro exponent exponent' t t' ht ⟨hexponent, hended⟩
    refine (Together.node ht fun _ _ => ?_).operands hended
    exact .operator (.inr ⟨.pow, rfl⟩) rfl rfl rfl hbase hexponent
  · have hcaret' := fun hs' => hcaret (hiff.mpr hs')
    split
    · next hhead => exact absurd (by rw [hhead]; rfl) hcaret
    split
    · next hhead => exact absurd (by rw [hhead]; rfl) hcaret'
    exact .pure ht ⟨hbase, hended⟩

theorem moreArgs_succ :
    Marches S (fun ms ns _ _ => List.Forall₂ Node.Recommented ms ns)
      (Parser.moreArgs (fuel + 1)) (Parser.moreArgs (fuel' + 1)) := by
  intro s s' hs
  rw [Parser.moreArgs, Parser.moreArgs]
  refine .sees_bind (by decide) (.bind (.sign (by decide)) _) hs (fun hcomma => ?_) ?_
  · obtain ⟨x, tail, hahead, hx⟩ := exists_of_head? hcomma
    refine .advance_bind hs hahead (by rintro rfl; cases hx) (by rw [hx]; rfl) fun t t' ht _ => ?_
    refine .bind (h (.operand .relation) _ _ ht) fun v v' t t' ht hv => ?_
    refine .bind (h .moreArgs _ _ ht) fun values values' t t' ht hvalues => ?_
    exact .pure ht (.cons hv.1 hvalues)
  · exact .bind (.sign (by decide) hs) fun _ _ t t' ht _ => .pure ht .nil

/-- A name that is called. -/
theorem call {line argsLine : Nat} {f : String} {s s' : State} {tail tail' : List Lexed}
    (hs : Abreast S s s')
    (hahead : s.ahead = ⟨.name f, line⟩ :: ⟨.sign .openParen, argsLine⟩ :: tail)
    (hahead' : s'.ahead = ⟨.name f, line⟩ :: ⟨.sign .openParen, argsLine⟩ :: tail') :
    Together S Statements s s' (Parser.primary (fuel + 1)) (Parser.primary (fuel' + 1)) := by
  rw [Parser.primary, Parser.primary]
  refine .get_bind ?_
  simp only [hahead, hahead']
  refine .advance_bind hs hahead (by rintro ⟨⟩) rfl fun t t' ht hahead => ?_
  refine .advance_bind ht hahead (by rintro ⟨⟩) rfl fun t t' ht _ => ?_
  refine .node_bind ht (fun _ _ => .leaf rfl rfl) fun m m' t t' ht _ _ hm => ?_
  refine .sees_bind (by decide) (.bind (.operand _ _) _) ht (fun hclose => ?_) ?_
  · obtain ⟨x, tail, hahead, hx⟩ := exists_of_head? hclose
    refine .advance_bind ht hahead (by rintro rfl; cases hx) (by rw [hx]; rfl) fun t t' ht _ => ?_
    refine (Together.node ht fun _ _ => ?_).statements
    exact .node (.call (m, m') none) rfl (by simpa [Form.children] using hm)
  · refine .bind (h (.operand .relation) _ _ ht) fun v v' t t' ht hv => ?_
    refine .bind (h .moreArgs _ _ ht) fun values values' t t' ht hvalues => ?_
    refine .node_bind ht (fun _ _ => .args rfl rfl rfl (.cons hv.1 hvalues)) ?_
    refine fun args args' u u' hu _ _ hargs => (Together.node hu fun _ _ => ?_).statements
    exact .node (.call (m, m') (some (args, args'))) rfl
      (by simpa [Form.children] using ⟨hm, hargs⟩)

/-- The operands that are read are the same. -/
theorem primary_recommented (s s' : State) (hs : Abreast S s s') :
    Together S Statements s s' (Parser.primary (fuel + 1)) (Parser.primary (fuel' + 1)) := by
  cases hahead : s.ahead with
  | nil =>
    exact (Together.unexpected hs).of_outcome_eq (outcome_primary_nil hahead)
      (outcome_primary_nil (hs.nil hahead))
  | cons x tail =>
    by_cases hx : x = mark
    · exact .of_trips (.primary _) (hx ▸ hahead)
    obtain ⟨token, line⟩ := x
    obtain ⟨tail', hahead', -⟩ := hs.cons hahead hx
    cases token with
    | name f =>
      obtain ⟨_, htail', htail⟩ := hs.next hahead hx rfl
      obtain rfl : tail' = _ := (List.cons.inj (hahead'.symm.trans htail')).2
      have hiff : tail.head?.map Lexed.token = some (.sign .openParen) ↔
          tail'.head?.map Lexed.token = some (.sign .openParen) :=
        htail.follows_iff (hahead ▸ hs.reads.suffix) rfl
      by_cases hcall : tail.head?.map Lexed.token = some (.sign .openParen)
      · obtain ⟨⟨_, argsLine⟩, tail, rfl, rfl⟩ := exists_of_head? hcall
        obtain ⟨tail'', htail', -⟩ := htail.cons rfl (by rintro ⟨⟩)
        obtain rfl : tail' = _ := htail'
        exact call h hs hahead hahead'
      · exact .of_eq (outcome_primary_name hahead hcall)
          (outcome_primary_name hahead' fun h => hcall (hiff.mpr h))
          (.ok (htail.fresh _ _) (.leaf rfl rfl))
    | math fn =>
      rw [Parser.primary, Parser.primary]
      refine .get_bind ?_
      simp only [hahead, hahead']
      refine .advance_bind hs hahead hx rfl fun t t' ht _ => ?_
      refine .bind (.sign (by decide) ht) fun _ _ t t' ht _ => ?_
      refine .bind (h (.operand .relation) _ _ ht) fun m m' t t' ht hm => ?_
      refine .bind (.sign (by decide) ht) fun _ _ t t' ht _ => ?_
      refine (Together.node ht fun _ _ => ?_).statements
      exact .node (.math fn (m, m')) rfl (by simpa [Form.children] using hm.1)
    | keyword k =>
      rw [Parser.primary, Parser.primary]
      refine .get_bind ?_
      cases k with
      | staticCast =>
        simp only [hahead, hahead']
        refine .advance_bind hs hahead hx rfl fun t t' ht _ => ?_
        refine .bind (.sign (by decide) ht) fun _ _ t t' ht _ => ?_
        refine .bind (h .statement _ _ ht) fun v v' t t' ht hv => ?_
        refine .bind (.sign (by decide) ht) fun _ _ t t' ht _ => ?_
        refine .bind (.typeName ht) ?_
        rintro ⟨ty, tyLine⟩ _ t t' ht rfl
        refine .bind (.sign (by decide) ht) fun _ _ t t' ht _ => ?_
        refine .node_bind ht (fun _ _ => .leaf rfl rfl) fun m m' u u' hu _ _ hm => ?_
        refine (Together.node hu fun _ _ => ?_).statements
        exact .node (.cast (v, v') (m, m')) rfl (by simpa [Form.children] using ⟨hv, hm⟩)
      | _ =>
        simp only [hahead, hahead']
        exact .unexpected hs
    | sign sg =>
      rw [Parser.primary, Parser.primary]
      refine .get_bind ?_
      cases sg with
      | openParen =>
        simp only [hahead, hahead']
        refine .advance_bind hs hahead hx rfl fun t t' ht _ => ?_
        refine .bind (h (.operand .relation) _ _ ht) fun m m' t t' ht hm => ?_
        exact .bind (.sign (by decide) ht) fun _ _ t t' ht _ => .pure ht hm.1
      | _ =>
        simp only [hahead, hahead']
        exact .unexpected hs
    | int | float | str | bool | pi =>
      rw [Parser.primary, Parser.primary]
      refine .get_bind ?_
      simp only [hahead, hahead']
      refine .advance_bind hs hahead hx rfl fun t t' ht _ => ?_
      exact (Together.node ht fun _ _ => .leaf rfl rfl).statements
    | ty | comment | lineBreak | blank =>
      rw [Parser.primary, Parser.primary]
      refine .get_bind ?_
      simp only [hahead, hahead']
      exact .unexpected hs

theorem primary_succ :
    Marches S (Operands S) (Parser.primary (fuel + 1)) (Parser.primary (fuel' + 1)) :=
  fun s s' hs => (primary_recommented h s s' hs).imp_run fun _ _ _ _ hrun hnode =>
    ⟨hnode, hs.ended_of_primary hrun⟩

theorem braced_succ :
    Marches S Statements (Parser.braced (fuel + 1)) (Parser.braced (fuel' + 1)) := by
  intro s s' hs
  rw [Parser.braced, Parser.braced]
  refine .bind (.sign (by decide) hs) fun _ _ t t' ht _ => ?_
  refine (h (.block true)).bind ht fun b b' t t' ht hb => ?_
  exact .bind (.sign (by decide) ht) fun _ _ t t' ht _ => .pure ht hb

theorem block_succ (nested : Bool) : EndsAlike S Node.Recommented
    (Parser.block nested (fuel + 1)) (Parser.block nested (fuel' + 1)) := by
  intro s s' b u b' u' hs hrun hrun'
  obtain ⟨ns, t, hns, rfl, rfl⟩ := exists_of_run_block hrun
  obtain ⟨ns', t', hns', rfl, rfl⟩ := exists_of_run_block hrun'
  rcases h (.statements nested) s s' ns t ns' t' hs hns hns' with hmark | ⟨ht, hmatch⟩
  · exact .inl hmark
  · exact .inr ⟨ht.fresh _ _, .of_statements hmatch⟩

/-- The statements at no mark. -/
theorem statements_of_passes {nested : Bool} {s s' u u' : State} {ns ns' : List Node}
    (hs : Abreast S s s') (hmark : s.ahead.head? ≠ some mark)
    (hpass : Passes nested fuel s ns u)
    (hrun' : (Parser.statements nested (fuel' + 1)).run s' = some (ns', u')) :
    markFound ∈ u.errors.toList ∨ Abreast S u u' ∧ SameStatements ns ns' := by
  have hne {x : Lexed} {tail : List Lexed} (hahead : s.ahead = x :: tail) : x ≠ mark :=
    fun hx => hmark (by rw [hahead, hx]; rfl)
  cases hpass with
  | nil hahead =>
    rw [run_statements_nil nested _ (hs.nil hahead)] at hrun'
    cases hrun'
    exact .inr ⟨hs, .nil⟩
  | closed hahead hnested hclose =>
    subst hnested
    obtain ⟨tail', hahead', -⟩ := hs.cons hahead (hne hahead)
    rw [run_statements_closed _ hahead' hclose] at hrun'
    cases hrun'
    exact .inr ⟨hs, .nil⟩
  | separator hahead hsep hrest =>
    obtain ⟨tail', hahead', htail⟩ := hs.next hahead (hne hahead) (by rw [hsep]; rfl)
    rw [run_statements_separator hahead' hsep] at hrun'
    exact h (.statements nested) _ _ _ _ _ _ htail hrest hrun'
  | next hahead hopen hsep hn hrest =>
    obtain ⟨tail', hahead', -⟩ := hs.cons hahead (hne hahead)
    have hgrows := Grows.run inferInstance hrest
    rcases exists_of_run_statements hahead' hopen hsep hrun' with
      ⟨n', v', ms', hn', hrest', rfl⟩ | ⟨e', v', he', -⟩
    · cases h .statement s s' hs _ _ hn hn' with
      | stained hstained =>
        exact .inl (hgrows.subset (hstained.resolve_right fun he => by cases he))
      | ok hv hnode =>
        rcases h (.statements nested) _ _ _ _ _ _ hv hrest hrest' with hfound | ⟨hu, hns⟩
        · exact .inl hfound
        · exact .inr ⟨hu, hns.cons hnode⟩
    · cases h .statement s s' hs _ _ hn he' with
      | stained hstained =>
        exact .inl (hgrows.subset (hstained.resolve_right fun he => by cases he))
  | @failed _ _ e v _ _ hahead hopen hsep he hrest =>
    obtain ⟨tail', hahead', -⟩ := hs.cons hahead (hne hahead)
    have hgrows := Grows.run inferInstance hrest
    rcases exists_of_run_statements hahead' hopen hsep hrun' with
      ⟨n', v', ms', hn', -⟩ | ⟨e', v', he', hrest'⟩
    · cases h .statement s s' hs _ _ he hn' with
      | stained hstained => exact .inl (hgrows.subset (hstained.resume nested _))
    · cases h .statement s s' hs _ _ he he' with
      | stained hstained => exact .inl (hgrows.subset (hstained.resume nested _))
      | error hv =>
        obtain ⟨read, hread, -⟩ := Deriving.all fuel .statement s _ _ he
        have hlength : v.ahead.length ≤ s.ahead.length := by
          rw [hread, List.length_append]
          omega
        have hresume := hs.resume hahead (hne hahead) hopen hv hlength
          (lt_of_outcome_statement hahead · he) e
        exact h (.statements nested) _ _ _ _ _ _ hresume hrest hrest'

set_option synthInstance.maxSize 512 in
/-- A loop with a header, after its first word. -/
theorem header {line : Nat} {s s' : State} (hs : Aligned S s s') :
    Together S Statements s s'
      (do
        let _ ← sign .openParen
        let start ← Parser.statement fuel
        let _ ← sign .semicolon
        let guard ← Parser.statement fuel
        let _ ← sign .semicolon
        let step ← Parser.statement fuel
        let _ ← sign .closeParen
        let body ← Parser.braced fuel
        node line (.forLoop start guard step body))
      (do
        let _ ← sign .openParen
        let start ← Parser.statement fuel'
        let _ ← sign .semicolon
        let guard ← Parser.statement fuel'
        let _ ← sign .semicolon
        let step ← Parser.statement fuel'
        let _ ← sign .closeParen
        let body ← Parser.braced fuel'
        node line (.forLoop start guard step body)) := by
  refine .bind (.opening hs) fun _ _ t t' ht _ => ?_
  refine .bind (h .statement _ _ ht) ?_
  refine fun a a' t t' ht ha => ?_
  refine .semicolon_bind (fun _ => .bind (.statement _) _) ht fun _ t t' ht => ?_
  refine .bind (h .statement _ _ ht) ?_
  refine fun g g' t t' ht hg => ?_
  refine .semicolon_bind (fun _ => .bind (.statement _) _) ht fun _ t t' ht => ?_
  refine .bind (h .statement _ _ ht) ?_
  refine fun c c' t t' ht hc => ?_
  refine .bind (.sign (by decide) ht) fun _ _ t t' ht _ => ?_
  refine .bind (h .braced _ _ ht) ?_
  refine fun b b' t t' ht hb => (Together.node ht fun _ _ => ?_).statements
  exact .node (.forLoop (a, a') (g, g') (c, c') (b, b')) rfl
    (by simpa [Form.children] using ⟨ha, hg, hc, hb⟩)

/-- A statement that its first token tells from an expression. -/
theorem statement_of_starts {s s' : State} {token : Token} {line : Nat}
    {tail tail' : List Lexed} (hs : Abreast S s s')
    (hahead : s.ahead = ⟨token, line⟩ :: tail) (hahead' : s'.ahead = ⟨token, line⟩ :: tail')
    (hx : (⟨token, line⟩ : Lexed) ≠ mark) (hstarts : startsStatement token = true) :
    Together S Statements s s' (Parser.statement (fuel + 1))
      (Parser.statement (fuel' + 1)) := by
  rw [Parser.statement, Parser.statement]
  refine .get_bind ?_
  cases token with
  | sign sg =>
    cases sg with
    | openBrace =>
      simp only [hahead, hahead']
      refine .bind (h .braced _ _ hs) ?_
      refine fun b b' t t' ht hb => (Together.node ht fun _ _ => ?_).statements
      exact .node (.scope (b, b')) rfl (by simpa [Form.children] using hb)
    | _ => cases hstarts
  | comment text =>
    simp only [hahead, hahead']
    refine .advance_bind hs hahead hx rfl fun t t' ht _ => ?_
    exact (Together.node ht fun _ _ => .leaf rfl rfl).statements
  | keyword k =>
    cases k with
    | staticCast => cases hstarts
    | print =>
      simp only [hahead, hahead']
      refine .word_bind hs hahead hx fun t t' ht _ => ?_
      refine .bind (h .parenthesized _ _ ht) ?_
      refine fun v v' t t' ht hv => (Together.node ht fun _ _ => ?_).statements
      exact .node (.print (v, v')) rfl (by simpa [Form.children] using hv)
    | ifWord =>
      simp only [hahead, hahead']
      refine .word_bind hs hahead hx fun t t' ht _ => ?_
      refine .bind (h .parenthesized _ _ ht) ?_
      refine fun g g' t t' ht hg => ?_
      refine .bind (h .braced _ _ ht) ?_
      refine fun b b' t t' ht hb => (Together.node ht fun _ _ => ?_).statements
      exact .node (.branch (g, g') (b, b')) rfl (by simpa [Form.children] using ⟨hg, hb⟩)
    | whileWord =>
      simp only [hahead, hahead']
      refine .word_bind hs hahead hx fun t t' ht _ => ?_
      refine .bind (h .parenthesized _ _ ht) ?_
      refine fun g g' t t' ht hg => ?_
      refine .bind (h .braced _ _ ht) ?_
      refine fun b b' t t' ht hb => (Together.node ht fun _ _ => ?_).statements
      exact .node (.whileLoop (g, g') (b, b')) rfl (by simpa [Form.children] using ⟨hg, hb⟩)
    | forWord =>
      simp only [hahead, hahead']
      refine .word_bind hs hahead hx fun t t' ht _ => ?_
      exact header h ht
    | function =>
      simp only [hahead, hahead']
      refine .advance_bind hs hahead hx rfl fun t t' ht _ => ?_
      refine .bind (.name ht) ?_
      rintro ⟨f, fLine⟩ _ t t' ht rfl
      refine .node_bind ht (fun _ _ => .leaf rfl rfl) fun m m' t t' ht _ _ hm => ?_
      refine .bind (.paramList ht) ?_
      refine fun ps ps' t t' ht hps => ?_
      refine .bind (.sign (by decide) ht) fun _ _ t t' ht _ => ?_
      refine .bind (h .braced _ _ ht) ?_
      refine fun b b' t t' ht hb => (Together.node ht fun _ _ => ?_).statements
      cases hps with
      | none =>
        exact .node (.function (m, m') none (b, b')) rfl (by simpa [Form.children] using ⟨hm, hb⟩)
      | @some p p' hp =>
        exact .node (.function (m, m') (some (p, p')) (b, b')) rfl
          (by simpa [Form.children] using ⟨hm, hp, hb⟩)
  | _ => cases hstarts

/-- A name that is bound to something. -/
theorem statement_of_binding {s s' : State} {x : String} {sg : Sign} {line l : Nat}
    {tail tail' : List Lexed} (hs : Abreast S s s')
    (hahead : s.ahead = ⟨.name x, line⟩ :: ⟨.sign sg, l⟩ :: tail)
    (hahead' : s'.ahead = ⟨.name x, line⟩ :: ⟨.sign sg, l⟩ :: tail')
    (hsg : sg ∈ bindingSigns) :
    Together S Statements s s' (Parser.statement (fuel + 1))
      (Parser.statement (fuel' + 1)) := by
  rw [Parser.statement, Parser.statement]
  refine .get_bind ?_
  simp only [bindingSigns, List.mem_cons, List.not_mem_nil, or_false] at hsg
  rcases hsg with rfl | rfl | rfl
  · simp only [hahead, hahead']
    refine .advance_bind hs hahead (by rintro ⟨⟩) rfl fun t t' ht hahead => ?_
    refine .advance_bind ht hahead (by rintro ⟨⟩) rfl fun t t' ht _ => ?_
    refine .node_bind ht (fun _ _ => .leaf rfl rfl) fun m m' t t' ht _ _ hm => ?_
    refine .bind (h .statement _ _ ht) ?_
    refine fun v v' t t' ht hv => (Together.node ht fun _ _ => ?_).statements
    exact .node (.assign (m, m') (v, v')) rfl (by simpa [Form.children] using ⟨hm, hv⟩)
  · simp only [hahead, hahead']
    refine .advance_bind hs hahead (by rintro ⟨⟩) rfl fun t t' ht hahead => ?_
    refine .advance_bind ht hahead (by rintro ⟨⟩) rfl fun t t' ht _ => ?_
    refine .node_bind ht (fun _ _ => .leaf rfl rfl) fun m m' t t' ht _ _ hm => ?_
    refine .bind (h .statement _ _ ht) ?_
    refine fun v v' t t' ht hv => (Together.node ht fun _ _ => ?_).statements
    exact .node (.define (m, m') (v, v')) rfl (by simpa [Form.children] using ⟨hm, hv⟩)
  · simp only [hahead, hahead']
    refine .bind (.typedName hs) fun p p' t t' ht hp => ?_
    refine (Together.node ht fun _ _ => ?_).statements
    exact .node (.declare (p.1, p'.1) (p.2, p'.2)) rfl (by simpa [Form.children] using hp)

theorem statement_succ :
    Marches S Statements (Parser.statement (fuel + 1)) (Parser.statement (fuel' + 1)) := by
  intro s s' hs
  cases hahead : s.ahead with
  | nil =>
    exact (Together.unexpected hs).of_outcome_eq (outcome_statement_nil hahead)
      (outcome_statement_nil (hs.nil hahead))
  | cons x tail =>
    by_cases hx : x = mark
    · exact .of_trips (.statement _) (hx ▸ hahead)
    obtain ⟨token, line⟩ := x
    obtain ⟨tail', hahead', htail⟩ := hs.cons hahead hx
    cases hstarts : startsStatement token with
    | true =>
      exact statement_of_starts h hs hahead hahead' hx hstarts
    | false =>
      by_cases hbound : ∃ x, token = .name x ∧
          ∃ sg ∈ bindingSigns, tail.head?.map Lexed.token = some (.sign sg)
      · obtain ⟨x, rfl, sg, hsg, hhead⟩ := hbound
        obtain ⟨⟨_, l⟩, tail, rfl, rfl⟩ := exists_of_head? hhead
        have hne : (⟨.sign sg, l⟩ : Lexed) ≠ mark := by
          rintro ⟨⟩
          revert hsg
          decide
        obtain ⟨tail'', htail', -⟩ := htail.cons rfl hne
        obtain rfl : tail' = _ := htail'
        exact statement_of_binding h hs hahead hahead' hsg
      · have hunbound : ∀ x, token = .name x → ∀ sg ∈ bindingSigns,
            tail.head?.map Lexed.token ≠ some (.sign sg) :=
          fun x hx sg hsg hhead => hbound ⟨x, hx, sg, hsg, hhead⟩
        have hunbound' : ∀ x, token = .name x → ∀ sg ∈ bindingSigns,
            tail'.head?.map Lexed.token ≠ some (.sign sg) := by
          intro x hx sg hsg hhead
          have hfollows : (Token.sign sg).followsName = true := by simp [Token.followsName, hsg]
          subst hx
          have hiff := htail.follows_iff (hahead ▸ hs.reads.suffix) hfollows
          exact hunbound x rfl sg hsg (hiff.mpr hhead)
        have hoperand : Together S Statements s s' (Parser.operand fuel .relation)
            (Parser.operand fuel' .relation) :=
          (h (.operand .relation) s s' hs).imp fun _ _ _ _ => And.left
        exact hoperand.of_outcome_eq (outcome_statement_operand hahead hstarts hunbound)
          (outcome_statement_operand hahead' hstarts hunbound')

end Succ

/-- The statements after the two marks of a comment. -/
theorem statements_at_mark {S : Screen} {fuel fuel' : Nat}
    (h : ∀ r fuel', InPace S fuel fuel' r) {nested : Bool} {s s' u u' : State}
    {ns ns' : List Node} {tail : List Lexed} (hs : Abreast S s s') (hahead : s.ahead = mark :: tail)
    (hrun : (Parser.statements nested (fuel + 1)).run s = some (ns, u))
    (hrun' : (Parser.statements nested (fuel' + 1)).run s' = some (ns', u')) :
    markFound ∈ u.errors.toList ∨ Abreast S u u' ∧ SameStatements ns ns' := by
  obtain ⟨zs, rfl, hreads⟩ := (hahead ▸ hs.reads).exists_of_mark
  have hclear : S.Clear zs := by
    have hsuffix : mark :: mark :: zs <:+ marked S.tokens := hahead ▸ hs.reads.suffix
    exact Screen.clear_of_suffix ((List.suffix_cons _ _).trans hsuffix) rfl
  rw [run_statements_separator hahead rfl] at hrun
  cases fuel with
  | zero => cases hrun
  | succ fuel =>
    rw [run_statements_separator rfl rfl] at hrun
    have hrest := (Extends.succ fuel (.statements nested)).run hrun
    rcases hreads with hreads | ⟨⟨token, line⟩, ys, hcomment, hahead', hreads⟩
    · have htail : Abreast S { s with ahead := zs } s' := ⟨⟨hreads, hs.errors, hs.endLine⟩, hclear⟩
      exact h (.statements nested) (fuel' + 1) _ _ _ _ _ _ htail hrest hrun'
    · cases token with
      | comment text =>
        have htail : Abreast S { s with ahead := zs }
            { s' with ahead := ys, nextId := s'.nextId + 1 } :=
          ⟨⟨hreads, hs.errors, hs.endLine⟩, hclear⟩
        rcases exists_of_run_statements hahead' (by simp) (by simp) hrun' with
          ⟨n', v', ms', hn', hrest', rfl⟩ | ⟨e', v', he', -⟩
        · cases eq_of_statement_comment hahead' hn'
          rcases h (.statements nested) fuel' _ _ _ _ _ _ htail hrest hrest' with
            hfound | ⟨hu, hmatch⟩
          · exact .inl hfound
          · exact .inr ⟨hu, hmatch.comment _ _ _⟩
        · cases eq_of_statement_comment hahead' he'
      | _ => cases hcomment

theorem statements_succ {S : Screen} {fuel fuel' : Nat} (h : ∀ r fuel', InPace S fuel fuel' r)
    (nested : Bool) : EndsAlike S SameStatements (Parser.statements nested (fuel + 1))
      (Parser.statements nested (fuel' + 1)) := by
  intro s s' ns u ns' u' hs hrun hrun'
  by_cases hmark : s.ahead.head? = some mark
  · obtain ⟨tail, hahead⟩ := List.head?_eq_some_iff.mp hmark
    exact statements_at_mark h hs hahead hrun hrun'
  · exact statements_of_passes (h · fuel') hs hmark (passes_of_run_statements hrun) hrun'

theorem zero (S : Screen) (fuel' : Nat) (r : Rule) : InPace S 0 fuel' r := by
  cases r with
  | block nested | statements nested =>
    intro _ _ _ _ _ _ _ hrun
    cases hrun
  | operators level left => exact fun _ _ _ _ _ _ => .exhausted
  | _ => exact fun _ _ _ => .exhausted

/-- What is true of a larger bound of the second parser is true of a smaller one, which
    comes to less. -/
theorem of_succ {S : Screen} {fuel fuel' : Nat} {r : Rule} (h : InPace S fuel (fuel' + 1) r) :
    InPace S fuel fuel' r := by
  have hmore (r : Rule) : Extends (r.parser fuel') (r.parser (fuel' + 1)) := Extends.succ fuel' r
  cases r with
  | statement => exact h.of_extends (hmore .statement)
  | parenthesized =>
    exact fun s s' hs r r' hrun hrun' => h s s' hs r r' hrun (hmore .parenthesized s' r' hrun')
  | braced => exact h.of_extends (hmore .braced)
  | block nested =>
    exact fun _ _ _ _ _ _ hs hrun hrun' => h _ _ _ _ _ _ hs hrun ((hmore (.block nested)).run hrun')
  | statements nested =>
    exact fun _ _ _ _ _ _ hs hrun hrun' =>
      h _ _ _ _ _ _ hs hrun ((hmore (.statements nested)).run hrun')
  | operand level => exact h.of_extends (hmore (.operand level))
  | operators level left =>
    exact fun left' s s' hleft hended hs r r' hrun hrun' =>
      h left' s s' hleft hended hs r r' hrun (hmore (.operators level left') s' r' hrun')
  | tighter level => exact h.of_extends (hmore (.tighter level))
  | power => exact h.of_extends (hmore .power)
  | primary => exact h.of_extends (hmore .primary)
  | moreArgs => exact h.of_extends (hmore .moreArgs)

/-- **The two parsers stay in pace** in every rule, whatever their bounds. -/
theorem all (S : Screen) (fuel : Nat) (r : Rule) (fuel' : Nat) : InPace S fuel fuel' r := by
  induction fuel, r using Rule.induction generalizing fuel' with
  | exhausted r => exact zero S fuel' r
  | statement fuel h => exact of_succ (statement_succ (h · fuel'))
  | parenthesized fuel h => exact of_succ (parenthesized_succ (h · fuel'))
  | braced fuel h => exact of_succ (braced_succ (h · fuel'))
  | block fuel nested h => exact of_succ (block_succ (h · fuel') nested)
  | statements fuel nested h => exact of_succ (statements_succ h nested)
  | operand fuel level h => exact of_succ (operand_succ (h · fuel') level)
  | operators fuel level left h => exact of_succ (operators_succ (h · fuel') level left)
  | tighter fuel level h => exact of_succ (tighter_succ (h · fuel') level)
  | power fuel h => exact of_succ (power_succ (h · fuel'))
  | primary fuel h => exact of_succ (primary_succ (h · fuel'))
  | moreArgs fuel h => exact of_succ (moreArgs_succ (h · fuel'))

end InPace

/-! ## Sources -/

/-- Both parsers begin at the same place. -/
theorem abreast_start (S : Screen) (i j : Nat) :
    Abreast S (start (marked S.tokens) i) (start S.kept j) :=
  ⟨⟨⟨S.tokens, List.suffix_refl _, rfl, rfl⟩, rfl, rfl⟩, fun _ hx =>
    absurd hx.length_le (Nat.not_succ_le_self _)⟩

/-- **Comments between statements do not disturb the parser.** If a parser that reads two
    semicolons in place of every comment reports none of them, then a parser that reads the
    comments, or only some of them, finds the same statements and the same errors, but for
    the line on which the source ends unexpectedly. -/
theorem recommented_parse (S : Screen) (i j : Nat)
    (hmark : markFound ∉ (parse (marked S.tokens) i).errors) :
    (parse (marked S.tokens) i).tree.Recommented (parse S.kept j).tree ∧
      (parse S.kept j).errors =
        (parse (marked S.tokens) i).errors.map (SourceError.relocate S.endLine) := by
  obtain ⟨fuel, ns, t, hrun⟩ := exists_run_statements false (start (marked S.tokens) i)
  obtain ⟨fuel', ns', t', hrun'⟩ := exists_run_statements false (start S.kept j)
  rw [parse_eq_of_run hrun] at hmark ⊢
  rw [parse_eq_of_run hrun']
  rcases InPace.all S fuel (.statements false) fuel' _ _ _ _ _ _ (abreast_start S i j) hrun hrun'
    with hfound | ⟨ht, hns⟩
  · exact absurd hfound hmark
  · refine ⟨.node (.program (_, _)) rfl ?_, ht.errors⟩
    simpa [Form.children] using .of_statements hns

end Parser

end Scriptlet
