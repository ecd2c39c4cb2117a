import Scriptlet.Proofs.Reading
import Scriptlet.Proofs.Separators

/-!
# The parenthesis at the end of an operand

An operand may end with a parenthesis, but so may a print, or a header that could not be
read to its end. To tell them apart one goes back over the tokens to the parenthesis that
was opened, and looks at the token before it. What the parser reads on the way does not
mislead: the parentheses of an expression come in pairs. Only in a block recovery may leave
one alone, and at the braces of a block the way back ends.

Results:
* `Token.closed_parens`: what ends with such a pair may end an operand.
* `Parser.Pairing.all`: the parentheses of what a rule reads come in pairs.
-/

namespace Scriptlet

open Grammar (parens braces typed)

/-! ## The way back -/

namespace Token

/-- Whether a token opens or closes something. -/
def isBracket : Token → Bool
  | sign s => s = .openParen || s = .closeParen || s = .openBrace || s = .closeBrace
  | _ => false

/-- The way back leads over some tokens, or ends among them at a block. -/
def Paired (ts : List Token) : Prop :=
  ∀ depth read, closesOperand depth read = true → closesOperand depth (ts.reverse ++ read) = true

namespace Paired

variable {ts us : List Token} {t : Token}

theorem nil : Paired [] := fun _ _ h => h

theorem append (h : Paired ts) (h' : Paired us) : Paired (ts ++ us) := by
  intro depth read hread
  rw [List.reverse_append, List.append_assoc]
  exact h' _ _ (h _ _ hread)

/-- The way back leads over a token that opens and closes nothing. -/
theorem single (ht : t.isBracket = false) : Paired [t] := by
  intro depth read hread
  rw [List.reverse_singleton, List.singleton_append]
  cases t with
  | sign sg =>
    cases sg with
    | openParen | closeParen | openBrace => cases ht
    | closeBrace => simp [closesOperand]
    | _ => simpa [closesOperand] using hread
  | _ => simpa [closesOperand] using hread

theorem cons (t : Token) (ht : t.isBracket = false) (h : Paired ts) : Paired (t :: ts) :=
  (single ht).append h

theorem parens (h : Paired ts) : Paired (parens ts) := by
  intro depth read hread
  have hopen : closesOperand (depth + 1) (.sign .openParen :: read) = true := hread
  simpa [Grammar.parens, closesOperand] using h _ _ hopen

/-- The way back ends at a block. -/
theorem append_braces (ts us : List Token) : Paired (ts ++ braces us) := by
  intro depth read _
  simp [braces, closesOperand]

theorem typed (x : String) (ty : Ty) : Paired (typed x ty) :=
  cons _ rfl (cons _ rfl (single rfl))

end Paired

theorem isBracket_of_operator? {level : Parser.Level} {t : Token}
    {form : Node → Node → Form Node} (h : level.operator? t = some form) :
    t.isBracket = false := by
  cases t with
  | sign s => cases level <;> cases s <;> first | rfl | cases h
  | _ => rfl

/-- An operand may end with the last one of some tokens, unless the first one is a
    parenthesis that opens a header. -/
def Closed (ts : List Token) : Prop :=
  ∀ read : List Token, (ts.head? = some (.sign .openParen) → read.head?.any opensHeader = false) →
    endsOperand (ts.reverse ++ read) = true

theorem closed_name (x : String) : Closed [.name x] := fun _ _ => rfl

theorem closed_literal {t : Token} {form : Form Node} (h : Parser.literal? t = some form) :
    Closed [t] := by
  intro read _
  cases t <;> first | rfl | cases h

theorem closed_parens {ts : List Token} (h : Paired ts) : Closed (parens ts) := by
  intro read hread
  have hopen : closesOperand 0 (.sign .openParen :: read) = true := by
    rw [closesOperand, hread rfl]
    rfl
  simpa [parens, endsOperand] using h _ _ hopen

/-- What is applied to an operand is no header. -/
theorem closed_applied {t : Token} {ts : List Token} (ht : t.opensHeader = false)
    (h : Paired ts) : Closed (t :: parens ts) := by
  intro read _
  rw [List.reverse_cons, List.append_assoc]
  exact closed_parens h _ fun _ => ht

end Token

namespace Parser

open Token (Paired Closed)

variable {α : Type} {s : State} {C : List Token → Prop}

/-! ## The rules -/

/-- If a parser succeeds, `C` holds of the tokens that it takes. -/
abbrev Covers (s : State) (C : List Token → Prop) (p : Parser α) : Prop :=
  Consumes (fun _ => True) s C p

theorem Consumes.covers {counts : Array SourceError → Prop} {p : Parser α}
    (h : Consumes counts s C p) : Covers s (fun _ => True) p := by
  intro r t hrun
  obtain ⟨read, hahead, -⟩ := h r t hrun
  exact ⟨read, hahead, id, fun _ _ _ => trivial⟩

/-- The parentheses of what each rule of the parser reads come in pairs. -/
def Pairing (fuel : Nat) : Rule → Prop
  | .statement => ∀ s, Covers s Paired (statement fuel)
  | .parenthesized => ∀ s, Covers s Paired (parenthesized fuel)
  | .braced => ∀ s, Covers s (fun ts => ∃ us, ts = braces us) (braced fuel)
  | .block _ | .statements _ => True
  | .operand level => ∀ s, Covers s Paired (operand fuel level)
  | .operators level left => ∀ s, Covers s Paired (operators fuel level left)
  | .tighter level => ∀ s, Covers s Paired (tighter fuel level)
  | .power => ∀ s, Covers s Paired (power fuel)
  | .primary => ∀ s, Covers s (fun ts => Paired ts ∧ Closed ts) (primary fuel)
  | .moreArgs =>
    ∀ s, Covers s (fun ts => ∃ us, Paired us ∧ ts = us ++ [.sign .closeParen]) (moreArgs fuel)

namespace Pairing

theorem braced_succ (fuel : Nat) (s : State) :
    Covers s (fun ts => ∃ us, ts = braces us) (Parser.braced (fuel + 1)) := by
  rw [Parser.braced]
  have hblock (s : State) := (Deriving.all fuel (.block true) s).covers
  refine .bind (.sign .openBrace) fun _ s a => .bind (hblock s) fun _ s b => ?_
  refine .bind (.sign .closeBrace) fun _ s c => .pure ?_
  rintro rfl - rfl
  exact ⟨b, by simp [braces]⟩

section Succ

variable {fuel : Nat} (h : ∀ r, Pairing fuel r)

include h

theorem parenthesized_succ (s : State) : Covers s Paired (Parser.parenthesized (fuel + 1)) := by
  rw [Parser.parenthesized]
  refine .bind (.sign .openParen) fun _ s a => .bind (h .statement s) fun _ s b => ?_
  refine .bind (.sign .closeParen) fun _ s c => .pure ?_
  rintro rfl hb rfl
  simpa [parens] using hb.parens

theorem statement_succ (s : State) : Covers s Paired (Parser.statement (fuel + 1)) := by
  rw [Parser.statement]
  refine .get_bind ?_
  split
  · exact .unexpected
  · refine .bind (h .braced s) fun _ s a => .node ?_
    rintro ⟨body, rfl⟩
    simpa using Paired.append_braces [] body
  · next text line rest hs =>
    exact .advance_bind hs fun s _ => .node (.single rfl)
  · next line rest hs =>
    refine .advance_bind hs fun s _ => .bind (h .parenthesized s) fun _ s a => .node fun ha => ?_
    simpa using ha.cons (.keyword .print) rfl
  · next line rest hs =>
    refine .advance_bind hs fun s _ => .bind (h .parenthesized s) fun _ s a => ?_
    refine .bind (h .braced s) fun _ s b => .node ?_
    rintro ⟨body, rfl⟩ -
    simpa using Paired.append_braces (_ :: a) body
  · next line rest hs =>
    refine .advance_bind hs fun s _ => .bind (h .parenthesized s) fun _ s a => ?_
    refine .bind (h .braced s) fun _ s b => .node ?_
    rintro ⟨body, rfl⟩ -
    simpa using Paired.append_braces (_ :: a) body
  · next line rest hs =>
    refine .advance_bind hs fun s _ => .bind (.sign .openParen) fun _ s a => ?_
    refine .bind (h .statement s) fun _ s start => .bind (.sign .semicolon) fun _ s b => ?_
    refine .bind (h .statement s) fun _ s guard => .bind (.sign .semicolon) fun _ s c => ?_
    refine .bind (h .statement s) fun _ s step => .bind (.sign .closeParen) fun _ s d => ?_
    refine .bind (h .braced s) fun _ s e => .node ?_
    rintro ⟨body, rfl⟩ - - - - - - -
    simpa using Paired.append_braces (_ :: (a ++ start ++ b ++ guard ++ c ++ step ++ d)) body
  · next line rest hs =>
    refine .advance_bind hs fun s _ => .bind .name fun _ s a => .node_bind fun _ s => ?_
    refine .bind (.paramList fuel s) fun _ s b => .bind (.sign .equals) fun _ s c => ?_
    refine .bind (h .braced s) fun _ s d => .node ?_
    rintro ⟨body, rfl⟩ - - -
    simpa using Paired.append_braces (_ :: (a ++ b ++ c)) body
  · next x line _ rest hs =>
    refine .advance_bind hs fun s hs => .advance_bind hs fun s _ => .node_bind fun _ s => ?_
    refine .bind (h .statement s) fun _ s value => .node fun hvalue => ?_
    simpa using (hvalue.cons (.sign .equals) rfl).cons (.name x) rfl
  · next x line _ rest hs =>
    refine .advance_bind hs fun s hs => .advance_bind hs fun s _ => .node_bind fun _ s => ?_
    refine .bind (h .statement s) fun _ s value => .node fun hvalue => ?_
    simpa using (hvalue.cons (.sign .colonEquals) rfl).cons (.name x) rfl
  · refine .bind .typedName fun _ s a => .node ?_
    rintro ⟨x, ty, rfl⟩
    simpa using Paired.typed x ty
  · exact h (.operand .relation) s

theorem operators_succ (level : Level) (left : Node) (s : State) :
    Covers s Paired (Parser.operators (fuel + 1) level left) := by
  rw [Parser.operators]
  refine .peek_bind ?_
  cases hs : s.ahead with
  | nil => exact .pure .nil
  | cons t rest =>
    simp only [List.head?_cons]
    split
    · exact .pure .nil
    · next form hform =>
      have hbracket := Token.isBracket_of_operator? hform
      refine .advance_bind hs fun s _ => .bind (h (.tighter level) s) fun _ s a => ?_
      refine .node_bind fun _ s => (h (.operators level _) s).weaken fun ts hts ha => ?_
      exact (ha.append hts).cons t.token hbracket

theorem power_succ (s : State) : Covers s Paired (Parser.power (fuel + 1)) := by
  rw [Parser.power]
  refine .bind (h .primary s) fun _ s a => .peek_bind ?_
  cases hs : s.ahead with
  | nil => exact .pure fun ha => by simpa using ha.1
  | cons t rest =>
    simp only [List.head?_cons]
    split
    · next line ht =>
      cases ht
      refine .advance_bind hs fun s _ => .bind (h .power s) fun _ s b => .node fun hb ha => ?_
      simpa using ha.1.append (hb.cons (.sign .caret) rfl)
    · exact .pure fun ha => by simpa using ha.1

theorem primary_succ (s : State) :
    Covers s (fun ts => Paired ts ∧ Closed ts) (Parser.primary (fuel + 1)) := by
  have happlied (t : Token) {ts : List Token} (hbracket : t.isBracket = false)
      (hheader : t.opensHeader = false) (hts : Paired ts) :
      Paired (t :: parens ts) ∧ Closed (t :: parens ts) :=
    ⟨hts.parens.cons t hbracket, Token.closed_applied hheader hts⟩
  rw [Parser.primary]
  refine .get_bind ?_
  split
  · next f line _ rest hs =>
    refine .advance_bind hs fun s hs => .advance_bind hs fun s _ => .node_bind fun _ s => ?_
    refine .sees_bind ?_
    split
    · next hclose =>
      obtain ⟨line, rest, hs⟩ := Consumes.exists_of_sees hclose
      refine .advance_bind hs fun s _ => .node ?_
      exact happlied (.name f) rfl rfl .nil
    · refine .bind (h (.operand .relation) s) fun _ s a => .bind (h .moreArgs s) fun _ s b => ?_
      refine .node_bind fun _ s => .node ?_
      rintro ⟨us, hus, rfl⟩ ha
      simpa [parens] using happlied (.name f) rfl rfl (ha.append hus)
  · next x line rest _ hs =>
    exact .advance_bind hs fun s _ => .node ⟨.single rfl, Token.closed_name x⟩
  · next fn line rest hs =>
    refine .advance_bind hs fun s _ => .bind (.sign .openParen) fun _ s a => ?_
    refine .bind (h (.operand .relation) s) fun _ s b => .bind (.sign .closeParen) fun _ s c => ?_
    refine .node ?_
    rintro rfl hb rfl
    simpa [parens] using happlied (.math fn) rfl rfl hb
  · next line rest hs =>
    refine .advance_bind hs fun s _ => .bind (.sign .openParen) fun _ s a => ?_
    refine .bind (h .statement s) fun _ s b => .bind (.sign .comma) fun _ s c => ?_
    refine .bind .typeName fun _ s d => .bind (.sign .closeParen) fun _ s e => ?_
    refine .node_bind fun _ s => .node ?_
    rintro rfl ⟨ty, rfl⟩ rfl hb rfl
    have htype : Paired [.sign .comma, .ty ty] := .cons _ rfl (.single rfl)
    simpa [parens] using happlied (.keyword .staticCast) rfl rfl (hb.append htype)
  · next line rest hs =>
    refine .advance_bind hs fun s _ => .bind (h (.operand .relation) s) fun _ s b => ?_
    refine .bind (.sign .closeParen) fun _ s c => .pure ?_
    rintro rfl hb
    simpa [parens] using And.intro hb.parens (Token.closed_parens hb)
  · next t rest _ _ _ _ _ hs =>
    split
    · next form hform =>
      refine .advance_bind hs fun s _ => .node ⟨.single ?_, Token.closed_literal hform⟩
      obtain ⟨token, line⟩ := t
      cases token <;> first | rfl | cases hform
    · exact .unexpected
  · exact .unexpected

theorem moreArgs_succ (s : State) :
    Covers s (fun ts => ∃ us, Paired us ∧ ts = us ++ [.sign .closeParen])
      (Parser.moreArgs (fuel + 1)) := by
  rw [Parser.moreArgs]
  refine .sees_bind ?_
  split
  · next hcomma =>
    obtain ⟨line, rest, hs⟩ := Consumes.exists_of_sees hcomma
    refine .advance_bind hs fun s _ => .bind (h (.operand .relation) s) fun _ s a => ?_
    refine .bind (h .moreArgs s) fun _ s b => .pure ?_
    rintro ⟨us, hus, rfl⟩ ha
    exact ⟨_, (ha.append hus).cons (.sign .comma) rfl, by simp⟩
  · refine .bind (.sign .closeParen) fun _ s a => .pure ?_
    rintro rfl
    exact ⟨[], .nil, rfl⟩

end Succ

/-- **The parentheses of what a rule reads come in pairs.** -/
theorem all (fuel : Nat) (r : Rule) : Pairing fuel r := by
  induction fuel, r using Rule.induction with
  | exhausted r => cases r <;> first | exact trivial | exact fun _ => .exhausted
  | statement fuel h => exact statement_succ h
  | parenthesized fuel h => exact parenthesized_succ h
  | braced fuel h => exact braced_succ fuel
  | block fuel nested h => exact trivial
  | statements fuel nested h => exact trivial
  | operand fuel level h =>
    intro s
    rw [Parser.operand]
    refine .bind (h (.tighter level) s) fun left s a => ?_
    exact (h (.operators level left) s).weaken fun _ hts ha => ha.append hts
  | operators fuel level left h => exact operators_succ h level left
  | tighter fuel level h =>
    cases level with
    | relation => exact h (.operand .sum)
    | sum => exact h (.operand .product)
    | product => exact h .power
  | power fuel h => exact power_succ h
  | primary fuel h => exact primary_succ h
  | moreArgs fuel h => exact moreArgs_succ h

end Pairing

end Parser

end Scriptlet
