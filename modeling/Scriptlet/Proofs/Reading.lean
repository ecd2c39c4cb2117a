import Scriptlet.Proofs.Grammar
import Scriptlet.Proofs.Progress

/-!
# What a parser has read

Whatever a rule of the parser comes to, it has taken some tokens off the front
of those ahead. If it succeeds and no error has been recorded, these tokens are
derivable from the category that the rule stands for: recovery never hides an
error.

Results:
* `Parser.Deriving.all`: this holds of every rule under every bound.
* `derives_of_parse`: a list of tokens without errors is derivable.
-/

namespace Scriptlet

namespace Parser

open Grammar

variable {α β : Type}

/-! ## Tokens that were read -/

/-- From the state `s` a parser takes tokens off the front. If it succeeds, `C` holds of these
    tokens, provided that the errors recorded by then `count`, as they then did before. -/
def Consumes (counts : Array SourceError → Prop) (s : State) (C : List Token → Prop)
    (p : Parser α) : Prop :=
  ∀ r t, outcome p s = some (r, t) → ∃ read : List Lexed, s.ahead = read ++ t.ahead ∧
    (counts t.errors → counts s.errors) ∧
    ∀ a, r = .ok a → counts t.errors → C (read.map Lexed.token)

/-- From the state `s` a parser takes tokens off the front and forgets no error.
    If it succeeds and no error has been recorded, `C` holds of these tokens. -/
abbrev Reads (s : State) (C : List Token → Prop) (p : Parser α) : Prop := Consumes (· = #[]) s C p

namespace Consumes

variable {counts : Array SourceError → Prop} {s : State} {C : List Token → Prop}

theorem pure {a : α} (h : C []) : Consumes counts s C (pure a) := by
  rintro _ _ ⟨⟩
  exact ⟨[], rfl, id, fun _ _ _ => h⟩

theorem exhausted : Consumes counts s C (exhausted : Parser α) := nofun

theorem unexpected : Consumes counts s C (unexpected : Parser α) := by
  intro r t h
  rw [outcome_unexpected] at h
  cases h
  exact ⟨[], rfl, id, nofun⟩

theorem of_outcome_eq {p q : Parser α} (hq : Consumes counts s C q)
    (h : outcome p s = outcome q s) : Consumes counts s C p := fun r t hrun => hq r t (h ▸ hrun)

/-- What the first parser reads is in front of what the second one reads. -/
theorem bind {C' : List Token → Prop} {p : Parser α} {f : α → Parser β} (hp : Consumes counts s C p)
    (hf : ∀ a t ts, Consumes counts t (fun us => C ts → C' (ts ++ us)) (f a)) :
    Consumes counts s C' (p >>= f) := by
  intro r u h
  rcases outcome_bind_eq_some.mp h with ⟨a, t, hfirst, hsecond⟩ | ⟨e, hfirst, rfl⟩
  · obtain ⟨read, hahead, herrors, hread⟩ := hp _ t hfirst
    obtain ⟨more, hahead', herrors', hmore⟩ := hf a t (read.map Lexed.token) r u hsecond
    refine ⟨read ++ more, ?_, fun h => herrors (herrors' h), fun b hb h => ?_⟩
    · rw [hahead, hahead', List.append_assoc]
    · rw [List.map_append]
      exact hmore b hb h (hread a rfl (herrors' h))
  · obtain ⟨read, hahead, herrors, -⟩ := hp _ u hfirst
    exact ⟨read, hahead, herrors, nofun⟩

theorem weaken {C' : List Token → Prop} {p : Parser α} (hp : Consumes counts s C p)
    (hC : ∀ ts, C ts → C' ts) : Consumes counts s C' p := by
  intro r t h
  obtain ⟨read, hahead, herrors, hread⟩ := hp r t h
  exact ⟨read, hahead, herrors, fun a ha he => hC _ (hread a ha he)⟩

/-- After looking at the state, what follows may depend on it. -/
theorem get_bind {f : State → Parser α} (h : Consumes counts s C (f s)) :
    Consumes counts s C (get >>= f) := h

theorem peek_bind {f : Option Lexed → Parser α} (h : Consumes counts s C (f s.ahead.head?)) :
    Consumes counts s C (liftM peek >>= f) := h

theorem sees_bind {sg : Sign} {f : Bool → Parser α}
    (h : Consumes counts s C (f (decide (s.ahead.head?.map Lexed.token = some (.sign sg))))) :
    Consumes counts s C (liftM (sees sg) >>= f) := h

theorem node {line : Nat} {form : Form Node} (h : C []) :
    Consumes counts s C (liftM (Parser.node line form)) := by
  rintro _ _ ⟨⟩
  exact ⟨[], rfl, id, fun _ _ _ => h⟩

theorem node_bind {line : Nat} {form : Form Node} {f : Node → Parser α}
    (h : ∀ n s, Consumes counts s C (f n)) :
    Consumes counts s C (liftM (Parser.node line form) >>= f) :=
  h _ { s with nextId := s.nextId + 1 }

/-- Taking the token that is known to come next. -/
theorem advance_bind {t : Lexed} {rest : List Lexed} {f : Unit → Parser α}
    (hs : s.ahead = t :: rest)
    (h : ∀ s, s.ahead = rest → Consumes counts s (fun us => C (t.token :: us)) (f ())) :
    Consumes counts s C (liftM advance >>= f) := by
  intro r u hrun
  have hrest : ({ s with ahead := s.ahead.tail } : State).ahead = rest := by rw [hs]; rfl
  obtain ⟨read, hahead, herrors, hread⟩ := h _ hrest r u hrun
  refine ⟨t :: read, ?_, herrors, hread⟩
  rw [hs, ← hrest, hahead]
  rfl

theorem take (accept? : Token → Option α) :
    Consumes counts s (fun ts => ∃ t, (accept? t).isSome ∧ ts = [t]) (take accept?) := by
  cases haccept : s.ahead.head?.bind fun t => accept? t.token with
  | none => exact unexpected.of_outcome_eq (outcome_take_none haccept)
  | some a =>
    obtain ⟨t, ht, ha⟩ := Option.bind_eq_some_iff.mp haccept
    obtain ⟨rest, hs⟩ := List.head?_eq_some_iff.mp ht
    intro r u h
    rw [outcome_take_some hs ha] at h
    cases h
    exact ⟨[t], hs, id, fun _ _ _ => ⟨t.token, by simp [ha], rfl⟩⟩

theorem sign (sg : Sign) : Consumes counts s (fun ts => ts = [.sign sg]) (sign sg) := by
  refine bind (take _) fun _ _ ts => pure ?_
  rintro ⟨t, ht, rfl⟩
  rw [List.append_nil]
  split at ht
  · next h => rw [h]
  · cases ht

theorem name : Consumes counts s (fun ts => ∃ x, ts = [.name x]) name := by
  refine (take _).weaken ?_
  rintro _ ⟨t, ht, rfl⟩
  cases t with
  | name x => exact ⟨x, rfl⟩
  | _ => cases ht

theorem typeName : Consumes counts s (fun ts => ∃ ty, ts = [.ty ty]) typeName := by
  refine (take _).weaken ?_
  rintro _ ⟨t, ht, rfl⟩
  cases t with
  | ty ty => exact ⟨ty, rfl⟩
  | _ => cases ht

theorem typedName : Consumes counts s (fun ts => ∃ x ty, ts = typed x ty) typedName := by
  refine bind name fun _ _ a => bind (sign .colon) fun _ _ b => bind typeName fun _ _ c => ?_
  refine node_bind fun _ _ => node_bind fun _ _ => pure ?_
  rintro ⟨ty, rfl⟩ rfl ⟨x, rfl⟩
  exact ⟨x, ty, rfl⟩

/-! ## Lists of parameters -/

/-- A sign that is seen comes next. -/
theorem exists_of_sees {sg : Sign}
    (h : decide (s.ahead.head?.map Lexed.token = some (.sign sg)) = true) :
    ∃ line rest, s.ahead = ⟨.sign sg, line⟩ :: rest := by
  cases hs : s.ahead with
  | nil => simp [hs] at h
  | cons t rest =>
    obtain ⟨token, line⟩ := t
    obtain rfl : token = .sign sg := by simpa [hs] using h
    exact ⟨line, rest, rfl⟩

theorem moreParams (fuel : Nat) :
    ∀ s, Consumes counts s
      (fun ts => ∃ us, Derives .moreParameters us ∧ ts = us ++ [.sign .closeParen])
      (moreParams fuel) := by
  induction fuel with
  | zero => exact fun s => exhausted
  | succ fuel ih =>
    intro s
    rw [Parser.moreParams]
    refine sees_bind ?_
    split
    · next h =>
      obtain ⟨line, rest, hs⟩ := exists_of_sees h
      refine advance_bind hs fun s _ => bind typedName fun _ s a => bind (ih s) fun _ s b => pure ?_
      rintro ⟨us, hus, rfl⟩ ⟨x, ty, rfl⟩
      exact ⟨_, .nextParameter x ty hus, by simp⟩
    · refine bind (sign .closeParen) fun _ s a => pure ?_
      rintro rfl
      exact ⟨[], .lastParameter, rfl⟩

theorem paramList (fuel : Nat) (s : State) :
    Consumes counts s (fun ts => ∃ us, Derives .parameters us ∧ ts = parens us)
      (paramList fuel) := by
  refine bind (sign .openParen) fun _ s a => sees_bind ?_
  split
  · next h =>
    obtain ⟨line, rest, hs⟩ := exists_of_sees h
    refine advance_bind hs fun s _ => pure ?_
    rintro rfl
    exact ⟨[], .noParameters, rfl⟩
  · refine bind typedName fun _ s b => bind (moreParams fuel s) fun _ s c => ?_
    refine node_bind fun _ s => pure ?_
    rintro ⟨us, hus, rfl⟩ ⟨x, ty, rfl⟩ rfl
    exact ⟨_, .parameters x ty hus, by simp [parens]⟩

end Consumes

/-! ## The rules -/

/-- Literals are primaries of one token. -/
theorem derives_literal {t : Token} {form : Form Node} (h : literal? t = some form) :
    Derives .primary [t] := by
  cases t with
  | int n => exact .int n
  | float x => exact .float x
  | str s => exact .str s
  | bool b => exact .bool b
  | pi => exact .pi
  | _ => cases h

/-- What each rule of the parser reads is derivable from the category that the
    rule stands for. -/
def Deriving (fuel : Nat) : Rule → Prop
  | .statement => ∀ s, Reads s (Derives .statement) (statement fuel)
  | .parenthesized =>
    ∀ s, Reads s (fun ts => ∃ us, Derives .statement us ∧ ts = parens us) (parenthesized fuel)
  | .braced => ∀ s, Reads s (fun ts => ∃ us, Derives .block us ∧ ts = braces us) (braced fuel)
  | .block nested => ∀ s, Reads s (Derives .block) (liftM (block nested fuel))
  | .statements nested => ∀ s, Reads s (Derives .block) (liftM (statements nested fuel))
  | .operand level => ∀ s, Reads s (Derives (.operand level)) (operand fuel level)
  | .operators level left => ∀ s, Reads s (Derives (.operators level)) (operators fuel level left)
  | .tighter level => ∀ s, Reads s (Derives (Grammar.tighter level)) (tighter fuel level)
  | .power => ∀ s, Reads s (Derives .power) (power fuel)
  | .primary => ∀ s, Reads s (Derives .primary) (primary fuel)
  | .moreArgs => ∀ s, Reads s (fun ts => ∃ us, Derives .moreArguments us ∧
      ts = us ++ [.sign .closeParen]) (moreArgs fuel)

namespace Deriving

section Succ

variable {fuel : Nat} (h : ∀ r, Deriving fuel r)

include h

theorem parenthesized_succ (s : State) :
    Reads s (fun ts => ∃ us, Derives .statement us ∧ ts = parens us)
      (Parser.parenthesized (fuel + 1)) := by
  rw [Parser.parenthesized]
  refine .bind (.sign .openParen) fun _ s a => .bind (h .statement s) fun _ s b => ?_
  refine .bind (.sign .closeParen) fun _ s c => .pure ?_
  rintro rfl hb rfl
  exact ⟨b, hb, rfl⟩

theorem braced_succ (s : State) :
    Reads s (fun ts => ∃ us, Derives .block us ∧ ts = braces us) (Parser.braced (fuel + 1)) := by
  rw [Parser.braced]
  refine .bind (.sign .openBrace) fun _ s a => .bind (h (.block true) s) fun _ s b => ?_
  refine .bind (.sign .closeBrace) fun _ s c => .pure ?_
  rintro rfl hb rfl
  exact ⟨b, hb, rfl⟩

theorem statement_succ (s : State) :
    Reads s (Derives .statement) (Parser.statement (fuel + 1)) := by
  rw [Parser.statement]
  refine .get_bind ?_
  split
  · exact .unexpected
  · refine .bind (h .braced s) fun _ s a => .node ?_
    rintro ⟨body, hbody, rfl⟩
    simpa using Derives.scope hbody
  · next text line rest hs => exact .advance_bind hs fun s _ => .node (.comment text)
  · next line rest hs =>
    refine .advance_bind hs fun s _ => .bind (h .parenthesized s) fun _ s a => .node ?_
    rintro ⟨value, hvalue, rfl⟩
    simpa using Derives.print hvalue
  · next line rest hs =>
    refine .advance_bind hs fun s _ => .bind (h .parenthesized s) fun _ s a => ?_
    refine .bind (h .braced s) fun _ s b => .node ?_
    rintro ⟨body, hbody, rfl⟩ ⟨guard, hguard, rfl⟩
    simpa using Derives.branch hguard hbody
  · next line rest hs =>
    refine .advance_bind hs fun s _ => .bind (h .parenthesized s) fun _ s a => ?_
    refine .bind (h .braced s) fun _ s b => .node ?_
    rintro ⟨body, hbody, rfl⟩ ⟨guard, hguard, rfl⟩
    simpa using Derives.whileLoop hguard hbody
  · next line rest hs =>
    refine .advance_bind hs fun s _ => .bind (.sign .openParen) fun _ s a => ?_
    refine .bind (h .statement s) fun _ s start => .bind (.sign .semicolon) fun _ s b => ?_
    refine .bind (h .statement s) fun _ s guard => .bind (.sign .semicolon) fun _ s c => ?_
    refine .bind (h .statement s) fun _ s step => .bind (.sign .closeParen) fun _ s d => ?_
    refine .bind (h .braced s) fun _ s e => .node ?_
    rintro ⟨body, hbody, rfl⟩ rfl hstep rfl hguard rfl hstart rfl
    simpa [parens] using Derives.forLoop hstart hguard hstep hbody
  · next line rest hs =>
    refine .advance_bind hs fun s _ => .bind .name fun _ s a => .node_bind fun _ s => ?_
    refine .bind (.paramList fuel s) fun _ s b => .bind (.sign .equals) fun _ s c => ?_
    refine .bind (h .braced s) fun _ s d => .node ?_
    rintro ⟨body, hbody, rfl⟩ rfl ⟨params, hparams, rfl⟩ ⟨f, rfl⟩
    simpa using Derives.function f hparams hbody
  · next x line _ rest hs =>
    refine .advance_bind hs fun s hs => .advance_bind hs fun s _ => .node_bind fun _ s => ?_
    refine .bind (h .statement s) fun _ s value => .node fun hvalue => ?_
    simpa using Derives.assign x hvalue
  · next x line _ rest hs =>
    refine .advance_bind hs fun s hs => .advance_bind hs fun s _ => .node_bind fun _ s => ?_
    refine .bind (h .statement s) fun _ s value => .node fun hvalue => ?_
    simpa using Derives.define x hvalue
  · refine .bind .typedName fun _ s a => .node ?_
    rintro ⟨x, ty, rfl⟩
    simpa using Derives.declare x ty
  · exact (h (.operand .relation) s).weaken fun _ => .expression

theorem operators_succ (level : Level) (left : Node) (s : State) :
    Reads s (Derives (.operators level)) (Parser.operators (fuel + 1) level left) := by
  rw [Parser.operators]
  refine .peek_bind ?_
  cases hs : s.ahead with
  | nil => exact .pure .lastOperand
  | cons t rest =>
    simp only [List.head?_cons]
    split
    · exact .pure .lastOperand
    · next form hform =>
      obtain ⟨sg, hsg, ht⟩ := operator?_isSome.mp (by rw [hform]; rfl)
      refine .advance_bind hs fun s _ => .bind (h (.tighter level) s) fun _ s a => ?_
      refine .node_bind fun _ s => (h (.operators level _) s).weaken fun ts hts ha => ?_
      rw [ht]
      exact .nextOperand hsg ha hts

theorem power_succ (s : State) : Reads s (Derives .power) (Parser.power (fuel + 1)) := by
  rw [Parser.power]
  refine .bind (h .primary s) fun _ s a => .peek_bind ?_
  cases hs : s.ahead with
  | nil => exact .pure fun ha => by simpa using Derives.base ha
  | cons t rest =>
    simp only [List.head?_cons]
    split
    · next line ht =>
      cases ht
      refine .advance_bind hs fun s _ => .bind (h .power s) fun _ s b => .node fun hb ha => ?_
      simpa using Derives.power ha hb
    · exact .pure fun ha => by simpa using Derives.base ha

theorem primary_succ (s : State) : Reads s (Derives .primary) (Parser.primary (fuel + 1)) := by
  rw [Parser.primary]
  refine .get_bind ?_
  split
  · next f line _ rest hs =>
    refine .advance_bind hs fun s hs => .advance_bind hs fun s _ => .node_bind fun _ s => ?_
    refine .sees_bind ?_
    split
    · next hclose =>
      obtain ⟨line, rest, hs⟩ := Consumes.exists_of_sees hclose
      refine .advance_bind hs fun s _ => .node ?_
      exact .call f .noArguments
    · refine .bind (h (.operand .relation) s) fun _ s a => .bind (h .moreArgs s) fun _ s b => ?_
      refine .node_bind fun _ s => .node ?_
      rintro ⟨us, hus, rfl⟩ ha
      simpa [parens] using Derives.call f (.arguments ha hus)
  · next x line rest _ hs => exact .advance_bind hs fun s _ => .node (.read x)
  · next fn line rest hs =>
    refine .advance_bind hs fun s _ => .bind (.sign .openParen) fun _ s a => ?_
    refine .bind (h (.operand .relation) s) fun _ s b => .bind (.sign .closeParen) fun _ s c => ?_
    refine .node ?_
    rintro rfl hb rfl
    simpa [parens] using Derives.math fn hb
  · next line rest hs =>
    refine .advance_bind hs fun s _ => .bind (.sign .openParen) fun _ s a => ?_
    refine .bind (h .statement s) fun _ s b => .bind (.sign .comma) fun _ s c => ?_
    refine .bind .typeName fun _ s d => .bind (.sign .closeParen) fun _ s e => ?_
    refine .node_bind fun _ s => .node ?_
    rintro rfl ⟨ty, rfl⟩ rfl hb rfl
    simpa [parens] using Derives.cast ty hb
  · next line rest hs =>
    refine .advance_bind hs fun s _ => .bind (h (.operand .relation) s) fun _ s b => ?_
    refine .bind (.sign .closeParen) fun _ s c => .pure ?_
    rintro rfl hb
    simpa [parens] using Derives.enclosed hb
  · next t rest _ _ _ _ _ hs =>
    split
    · next form hform => exact .advance_bind hs fun s _ => .node (derives_literal hform)
    · exact .unexpected
  · exact .unexpected

theorem moreArgs_succ (s : State) :
    Reads s (fun ts => ∃ us, Derives .moreArguments us ∧ ts = us ++ [.sign .closeParen])
      (Parser.moreArgs (fuel + 1)) := by
  rw [Parser.moreArgs]
  refine .sees_bind ?_
  split
  · next hcomma =>
    obtain ⟨line, rest, hs⟩ := Consumes.exists_of_sees hcomma
    refine .advance_bind hs fun s _ => .bind (h (.operand .relation) s) fun _ s a => ?_
    refine .bind (h .moreArgs s) fun _ s b => .pure ?_
    rintro ⟨us, hus, rfl⟩ ha
    exact ⟨_, .nextArgument ha hus, by simp⟩
  · refine .bind (.sign .closeParen) fun _ s a => .pure ?_
    rintro rfl
    exact ⟨[], .lastArgument, rfl⟩

theorem statements_succ (nested : Bool) (s : State) :
    Reads s (Derives .block) (liftM (Parser.statements nested (fuel + 1))) := by
  intro r u hlift
  obtain ⟨ns, hrun, rfl⟩ := outcome_lift_eq_some.mp hlift
  have hrest {s u : State} {ns : List Node}
      (hrun : (Parser.statements nested fuel).run s = some (ns, u)) :=
    h (.statements nested) s (.ok ns) u (outcome_lift_eq_some.mpr ⟨ns, hrun, rfl⟩)
  cases passes_of_run_statements hrun with
  | nil => exact ⟨[], rfl, id, fun _ _ _ => .done⟩
  | closed => exact ⟨[], rfl, id, fun _ _ _ => .done⟩
  | @separator t rest _ _ hs hsep hrun =>
    obtain ⟨read, hahead, herrors, hread⟩ := hrest hrun
    refine ⟨t :: read, hs.trans (congrArg (t :: ·) hahead), herrors, fun a _ he => ?_⟩
    rw [List.map_cons, hsep]
    exact .separator (hread _ rfl he)
  | next hs _ _ hn hrun =>
    obtain ⟨read, hahead, herrors, hread⟩ := h .statement s _ _ hn
    obtain ⟨more, hahead', herrors', hmore⟩ := hrest hrun
    refine ⟨read ++ more, ?_, fun he => herrors (herrors' he), fun _ _ he => ?_⟩
    · rw [hahead, hahead', List.append_assoc]
    · rw [List.map_append]
      exact .next (hread _ rfl (herrors' he)) (hmore _ rfl he)
  | @failed _ _ e v _ _ hs _ _ he hrun =>
    -- the error is recorded, so nothing is claimed of what was read
    obtain ⟨read, hahead, -, -⟩ := h .statement s _ _ he
    obtain ⟨more, hahead', herrors', -⟩ := hrest hrun
    obtain ⟨dropped, hdropped⟩ := ahead_resume nested s.ahead.length e v
    have hdirty := fun he => recorded_ne_empty e v.errors (herrors' he)
    refine ⟨read ++ (dropped ++ more), ?_, fun he => absurd he hdirty,
      fun _ _ he => absurd he hdirty⟩
    rw [hahead, ← hdropped, hahead', List.append_assoc, List.append_assoc]

theorem block_succ (nested : Bool) (s : State) :
    Reads s (Derives .block) (liftM (Parser.block nested (fuel + 1))) := by
  intro r u hlift
  obtain ⟨b, hblock, rfl⟩ := outcome_lift_eq_some.mp hlift
  obtain ⟨ns, t, hrun, -, rfl⟩ := exists_of_run_block hblock
  obtain ⟨read, hahead, herrors, hread⟩ :=
    h (.statements nested) s _ _ (outcome_lift_eq_some.mpr ⟨ns, hrun, rfl⟩)
  exact ⟨read, hahead, herrors, fun _ _ he => hread _ rfl he⟩

end Succ

/-- Every rule reads what is derivable from its category. -/
theorem all (fuel : Nat) (r : Rule) : Deriving fuel r := by
  induction fuel, r using Rule.induction with
  | exhausted r => cases r <;> exact fun _ => .exhausted
  | statement fuel h => exact statement_succ h
  | parenthesized fuel h => exact parenthesized_succ h
  | braced fuel h => exact braced_succ h
  | block fuel nested h => exact block_succ h nested
  | statements fuel nested h => exact statements_succ h nested
  | operand fuel level h =>
    intro s
    rw [Parser.operand]
    refine .bind (h (.tighter level) s) fun left s a => ?_
    exact (h (.operators level left) s).weaken fun _ hts ha => .operand ha hts
  | operators fuel level left h => exact operators_succ h level left
  | tighter fuel level h =>
    cases level with
    | relation => exact h (.operand .sum)
    | sum => exact h (.operand .product)
    | product => exact h .power
  | power fuel h => exact power_succ h
  | primary fuel h => exact primary_succ h
  | moreArgs fuel h => exact moreArgs_succ h

end Deriving

end Parser

/-- **Recovery never hides an error**: a list of tokens in which no error is found
    is derivable. -/
theorem derives_of_parse {tokens : List Lexed} {firstId : Nat}
    (h : (parse tokens firstId).errors = []) :
    Grammar.Derives .block (tokens.map Lexed.token) := by
  obtain ⟨fuel, ns, t, hrun⟩ := Parser.exists_run_statements false (Parser.start tokens firstId)
  rw [Parser.parse_eq_of_run hrun] at h
  have hclean : t.errors = #[] := by simpa using h
  obtain ⟨read, hahead, -, hread⟩ := Parser.Deriving.all fuel (.statements false) _ (.ok ns) t
    (Parser.outcome_lift_eq_some.mpr ⟨ns, hrun, rfl⟩)
  rw [Parser.ahead_of_run_statements hrun, List.append_nil] at hahead
  have hall : tokens = read := hahead
  rw [hall]
  exact hread ns rfl hclean

end Scriptlet
