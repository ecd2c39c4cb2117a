import Scriptlet.Proofs.Matching
import Scriptlet.Proofs.Outcome
import Scriptlet.Proofs.Shape

/-!
# Two parsers side by side

One parser reads some tokens, another reads the same tokens on other lines, with
further tokens behind them that begin with a semicolon. The two stay in step: a
semicolon goes on with no phrase, so the first parser ends a phrase at the end
of its tokens exactly where the second one ends it at the semicolon. They part
company only where a phrase is not complete at the end, and there the first
parser finds the unexpected end of its tokens.

Result: `Parser.statements_alongside`. If the first parser does not find the end
unexpectedly, the statements and the errors of the second one are those of the
first, followed by what comes of the further tokens.
-/

namespace Scriptlet

/-- The same token on lines that are related. -/
structure Lexed.Like (L : Nat → Nat → Prop) (x y : Lexed) : Prop where
  token : x.token = y.token
  line : L x.line y.line

/-- The same error of syntax on lines that are related. -/
inductive SourceError.Like (L : Nat → Nat → Prop) : SourceError → SourceError → Prop
  | unexpectedToken {t : Token} {i j : Nat} : L i j →
      Like L (.unexpectedToken t i) (.unexpectedToken t j)
  | unexpectedEnd {i j : Nat} : L i j → Like L (.unexpectedEnd i) (.unexpectedEnd j)

namespace Parser

variable {α β γ δ : Type}

/-! ## States side by side -/

/-- What the second parser has more than the first. -/
structure Setting where
  /-- how the lines of the two are related -/
  lines : Nat → Nat → Prop
  /-- the tokens behind those of the first parser -/
  behind : List Lexed
  /-- the errors found before -/
  before : List SourceError
  /-- the line on which the source of the second parser ends -/
  endLine : Nat
  separated : ∀ t, behind.head?.map Lexed.token = some t → t = .sign .semicolon
  settled : ∀ line, before.getLast? ≠ some (.unexpectedEnd line)

/-- The two parsers are at the same place. -/
structure Beside (S : Setting) (s s' : State) : Prop where
  ahead : ∃ ts, List.Forall₂ (Lexed.Like S.lines) s.ahead ts ∧ s'.ahead = ts ++ S.behind
  errors : ∃ es, List.Forall₂ (SourceError.Like S.lines) s.errors.toList es ∧
    s'.errors.toList = S.before ++ es
  endLine : s'.endLine = S.endLine
  ends : S.behind = [] → S.lines s.endLine S.endLine

namespace Beside

variable {S : Setting} {s s' : State} {x : Lexed} {tail : List Lexed}

/-- Giving out ids changes nothing. -/
theorem fresh (h : Beside S s s') (id id' : Nat) :
    Beside S { s with nextId := id } { s' with nextId := id' } :=
  ⟨h.ahead, h.errors, h.endLine, h.ends⟩

/-- The next token, and the states after it. -/
theorem cons (h : Beside S s s') (hs : s.ahead = x :: tail) :
    ∃ x' tail', s'.ahead = x' :: tail' ∧ x.Like S.lines x' ∧
      Beside S { s with ahead := tail } { s' with ahead := tail' } := by
  obtain ⟨ts, hts, hahead⟩ := h.ahead
  rw [hs] at hts
  cases hts with
  | @cons _ x' _ ts hx hts =>
    exact ⟨x', ts ++ S.behind, hahead, hx, ⟨ts, hts, rfl⟩, h.errors, h.endLine, h.ends⟩

/-- At the end of the first tokens come the further ones. -/
theorem nil (h : Beside S s s') (hs : s.ahead = []) : s'.ahead = S.behind := by
  obtain ⟨ts, hts, hahead⟩ := h.ahead
  rw [hs] at hts
  cases hts
  exact hahead

/-- Tokens other than semicolons are seen by both parsers or by none. -/
theorem head?_eq_iff (h : Beside S s s') {t : Token} (ht : t ≠ .sign .semicolon) :
    s.ahead.head?.map Lexed.token = some t ↔ s'.ahead.head?.map Lexed.token = some t := by
  cases hs : s.ahead with
  | nil =>
    rw [h.nil hs]
    refine ⟨nofun, fun hhead => absurd (S.separated t hhead) ht⟩
  | cons x tail =>
    obtain ⟨x', tail', hs', hx, -⟩ := h.cons hs
    rw [hs', List.head?_cons, List.head?_cons, Option.map_some, Option.map_some, hx.token]

/-- The second parser has the further tokens more or fewer than in other states. -/
theorem length (h : Beside S s s') : s'.ahead.length = s.ahead.length + S.behind.length := by
  obtain ⟨ts, hts, hahead⟩ := h.ahead
  rw [hahead, List.length_append, hts.length_eq]

end Beside

/-! ## Going on after an error -/

/-- The last elements of lists that correspond. -/
theorem getLast?_of_forall₂ {R : α → β → Prop} {xs : List α} {ys : List β}
    (h : List.Forall₂ R xs ys) : Option.Rel R xs.getLast? ys.getLast? := by
  induction h with
  | nil => exact .none
  | @cons x y xs ys hxy _ ih =>
    rw [List.getLast?_cons, List.getLast?_cons]
    generalize xs.getLast? = x' at ih
    generalize ys.getLast? = y' at ih
    cases ih with
    | none => exact .some hxy
    | some h => exact .some h

section Resume

variable {S : Setting} {u u' : State} {e e' : SourceError}

/-- The two parsers record the same errors. -/
theorem Beside.recorded (h : Beside S u u') (he : e.Like S.lines e') :
    ∃ es, List.Forall₂ (SourceError.Like S.lines) (recorded e u.errors).toList es ∧
      (Parser.recorded e' u'.errors).toList = S.before ++ es := by
  obtain ⟨es, hes, heq⟩ := h.errors
  rw [toList_recorded, toList_recorded, heq]
  cases he with
  | unexpectedToken hline =>
    exact ⟨es ++ [_], List.rel_append hes (.cons (.unexpectedToken hline) .nil), by simp⟩
  | @unexpectedEnd i j hline =>
    have hpush : ∃ es', List.Forall₂ (SourceError.Like S.lines)
        (u.errors.toList ++ [.unexpectedEnd i]) es' ∧
        S.before ++ es ++ [.unexpectedEnd j] = S.before ++ es' :=
      ⟨es ++ [_], List.rel_append hes (.cons (.unexpectedEnd hline) .nil), by simp⟩
    have hlast := getLast?_of_forall₂ hes
    rw [List.getLast?_append]
    generalize hx : u.errors.toList.getLast? = x at hlast
    generalize hy : es.getLast? = y at hlast
    cases hlast with
    | none =>
      -- The last error of the second parser is one found before.
      rw [Option.none_or]
      cases hbefore : S.before.getLast? with
      | none => exact hpush
      | some d =>
        cases d with
        | unexpectedEnd line => exact absurd hbefore (S.settled line)
        | _ => exact hpush
    | some hxy =>
      rw [Option.some_or]
      cases hxy with
      | unexpectedToken _ => exact hpush
      | unexpectedEnd _ => exact ⟨es, hes, rfl⟩

theorem Beside.resume (nested : Bool) {length length' : Nat} (h : Beside S u u')
    (he : e.Like S.lines e') (hlength : 0 < length)
    (hlength' : length' = length + S.behind.length) :
    Beside S (resume nested length e u) (resume nested length' e' u') := by
  have hstalled : u.ahead.length = length ↔ u'.ahead.length = length' := by
    rw [h.length, hlength']
    omega
  have hclosing := h.head?_eq_iff (t := .sign .closeBrace) (by decide)
  unfold Parser.resume
  simp only [← hstalled, ← hclosing]
  refine ⟨?_, h.recorded he, h.endLine, h.ends⟩
  dsimp only
  split
  · next hdrop =>
    cases hahead : u.ahead with
    | nil =>
      rw [hahead] at hdrop
      exact absurd hdrop.1 (Nat.ne_of_lt hlength)
    | cons x tail =>
      obtain ⟨x', tail', hahead', -, htail⟩ := h.cons hahead
      rw [hahead']
      exact htail.ahead
  · exact h.ahead

theorem resume_nil {nested : Bool} {length : Nat} (hu : u.ahead = []) :
    (resume nested length e u).ahead = [] := by
  unfold Parser.resume
  simp [hu]

end Resume

/-! ## Outcomes side by side -/

/-- How two outcomes may be related. A result is `Q`. -/
inductive Agrees (S : Setting) (Q : α → β → Prop) :
    Except SourceError α × State → Except SourceError β × State → Prop
  /-- a phrase is not complete at the end of the first tokens -/
  | cut {line : Nat} {t : State} {r : Except SourceError β × State} : S.behind ≠ [] →
      t.ahead = [] → Agrees S Q (.error (.unexpectedEnd line), t) r
  | ok {a : α} {b : β} {t t' : State} : Beside S t t' → Q a b →
      Agrees S Q (.ok a, t) (.ok b, t')
  | error {e e' : SourceError} {t t' : State} : Beside S t t' → e.Like S.lines e' →
      Agrees S Q (.error e, t) (.error e', t')

/-- Two parsers side by side have related outcomes, if they come to anything. -/
def Alongside (S : Setting) (Q : α → β → Prop) (s s' : State) (p : Parser α)
    (p' : Parser β) : Prop :=
  ∀ r r', outcome p s = some r → outcome p' s' = some r' → Agrees S Q r r'

namespace Alongside

variable {S : Setting} {Q : α → β → Prop} {s s' : State} {p q : Parser α} {p' q' : Parser β}

theorem of_eq {r : Except SourceError α × State} {r' : Except SourceError β × State}
    (h : outcome p s = some r) (h' : outcome p' s' = some r') (hr : Agrees S Q r r') :
    Alongside S Q s s' p p' := by
  intro _ _ hrun hrun'
  cases h.symm.trans hrun
  cases h'.symm.trans hrun'
  exact hr

/-- Only the first outcome matters where a phrase is not complete. -/
theorem of_cut {line : Nat} {t : State} (h : outcome p s = some (.error (.unexpectedEnd line), t))
    (hbehind : S.behind ≠ []) (ht : t.ahead = []) : Alongside S Q s s' p p' := by
  intro _ _ hrun _
  cases h.symm.trans hrun
  exact .cut hbehind ht

theorem of_outcome_eq (hq : Alongside S Q s s' q q') (h : outcome p s = outcome q s)
    (h' : outcome p' s' = outcome q' s') : Alongside S Q s s' p p' :=
  fun r r' hrun hrun' => hq r r' (h ▸ hrun) (h' ▸ hrun')

theorem exhausted : Alongside S Q s s' exhausted p' := nofun

theorem pure {a : α} {b : β} (h : Beside S s s') (hab : Q a b) :
    Alongside S Q s s' (pure a) (pure b) := of_eq rfl rfl (.ok h hab)

theorem bind {P : γ → δ → Prop} {m : Parser γ} {m' : Parser δ} {f : γ → Parser α}
    {f' : δ → Parser β} (hm : Alongside S P s s' m m')
    (hf : ∀ c d t t', Beside S t t' → P c d → Alongside S Q t t' (f c) (f' d)) :
    Alongside S Q s s' (m >>= f) (m' >>= f') := by
  rintro ⟨r, u⟩ ⟨r', u'⟩ hrun hrun'
  rcases outcome_bind_eq_some.mp hrun with ⟨c, t, hc, hrun⟩ | ⟨e, he, rfl⟩
  · rcases outcome_bind_eq_some.mp hrun' with ⟨d, t', hd, hrun'⟩ | ⟨e', he', rfl⟩
    · cases hm _ _ hc hd with
      | ok ht hcd => exact hf c d t t' ht hcd _ _ hrun hrun'
    · cases hm _ _ hc he'
  · rcases outcome_bind_eq_some.mp hrun' with ⟨d, t', hd, -⟩ | ⟨e', he', rfl⟩
    · cases hm _ _ he hd with
      | cut hbehind hu => exact .cut hbehind hu
    · cases hm _ _ he he' with
      | cut hbehind hu => exact .cut hbehind hu
      | error hu hlike => exact .error hu hlike

theorem unexpected (h : Beside S s s') : Alongside S Q s s' unexpected unexpected := by
  cases hahead : s.ahead with
  | nil =>
    by_cases hbehind : S.behind = []
    · refine of_eq (outcome_unexpected_nil hahead)
        (outcome_unexpected_nil ((h.nil hahead).trans hbehind)) ?_
      exact .error h (.unexpectedEnd (h.endLine ▸ h.ends hbehind))
    · exact of_cut (outcome_unexpected_nil hahead) hbehind hahead
  | cons x tail =>
    obtain ⟨x', tail', hahead', hx, -⟩ := h.cons hahead
    refine of_eq (outcome_unexpected_cons hahead) (outcome_unexpected_cons hahead') ?_
    rw [← hx.token]
    exact .error h (.unexpectedToken hx.line)

theorem take {accept? : Token → Option γ} (h : Beside S s s') :
    Alongside S (fun a b => a.1 = b.1 ∧ S.lines a.2 b.2) s s' (take accept?) (take accept?) := by
  cases hahead : s.ahead with
  | nil =>
    have hnone : outcome (Parser.take accept?) s = outcome Parser.unexpected s :=
      outcome_take_none (by rw [hahead]; rfl)
    by_cases hbehind : S.behind = []
    · refine (unexpected h).of_outcome_eq hnone (outcome_take_none ?_)
      rw [h.nil hahead, hbehind]
      rfl
    · exact of_cut (hnone.trans (outcome_unexpected_nil hahead)) hbehind hahead
  | cons x tail =>
    obtain ⟨x', tail', hahead', hx, htail⟩ := h.cons hahead
    cases ha : accept? x.token with
    | none =>
      refine (unexpected h).of_outcome_eq (outcome_take_none ?_) (outcome_take_none ?_)
      · rw [hahead]
        exact ha
      · rw [hahead', List.head?_cons, Option.bind_some, ← hx.token, ha]
    | some a =>
      exact of_eq (outcome_take_some hahead ha) (outcome_take_some hahead' (hx.token ▸ ha))
        (.ok htail ⟨rfl, hx.line⟩)

theorem name (h : Beside S s s') :
    Alongside S (fun a b => a.1 = b.1 ∧ S.lines a.2 b.2) s s' name name := take h

theorem typeName (h : Beside S s s') :
    Alongside S (fun a b => a.1 = b.1 ∧ S.lines a.2 b.2) s s' typeName typeName := take h

theorem sign (sg : Sign) (h : Beside S s s') :
    Alongside S S.lines s s' (sign sg) (sign sg) :=
  bind (take h) fun _ _ _ _ ht hlines => pure ht hlines.2

theorem peek_bind {f : Option Lexed → Parser α} {f' : Option Lexed → Parser β}
    (h : Alongside S Q s s' (f s.ahead.head?) (f' s'.ahead.head?)) :
    Alongside S Q s s' (liftM peek >>= f) (liftM peek >>= f') := h

theorem get_bind {f : State → Parser α} {f' : State → Parser β}
    (h : Alongside S Q s s' (f s) (f' s')) :
    Alongside S Q s s' (get >>= f) (get >>= f') := h

section Nodes

variable {line line' : Nat} {form form' : Form Node}

/-- Making nodes that match. -/
theorem node (h : Beside S s s')
    (hnode : ∀ id id', Node.Matches S.lines ⟨id, line, form⟩ ⟨id', line', form'⟩) :
    Alongside S (Node.Matches S.lines) s s' (liftM (Parser.node line form))
      (liftM (Parser.node line' form')) :=
  of_eq rfl rfl (.ok (h.fresh _ _) (hnode _ _))

theorem node_bind {f : Node → Parser α} {f' : Node → Parser β} (h : Beside S s s')
    (hnode : ∀ id id', Node.Matches S.lines ⟨id, line, form⟩ ⟨id', line', form'⟩)
    (hf : ∀ n n' t t', Beside S t t' → n.Matches S.lines n' →
      Alongside S Q t t' (f n) (f' n')) :
    Alongside S Q s s' (liftM (Parser.node line form) >>= f)
      (liftM (Parser.node line' form') >>= f') :=
  hf _ _ _ _ (h.fresh _ _) (hnode _ _)

end Nodes

/-- Seeing a sign other than a semicolon. -/
theorem sees_bind {sg : Sign} {f : Bool → Parser α} {f' : Bool → Parser β} (h : Beside S s s')
    (hsg : sg ≠ .semicolon)
    (htrue : s.ahead.head?.map Lexed.token = some (.sign sg) →
      Alongside S Q s s' (f true) (f' true))
    (hfalse : Alongside S Q s s' (f false) (f' false)) :
    Alongside S Q s s' (liftM (sees sg) >>= f) (liftM (sees sg) >>= f') := by
  have hiff := h.head?_eq_iff (t := .sign sg) (by simpa using hsg)
  unfold Alongside
  rw [outcome_sees_bind, outcome_sees_bind]
  by_cases hs : s.ahead.head?.map Lexed.token = some (.sign sg)
  · rw [decide_eq_true hs, decide_eq_true (hiff.mp hs)]
    exact htrue hs
  · rw [decide_eq_false hs, decide_eq_false fun hs' => hs (hiff.mpr hs')]
    exact hfalse

/-- A rule that needs a token, at the end of the first tokens. -/
theorem of_nil (h : Beside S s s') (hs : s.ahead = [])
    (hp : ∀ u : State, u.ahead = [] → outcome p u = outcome Parser.unexpected u)
    (hp' : ∀ u : State, u.ahead = [] → outcome p' u = outcome Parser.unexpected u) :
    Alongside S Q s s' p p' := by
  by_cases hbehind : S.behind = []
  · exact (unexpected h).of_outcome_eq (hp s hs) (hp' s' ((h.nil hs).trans hbehind))
  · exact of_cut ((hp s hs).trans (outcome_unexpected_nil hs)) hbehind hs

/-- Taking the token that is known to come next. -/
theorem advance_bind {x : Lexed} {tail : List Lexed} {f : Unit → Parser α} {f' : Unit → Parser β}
    (h : Beside S s s') (hs : s.ahead = x :: tail)
    (hf : ∀ t t', Beside S t t' → t.ahead = tail → Alongside S Q t t' (f ()) (f' ())) :
    Alongside S Q s s' (liftM advance >>= f) (liftM advance >>= f') := by
  obtain ⟨x', tail', hs', -, htail⟩ := h.cons hs
  have hleft : ({ s with ahead := s.ahead.tail } : State) = { s with ahead := tail } := by
    rw [hs]
    rfl
  have hright : ({ s' with ahead := s'.ahead.tail } : State) = { s' with ahead := tail' } := by
    rw [hs']
    rfl
  unfold Alongside
  rw [outcome_advance_bind, outcome_advance_bind, hleft, hright]
  exact hf _ _ htail rfl

theorem typedName (h : Beside S s s') :
    Alongside S (fun a b => a.1.Matches S.lines b.1 ∧ a.2.Matches S.lines b.2) s s'
      typedName typedName := by
  refine bind (name h) ?_
  rintro ⟨x, line⟩ ⟨x', line'⟩ t t' ht ⟨rfl, hline⟩
  refine bind (sign .colon ht) fun _ _ t t' ht _ => ?_
  refine bind (typeName ht) ?_
  rintro ⟨ty, tyLine⟩ ⟨ty', tyLine'⟩ t t' ht ⟨rfl, htyLine⟩
  refine node_bind ht (fun _ _ => .leaf rfl hline) fun n n' t t' ht hn => ?_
  refine node_bind ht (fun _ _ => .leaf rfl htyLine) fun m m' t t' ht hm => ?_
  exact pure ht ⟨hn, hm⟩

theorem moreParams {fuel : Nat} (h : Beside S s s') :
    Alongside S (List.Forall₂ fun p q => p.1.Matches S.lines q.1 ∧ p.2.Matches S.lines q.2) s s'
      (moreParams fuel) (moreParams fuel) := by
  induction fuel generalizing s s' with
  | zero => exact exhausted
  | succ fuel ih =>
    rw [Parser.moreParams]
    refine sees_bind h (by decide) (fun hcomma => ?_) ?_
    · obtain ⟨x, tail, hahead, -⟩ := exists_of_head? hcomma
      refine advance_bind h hahead fun t t' ht _ => ?_
      refine bind (typedName ht) fun p q t t' ht hpq => ?_
      exact bind (ih ht) fun ps qs t t' ht hps => pure ht (.cons hpq hps)
    · exact bind (sign .closeParen h) fun _ _ t t' ht _ => pure ht .nil

theorem paramList {fuel : Nat} (h : Beside S s s') :
    Alongside S (Option.Rel (Node.Matches S.lines)) s s' (paramList fuel) (paramList fuel) := by
  refine bind (sign .openParen h) fun line line' t t' ht hline => ?_
  refine sees_bind ht (by decide) (fun hclose => ?_) ?_
  · obtain ⟨x, tail, hahead, -⟩ := exists_of_head? hclose
    exact advance_bind ht hahead fun t t' ht _ => pure ht .none
  · refine bind (typedName ht) fun p q t t' ht hpq => ?_
    refine bind (moreParams ht) fun ps qs t t' ht hps => ?_
    refine node_bind ht (fun _ _ => .params rfl rfl hline (.cons hpq hps)) ?_
    exact fun n n' t t' ht hn => pure ht (.some hn)

end Alongside

/-! ## The rules -/

/-- The two parsers stay in step in a rule. -/
def Follows (S : Setting) (Q : α → β → Prop) (p : Parser α) (p' : Parser β) : Prop :=
  ∀ s s', Beside S s s' → Alongside S Q s s' p p'

/-- How the results of two blocks in braces may be related. At the end of the first
    tokens nothing is claimed of them: a brace is missing there. -/
def Settles (S : Setting) (Q : α → β → Prop) (p : Step α) (p' : Step β) : Prop :=
  ∀ s s' a t a' t', Beside S s s' → p.run s = some (a, t) → p'.run s' = some (a', t') →
    S.behind ≠ [] ∧ t.ahead = [] ∨ Beside S t t' ∧ (t.ahead ≠ [] → Q a a')

/-- A block, and then what needs a token. -/
theorem Settles.bind {S : Setting} {P : γ → δ → Prop} {Q : α → β → Prop} {s s' : State}
    {m : Step γ} {m' : Step δ} {f : γ → Parser α} {f' : δ → Parser β} (hm : Settles S P m m')
    (hs : Beside S s s')
    (hend : ∀ c (u : State), u.ahead = [] → outcome (f c) u = outcome unexpected u)
    (hend' : ∀ d (u : State), u.ahead = [] → outcome (f' d) u = outcome unexpected u)
    (hf : ∀ c d t t', Beside S t t' → P c d → Alongside S Q t t' (f c) (f' d)) :
    Alongside S Q s s' (liftM m >>= f) (liftM m' >>= f') := by
  rintro ⟨r, u⟩ ⟨r', u'⟩ hrun hrun'
  obtain ⟨c, t, hc, hrun⟩ := outcome_lift_bind_eq_some.mp hrun
  obtain ⟨d, t', hd, hrun'⟩ := outcome_lift_bind_eq_some.mp hrun'
  rcases hm s s' c t d t' hs hc hd with ⟨hbehind, ht⟩ | ⟨ht, hcd⟩
  · exact Alongside.of_cut ((hend c t ht).trans (outcome_unexpected_nil ht)) hbehind ht _ _ hrun hrun'
  · by_cases hahead : t.ahead = []
    · exact Alongside.of_nil ht hahead (hend c) (hend' d) _ _ hrun hrun'
    · exact hf c d t t' ht (hcd hahead) _ _ hrun hrun'

/-- The two parsers stay in step in every rule. -/
def InStep (S : Setting) (fuel : Nat) : Rule → Prop
  | .statement => Follows S (Node.Matches S.lines) (statement fuel) (statement fuel)
  | .parenthesized => Follows S (Node.Matches S.lines) (parenthesized fuel) (parenthesized fuel)
  | .braced => Follows S (Node.Matches S.lines) (braced fuel) (braced fuel)
  | .block _ => Settles S (Node.Matches S.lines) (block true fuel) (block true fuel)
  | .statements _ => Settles S (List.Forall₂ (Node.Matches S.lines)) (statements true fuel)
      (statements true fuel)
  | .operand level => Follows S (Node.Matches S.lines) (operand fuel level) (operand fuel level)
  | .operators level left => ∀ left', left.Matches S.lines left' →
      Follows S (Node.Matches S.lines) (operators fuel level left) (operators fuel level left')
  | .tighter level => Follows S (Node.Matches S.lines) (tighter fuel level) (tighter fuel level)
  | .power => Follows S (Node.Matches S.lines) (power fuel) (power fuel)
  | .primary => Follows S (Node.Matches S.lines) (primary fuel) (primary fuel)
  | .moreArgs => Follows S (List.Forall₂ (Node.Matches S.lines)) (moreArgs fuel) (moreArgs fuel)

namespace InStep

section Succ

variable {S : Setting} {fuel : Nat} (h : ∀ r, InStep S fuel r)

include h

theorem parenthesized_succ :
    Follows S (Node.Matches S.lines) (Parser.parenthesized (fuel + 1))
      (Parser.parenthesized (fuel + 1)) := by
  intro s s' hs
  rw [Parser.parenthesized]
  refine .bind (.sign .openParen hs) fun _ _ t t' ht _ => ?_
  refine .bind (h .statement _ _ ht) ?_
  refine fun n n' t t' ht hn => ?_
  exact .bind (.sign .closeParen ht) fun _ _ t t' ht _ => .pure ht hn

theorem tighter_succ (level : Level) :
    Follows S (Node.Matches S.lines) (Parser.tighter (fuel + 1) level)
      (Parser.tighter (fuel + 1) level) := by
  cases level with
  | relation => exact h (.operand .sum)
  | sum => exact h (.operand .product)
  | product => exact h .power

theorem operand_succ (level : Level) :
    Follows S (Node.Matches S.lines) (Parser.operand (fuel + 1) level)
      (Parser.operand (fuel + 1) level) := by
  intro s s' hs
  rw [Parser.operand]
  refine .bind (h (.tighter level) _ _ hs) fun left left' t t' ht hleft => ?_
  exact h (.operators level left) left' hleft _ _ ht

theorem operators_succ (level : Level) (left left' : Node) (hleft : left.Matches S.lines left') :
    Follows S (Node.Matches S.lines) (Parser.operators (fuel + 1) level left)
      (Parser.operators (fuel + 1) level left') := by
  intro s s' hs
  by_cases hdone : ∀ t, s.ahead.head?.map Lexed.token = some t → level.operator? t = none
  · have hdone' : ∀ t, s'.ahead.head?.map Lexed.token = some t → level.operator? t = none := by
      intro t ht
      by_cases hsemicolon : t = .sign .semicolon
      · rw [hsemicolon]
        cases level <;> rfl
      · exact hdone t ((hs.head?_eq_iff hsemicolon).mpr ht)
    exact .of_eq (outcome_operators_done hdone) (outcome_operators_done hdone') (.ok hs hleft)
  · simp only [not_forall] at hdone
    obtain ⟨t, ht, hop⟩ := hdone
    obtain ⟨form, hform⟩ := Option.ne_none_iff_exists'.mp hop
    obtain ⟨x, tail, hahead, rfl⟩ := exists_of_head? ht
    obtain ⟨x', tail', hahead', hx, -⟩ := hs.cons hahead
    have hform' : level.operator? x'.token = some form := by rw [← hx.token, hform]
    rw [Parser.operators, Parser.operators]
    refine .peek_bind ?_
    simp only [hahead, hahead', List.head?_cons, hform, hform']
    refine .advance_bind hs hahead fun t t' ht _ => ?_
    refine .bind (h (.tighter level) _ _ ht) fun right right' t t' ht hright => ?_
    refine .node_bind ht (fun _ _ => ?_) fun m m' t t' ht hm => ?_
    · exact .operator (Level.operator?_eq_some hform) rfl rfl hx.line hleft hright
    · exact h (.operators level m) m' hm _ _ ht

theorem power_succ :
    Follows S (Node.Matches S.lines) (Parser.power (fuel + 1)) (Parser.power (fuel + 1)) := by
  intro s s' hs
  rw [Parser.power]
  refine .bind (h .primary _ _ hs) ?_
  refine fun base base' t t' ht hbase => .peek_bind ?_
  have hiff := ht.head?_eq_iff (t := .sign .caret) (by decide)
  by_cases hcaret : t.ahead.head?.map Lexed.token = some (.sign .caret)
  · obtain ⟨⟨_, line⟩, tail, hahead, rfl⟩ := exists_of_head? hcaret
    obtain ⟨⟨_, line'⟩, tail', hahead', ⟨rfl, hline⟩, -⟩ := ht.cons hahead
    simp only [hahead, hahead', List.head?_cons]
    refine .advance_bind ht hahead fun t t' ht _ => ?_
    refine .bind (h .power _ _ ht) ?_
    refine fun exponent exponent' t t' ht hexponent => .node ht fun _ _ => ?_
    exact .operator (.inr ⟨.pow, rfl⟩) rfl rfl hline hbase hexponent
  · have hcaret' := fun hs' => hcaret (hiff.mpr hs')
    split
    · next hhead => exact absurd (by rw [hhead]; rfl) hcaret
    split
    · next hhead => exact absurd (by rw [hhead]; rfl) hcaret'
    exact .pure ht hbase

theorem moreArgs_succ :
    Follows S (List.Forall₂ (Node.Matches S.lines)) (Parser.moreArgs (fuel + 1))
      (Parser.moreArgs (fuel + 1)) := by
  intro s s' hs
  rw [Parser.moreArgs]
  refine .sees_bind hs (by decide) (fun hcomma => ?_) ?_
  · obtain ⟨x, tail, hahead, -⟩ := exists_of_head? hcomma
    refine .advance_bind hs hahead fun t t' ht _ => ?_
    refine .bind (h (.operand .relation) _ _ ht)
      fun v v' t t' ht hv => ?_
    refine .bind (h .moreArgs _ _ ht) ?_
    exact fun values values' t t' ht hvalues => .pure ht (.cons hv hvalues)
  · refine .bind (.sign .closeParen hs) fun _ _ t t' ht _ => ?_
    exact .pure ht .nil

/-- A name that is called. -/
theorem call {line line' argsLine argsLine' : Nat} {f : String} {s s' : State}
    {tail tail' : List Lexed} (hs : Beside S s s')
    (hahead : s.ahead = ⟨.name f, line⟩ :: ⟨.sign .openParen, argsLine⟩ :: tail)
    (hahead' : s'.ahead = ⟨.name f, line'⟩ :: ⟨.sign .openParen, argsLine'⟩ :: tail')
    (hline : S.lines line line') (hargsLine : S.lines argsLine argsLine') :
    Alongside S (Node.Matches S.lines) s s' (Parser.primary (fuel + 1))
      (Parser.primary (fuel + 1)) := by
  rw [Parser.primary]
  refine .get_bind ?_
  simp only [hahead, hahead']
  refine .advance_bind hs hahead fun t t' ht hahead => ?_
  refine .advance_bind ht hahead fun t t' ht _ => ?_
  refine .node_bind ht (fun _ _ => .leaf rfl hline) fun m m' t t' ht hm => ?_
  refine .sees_bind ht (by decide) (fun hclose => ?_) ?_
  · obtain ⟨x, tail, hahead, -⟩ := exists_of_head? hclose
    refine .advance_bind ht hahead fun t t' ht _ => .node ht fun _ _ => ?_
    exact .node (.call (m, m') none) hline (by simpa [Form.children] using hm)
  · refine .bind (h (.operand .relation) _ _ ht)
      fun v v' t t' ht hv => ?_
    refine .bind (h .moreArgs _ _ ht) ?_
    refine fun values values' t t' ht hvalues => ?_
    refine .node_bind ht (fun _ _ => .args rfl rfl hargsLine (.cons hv hvalues)) ?_
    refine fun args args' t t' ht hargs => .node ht fun _ _ => ?_
    exact .node (.call (m, m') (some (args, args'))) hline
      (by simpa [Form.children] using ⟨hm, hargs⟩)

theorem primary_succ :
    Follows S (Node.Matches S.lines) (Parser.primary (fuel + 1))
      (Parser.primary (fuel + 1)) := by
  intro s s' hs
  cases hahead : s.ahead with
  | nil => exact .of_nil hs hahead (fun _ => outcome_primary_nil) fun _ => outcome_primary_nil
  | cons x tail =>
    obtain ⟨token, line⟩ := x
    obtain ⟨⟨_, line'⟩, tail', hahead', ⟨rfl, hline⟩, htail⟩ := hs.cons hahead
    cases token with
    | name f =>
      have hiff : tail.head?.map Lexed.token = some (.sign .openParen) ↔
          tail'.head?.map Lexed.token = some (.sign .openParen) := htail.head?_eq_iff (by decide)
      by_cases hcall : tail.head?.map Lexed.token = some (.sign .openParen)
      · obtain ⟨⟨_, argsLine⟩, tail, rfl, rfl⟩ := exists_of_head? hcall
        obtain ⟨⟨_, argsLine'⟩, tail'', htail', ⟨rfl, hargsLine⟩, -⟩ := htail.cons rfl
        obtain rfl : tail' = _ := htail'
        exact call h hs hahead hahead' hline hargsLine
      · exact .of_eq (outcome_primary_name hahead hcall)
          (outcome_primary_name hahead' fun h => hcall (hiff.mpr h))
          (.ok (htail.fresh _ _) (.leaf rfl hline))
    | math fn =>
      rw [Parser.primary]
      refine .get_bind ?_
      simp only [hahead, hahead']
      refine .advance_bind hs hahead fun t t' ht _ => ?_
      refine .bind (.sign .openParen ht) fun _ _ t t' ht _ => ?_
      refine .bind (h (.operand .relation) _ _ ht) ?_
      refine fun m m' t t' ht hm => ?_
      refine .bind (.sign .closeParen ht) fun _ _ t t' ht _ => ?_
      refine .node ht fun _ _ => .node (.math fn (m, m')) hline ?_
      simpa [Form.children] using hm
    | keyword k =>
      rw [Parser.primary]
      refine .get_bind ?_
      cases k with
      | staticCast =>
        simp only [hahead, hahead']
        refine .advance_bind hs hahead fun t t' ht _ => ?_
        refine .bind (.sign .openParen ht) fun _ _ t t' ht _ => ?_
        refine .bind (h .statement _ _ ht) ?_
        refine fun v v' t t' ht hv => ?_
        refine .bind (.sign .comma ht) fun _ _ t t' ht _ => ?_
        refine .bind (.typeName ht) ?_
        rintro ⟨ty, tyLine⟩ ⟨ty', tyLine'⟩ t t' ht ⟨rfl, htyLine⟩
        refine .bind (.sign .closeParen ht) fun _ _ t t' ht _ => ?_
        refine .node_bind ht (fun _ _ => .leaf rfl htyLine) fun m m' t t' ht hm => ?_
        refine .node ht fun _ _ => .node (.cast (v, v') (m, m')) hline ?_
        simpa [Form.children] using ⟨hv, hm⟩
      | _ =>
        simp only [hahead, hahead']
        exact .unexpected hs
    | sign sg =>
      rw [Parser.primary]
      refine .get_bind ?_
      cases sg with
      | openParen =>
        simp only [hahead, hahead']
        refine .advance_bind hs hahead fun t t' ht _ => ?_
        refine .bind (h (.operand .relation) _ _ ht) ?_
        refine fun m m' t t' ht hm => ?_
        refine .bind (.sign .closeParen ht) fun _ _ t t' ht _ => ?_
        exact .pure ht hm
      | _ =>
        simp only [hahead, hahead']
        exact .unexpected hs
    | int | float | str | bool | pi =>
      rw [Parser.primary]
      refine .get_bind ?_
      simp only [hahead, hahead']
      refine .advance_bind hs hahead fun t t' ht _ => .node ht fun _ _ => ?_
      exact .leaf rfl hline
    | ty | comment | lineBreak | blank =>
      rw [Parser.primary]
      refine .get_bind ?_
      simp only [hahead, hahead']
      exact .unexpected hs

theorem braced_succ :
    Follows S (Node.Matches S.lines) (Parser.braced (fuel + 1)) (Parser.braced (fuel + 1)) := by
  intro s s' hs
  rw [Parser.braced]
  refine .bind (.sign .openBrace hs) fun _ _ t t' ht _ => ?_
  refine (h (.block true)).bind ht (fun _ _ => outcome_sign_bind_nil)
    (fun _ _ => outcome_sign_bind_nil) fun b b' t t' ht hb => ?_
  exact .bind (.sign .closeBrace ht) fun _ _ t t' ht _ => .pure ht hb

theorem block_succ : Settles S (Node.Matches S.lines) (Parser.block true (fuel + 1))
    (Parser.block true (fuel + 1)) := by
  intro s s' b u b' u' hs hrun hrun'
  obtain ⟨ns, t, hns, rfl, rfl⟩ := exists_of_run_block hrun
  obtain ⟨ns', t', hns', rfl, rfl⟩ := exists_of_run_block hrun'
  rcases h (.statements true) s s' ns t ns' t' hs hns hns' with hcut | ⟨ht, hmatch⟩
  · exact .inl hcut
  · refine .inr ⟨ht.fresh _ _, fun hend => .block rfl rfl ?_ (hmatch hend)⟩
    cases hahead : s.ahead with
    | nil =>
      obtain ⟨-, rfl⟩ := run_statements_of_nil hahead hns
      exact absurd hahead hend
    | cons x tail =>
      obtain ⟨x', tail', hahead', hx, -⟩ := hs.cons hahead
      rw [hahead']
      exact hx.line

theorem statements_succ : Settles S (List.Forall₂ (Node.Matches S.lines))
    (Parser.statements true (fuel + 1)) (Parser.statements true (fuel + 1)) := by
  intro s s' ns u ns' u' hs hrun hrun'
  cases passes_of_run_statements hrun with
  | nil hahead =>
    by_cases hbehind : S.behind = []
    · rw [run_statements_nil true _ ((hs.nil hahead).trans hbehind)] at hrun'
      cases hrun'
      exact .inr ⟨hs, fun h => absurd hahead h⟩
    · exact .inl ⟨hbehind, hahead⟩
  | closed hahead _ hclose =>
    obtain ⟨x', tail', hahead', hx, -⟩ := hs.cons hahead
    rw [run_statements_closed _ hahead' (hx.token ▸ hclose)] at hrun'
    cases hrun'
    exact .inr ⟨hs, fun _ => .nil⟩
  | separator hahead hsep hrest =>
    obtain ⟨x', tail', hahead', hx, htail⟩ := hs.cons hahead
    rw [run_statements_separator hahead' (hx.token ▸ hsep)] at hrun'
    exact h (.statements true) _ _ _ _ _ _ htail hrest hrun'
  | next hahead hopen hsep hn hrest =>
    obtain ⟨x', tail', hahead', hx, -⟩ := hs.cons hahead
    rcases exists_of_run_statements hahead' (hx.token ▸ hopen) (hx.token ▸ hsep) hrun' with
      ⟨n', v', ms', hn', hrest', rfl⟩ | ⟨e', v', he', -⟩
    · cases h .statement s s' hs _ _ hn hn' with
      | ok hv hnode =>
        rcases h (.statements true) _ _ _ _ _ _ hv hrest hrest' with hcut | ⟨hu, hns⟩
        · exact .inl hcut
        · exact .inr ⟨hu, fun hend => .cons hnode (hns hend)⟩
    · cases h .statement s s' hs _ _ hn he'
  | failed hahead hopen hsep he hrest =>
    obtain ⟨x', tail', hahead', hx, -⟩ := hs.cons hahead
    rcases exists_of_run_statements hahead' (hx.token ▸ hopen) (hx.token ▸ hsep) hrun' with
      ⟨n', v', ms', hn', -⟩ | ⟨e', v', he', hrest'⟩
    · cases h .statement s s' hs _ _ he hn' with
      | cut hbehind hv =>
        obtain ⟨-, rfl⟩ := run_statements_of_nil (resume_nil hv) hrest
        exact .inl ⟨hbehind, resume_nil hv⟩
    · cases h .statement s s' hs _ _ he he' with
      | cut hbehind hv =>
        obtain ⟨-, rfl⟩ := run_statements_of_nil (resume_nil hv) hrest
        exact .inl ⟨hbehind, resume_nil hv⟩
      | error hv hlike =>
        have hpos : 0 < s.ahead.length := by simp [hahead]
        exact h (.statements true) _ _ _ _ _ _ (hv.resume true hlike hpos hs.length) hrest hrest'

/-- A statement that its first token tells from an expression. -/
theorem statement_of_starts {s s' : State} {token : Token} {line line' : Nat}
    {tail tail' : List Lexed} (hs : Beside S s s')
    (hahead : s.ahead = ⟨token, line⟩ :: tail) (hahead' : s'.ahead = ⟨token, line'⟩ :: tail')
    (hline : S.lines line line') (hstarts : startsStatement token = true) :
    Alongside S (Node.Matches S.lines) s s' (Parser.statement (fuel + 1))
      (Parser.statement (fuel + 1)) := by
  rw [Parser.statement]
  refine .get_bind ?_
  cases token with
  | sign sg =>
    cases sg with
    | openBrace =>
      simp only [hahead, hahead']
      refine .bind (h .braced _ _ hs) ?_
      refine fun b b' t t' ht hb => .node ht fun _ _ => ?_
      exact .node (.scope (b, b')) hline (by simpa [Form.children] using hb)
    | _ => cases hstarts
  | comment text =>
    simp only [hahead, hahead']
    refine .advance_bind hs hahead fun t t' ht _ => .node ht fun _ _ => ?_
    exact .leaf rfl hline
  | keyword k =>
    cases k with
    | staticCast => cases hstarts
    | print =>
      simp only [hahead, hahead']
      refine .advance_bind hs hahead fun t t' ht _ => ?_
      refine .bind (h .parenthesized _ _ ht) ?_
      refine fun v v' t t' ht hv => .node ht fun _ _ => ?_
      exact .node (.print (v, v')) hline (by simpa [Form.children] using hv)
    | ifWord =>
      simp only [hahead, hahead']
      refine .advance_bind hs hahead fun t t' ht _ => ?_
      refine .bind (h .parenthesized _ _ ht) ?_
      refine fun g g' t t' ht hg => ?_
      refine .bind (h .braced _ _ ht) ?_
      refine fun b b' t t' ht hb => .node ht fun _ _ => ?_
      exact .node (.branch (g, g') (b, b')) hline (by simpa [Form.children] using ⟨hg, hb⟩)
    | whileWord =>
      simp only [hahead, hahead']
      refine .advance_bind hs hahead fun t t' ht _ => ?_
      refine .bind (h .parenthesized _ _ ht) ?_
      refine fun g g' t t' ht hg => ?_
      refine .bind (h .braced _ _ ht) ?_
      refine fun b b' t t' ht hb => .node ht fun _ _ => ?_
      exact .node (.whileLoop (g, g') (b, b')) hline (by simpa [Form.children] using ⟨hg, hb⟩)
    | forWord =>
      simp only [hahead, hahead']
      refine .advance_bind hs hahead fun t t' ht _ => ?_
      refine .bind (.sign .openParen ht) fun _ _ t t' ht _ => ?_
      refine .bind (h .statement _ _ ht) ?_
      refine fun a a' t t' ht ha => ?_
      refine .bind (.sign .semicolon ht) fun _ _ t t' ht _ => ?_
      refine .bind (h .statement _ _ ht) ?_
      refine fun g g' t t' ht hg => ?_
      refine .bind (.sign .semicolon ht) fun _ _ t t' ht _ => ?_
      refine .bind (h .statement _ _ ht) ?_
      refine fun c c' t t' ht hc => ?_
      refine .bind (.sign .closeParen ht) fun _ _ t t' ht _ => ?_
      refine .bind (h .braced _ _ ht) ?_
      refine fun b b' t t' ht hb => .node ht fun _ _ => ?_
      exact .node (.forLoop (a, a') (g, g') (c, c') (b, b')) hline
        (by simpa [Form.children] using ⟨ha, hg, hc, hb⟩)
    | function =>
      simp only [hahead, hahead']
      refine .advance_bind hs hahead fun t t' ht _ => ?_
      refine .bind (.name ht) ?_
      rintro ⟨f, fLine⟩ ⟨f', fLine'⟩ t t' ht ⟨rfl, hfLine⟩
      refine .node_bind ht (fun _ _ => .leaf rfl hfLine) fun m m' t t' ht hm => ?_
      refine .bind (.paramList ht) ?_
      refine fun ps ps' t t' ht hps => ?_
      refine .bind (.sign .equals ht) fun _ _ t t' ht _ => ?_
      refine .bind (h .braced _ _ ht) ?_
      refine fun b b' t t' ht hb => .node ht fun _ _ => ?_
      cases hps with
      | none =>
        exact .node (.function (m, m') none (b, b')) hline
          (by simpa [Form.children] using ⟨hm, hb⟩)
      | @some p p' hp =>
        exact .node (.function (m, m') (some (p, p')) (b, b')) hline
          (by simpa [Form.children] using ⟨hm, hp, hb⟩)
  | _ => cases hstarts

/-- A name that is bound to something. -/
theorem statement_of_binding {s s' : State} {x : String} {sg : Sign} {line line' l l' : Nat}
    {tail tail' : List Lexed} (hs : Beside S s s')
    (hahead : s.ahead = ⟨.name x, line⟩ :: ⟨.sign sg, l⟩ :: tail)
    (hahead' : s'.ahead = ⟨.name x, line'⟩ :: ⟨.sign sg, l'⟩ :: tail')
    (hline : S.lines line line') (hsg : sg ∈ bindingSigns) :
    Alongside S (Node.Matches S.lines) s s' (Parser.statement (fuel + 1))
      (Parser.statement (fuel + 1)) := by
  rw [Parser.statement]
  refine .get_bind ?_
  simp only [bindingSigns, List.mem_cons, List.not_mem_nil, or_false] at hsg
  rcases hsg with rfl | rfl | rfl
  · simp only [hahead, hahead']
    refine .advance_bind hs hahead fun t t' ht hahead => ?_
    refine .advance_bind ht hahead fun t t' ht _ => ?_
    refine .node_bind ht (fun _ _ => .leaf rfl hline) fun m m' t t' ht hm => ?_
    refine .bind (h .statement _ _ ht) ?_
    refine fun v v' t t' ht hv => .node ht fun _ _ => ?_
    exact .node (.assign (m, m') (v, v')) hline (by simpa [Form.children] using ⟨hm, hv⟩)
  · simp only [hahead, hahead']
    refine .advance_bind hs hahead fun t t' ht hahead => ?_
    refine .advance_bind ht hahead fun t t' ht _ => ?_
    refine .node_bind ht (fun _ _ => .leaf rfl hline) fun m m' t t' ht hm => ?_
    refine .bind (h .statement _ _ ht) ?_
    refine fun v v' t t' ht hv => .node ht fun _ _ => ?_
    exact .node (.define (m, m') (v, v')) hline (by simpa [Form.children] using ⟨hm, hv⟩)
  · simp only [hahead, hahead']
    refine .bind (.typedName hs) fun p p' t t' ht hp => ?_
    refine .node ht fun _ _ => ?_
    exact .node (.declare (p.1, p'.1) (p.2, p'.2)) hline (by simpa [Form.children] using hp)

theorem statement_succ :
    Follows S (Node.Matches S.lines) (Parser.statement (fuel + 1))
      (Parser.statement (fuel + 1)) := by
  intro s s' hs
  cases hahead : s.ahead with
  | nil => exact .of_nil hs hahead (fun _ => outcome_statement_nil) fun _ => outcome_statement_nil
  | cons x tail =>
    obtain ⟨token, line⟩ := x
    obtain ⟨⟨_, line'⟩, tail', hahead', ⟨rfl, hline⟩, htail⟩ := hs.cons hahead
    cases hstarts : startsStatement token with
    | true =>
      exact statement_of_starts h hs hahead hahead' hline hstarts
    | false =>
      by_cases hbound : ∃ x, token = .name x ∧
          ∃ sg ∈ bindingSigns, tail.head?.map Lexed.token = some (.sign sg)
      · obtain ⟨x, rfl, sg, hsg, hhead⟩ := hbound
        obtain ⟨⟨_, l⟩, tail, rfl, rfl⟩ := exists_of_head? hhead
        obtain ⟨⟨_, l'⟩, tail'', htail', ⟨rfl, -⟩, -⟩ := htail.cons rfl
        obtain rfl : tail' = _ := htail'
        exact statement_of_binding h hs hahead hahead' hline hsg
      · have hunbound : ∀ x, token = .name x → ∀ sg ∈ bindingSigns,
            tail.head?.map Lexed.token ≠ some (.sign sg) :=
          fun x hx sg hsg hhead => hbound ⟨x, hx, sg, hsg, hhead⟩
        have hunbound' : ∀ x, token = .name x → ∀ sg ∈ bindingSigns,
            tail'.head?.map Lexed.token ≠ some (.sign sg) := by
          intro x hx sg hsg hhead
          refine hunbound x hx sg hsg ((htail.head?_eq_iff ?_).mpr hhead)
          rintro ⟨⟩
          revert hsg
          decide
        exact (h (.operand .relation) s s' hs).of_outcome_eq
          (outcome_statement_operand hahead hstarts hunbound)
          (outcome_statement_operand hahead' hstarts hunbound')

end Succ

theorem zero (S : Setting) (r : Rule) : InStep S 0 r := by
  cases r with
  | block nested | statements nested =>
    intro _ _ _ _ _ _ _ hrun
    cases hrun
  | operators level left => exact fun _ _ _ _ _ => .exhausted
  | _ => exact fun _ _ _ => .exhausted

/-- **The two parsers stay in step** in every rule, under every bound. -/
theorem all (S : Setting) (fuel : Nat) (r : Rule) : InStep S fuel r := by
  induction fuel, r using Rule.induction with
  | exhausted r => exact zero S r
  | statement fuel h => exact statement_succ h
  | parenthesized fuel h => exact parenthesized_succ h
  | braced fuel h => exact braced_succ h
  | block fuel nested h => exact block_succ h
  | statements fuel nested h => exact statements_succ h
  | operand fuel level h => exact operand_succ h level
  | operators fuel level left h => exact operators_succ h level left
  | tighter fuel level h => exact tighter_succ h level
  | power fuel h => exact power_succ h
  | primary fuel h => exact primary_succ h
  | moreArgs fuel h => exact moreArgs_succ h

end InStep

/-! ## The outermost block -/

theorem exists_unexpectedEnd_mem_recorded (line : Nat) (errors : Array SourceError) :
    ∃ line', .unexpectedEnd line' ∈ (recorded (.unexpectedEnd line) errors).toList := by
  rw [toList_recorded]
  split
  · next line' _ hlast => exact ⟨_, List.mem_of_getLast? hlast⟩
  · exact ⟨line, by simp⟩

/-- A block that does not find the end unexpectedly does not go on after a phrase that
    is not complete there. -/
theorem run_statements_of_cut {nested : Bool} {fuel length line : Nat} {ns : List Node}
    {u v : State} (hend : ∀ line, .unexpectedEnd line ∉ u.errors.toList) (hv : v.ahead = []) :
    (statements nested fuel).run (resume nested length (.unexpectedEnd line) v) ≠
      some (ns, u) := by
  intro hrun
  obtain ⟨-, rfl⟩ := run_statements_of_nil (resume_nil hv) hrun
  obtain ⟨line', hmem⟩ := exists_unexpectedEnd_mem_recorded line v.errors
  exact hend line' hmem

/-- **The further tokens do not disturb the first ones.** If the first parser does
    not find the end of its tokens unexpectedly, the second one finds the same
    statements and errors, and then goes on with the further tokens. -/
theorem statements_alongside {S : Setting} {fuel : Nat} {s s' u u' : State} {ns ns' : List Node}
    (hs : Beside S s s') (hrun : (statements false fuel).run s = some (ns, u))
    (hrun' : (statements false fuel).run s' = some (ns', u'))
    (hend : S.behind ≠ [] → ∀ line, .unexpectedEnd line ∉ u.errors.toList) :
    ∃ ms t' ms' fuel', Beside S u t' ∧ List.Forall₂ (Node.Matches S.lines) ns ms ∧
      ns' = ms ++ ms' ∧ (statements false fuel').run t' = some (ms', u') := by
  induction fuel generalizing s s' ns ns' with
  | zero => cases hrun
  | succ fuel ih =>
    cases passes_of_run_statements hrun with
    | nil => exact ⟨[], s', ns', fuel + 1, hs, .nil, rfl, hrun'⟩
    | closed _ hnested => cases hnested
    | separator hahead hsep hrest =>
      obtain ⟨x', tail', hahead', hx, htail⟩ := hs.cons hahead
      rw [run_statements_separator hahead' (hx.token ▸ hsep)] at hrun'
      exact ih htail hrest hrun'
    | next hahead hopen hsep hn hrest =>
      obtain ⟨x', tail', hahead', hx, -⟩ := hs.cons hahead
      rcases exists_of_run_statements hahead' (by simp) (hx.token ▸ hsep) hrun' with
        ⟨n', v', ns', hn', hrest', rfl⟩ | ⟨e', v', he', -⟩
      · cases InStep.all S fuel .statement s s' hs _ _ hn hn' with
        | ok hv hnode =>
          obtain ⟨ms, t', ms', fuel', ht, hms, rfl, hmore⟩ := ih hv hrest hrest'
          exact ⟨n' :: ms, t', ms', fuel', ht, .cons hnode hms, rfl, hmore⟩
      · cases InStep.all S fuel .statement s s' hs _ _ hn he'
    | failed hahead hopen hsep he hrest =>
      obtain ⟨x', tail', hahead', hx, -⟩ := hs.cons hahead
      rcases exists_of_run_statements hahead' (by simp) (hx.token ▸ hsep) hrun' with
        ⟨n', v', ns', hn', -⟩ | ⟨e', v', he', hrest'⟩
      · cases InStep.all S fuel .statement s s' hs _ _ he hn' with
        | cut hbehind hv => exact absurd hrest (run_statements_of_cut (hend hbehind) hv)
      · cases InStep.all S fuel .statement s s' hs _ _ he he' with
        | cut hbehind hv => exact absurd hrest (run_statements_of_cut (hend hbehind) hv)
        | error hv hlike =>
          have hpos : 0 < s.ahead.length := by simp [hahead]
          exact ih (hv.resume false hlike hpos hs.length) hrest hrest'

end Parser

end Scriptlet
