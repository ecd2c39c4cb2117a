import Scriptlet.Tree.Parser

/-!
# What a parser comes to

`Parser.outcome p s` is the result or the error that the parser `p` comes to from
the state `s`, together with the state it leaves, if its bound is large enough. The
laws below compute it step by step, so that later proofs need not look into the
monad.

What is true of every rule of the grammar is proved for all of them together, by
induction on the bound. `Parser.Rule` lists the rules, and `Parser.Rule.induction`
has a case for each of them.

Results:
* `Parser.outcome_bind_eq_some`: a sequence of two parsers comes to something iff both
  do, or the first one fails.
* `Parser.Rule.induction`: induction on the rules.
* `Parser.passes_of_run_statements`: what a block does with the tokens ahead.
-/

namespace Scriptlet.Parser

variable {α β : Type}

/-- The result or the error of a parser, and the state it leaves; `none` if the bound
    was too small. -/
def outcome (p : Parser α) (s : State) : Option (Except SourceError α × State) := p.run.run s

/-! ## Sequences -/

theorem outcome_pure (a : α) (s : State) : outcome (pure a) s = some (.ok a, s) := rfl

theorem outcome_bind_ok {p : Parser α} {f : α → Parser β} {s t : State} {a : α}
    (h : outcome p s = some (.ok a, t)) : outcome (p >>= f) s = outcome (f a) t := by
  unfold outcome at *
  rw [ExceptT.run_bind, StateT.run_bind, h]
  rfl

theorem outcome_bind_error {p : Parser α} {f : α → Parser β} {s t : State} {e : SourceError}
    (h : outcome p s = some (.error e, t)) : outcome (p >>= f) s = some (.error e, t) := by
  unfold outcome at *
  rw [ExceptT.run_bind, StateT.run_bind, h]
  rfl

theorem outcome_bind_none {p : Parser α} {f : α → Parser β} {s : State}
    (h : outcome p s = none) : outcome (p >>= f) s = none := by
  unfold outcome at *
  rw [ExceptT.run_bind, StateT.run_bind, h]
  rfl

/-- A sequence of two parsers comes to something iff both do, or the first one fails. -/
theorem outcome_bind_eq_some {p : Parser α} {f : α → Parser β} {s u : State}
    {r : Except SourceError β} : outcome (p >>= f) s = some (r, u) ↔
      (∃ a t, outcome p s = some (.ok a, t) ∧ outcome (f a) t = some (r, u)) ∨
        ∃ e, outcome p s = some (.error e, u) ∧ r = .error e := by
  rcases hp : outcome p s with _ | ⟨e | a, t⟩
  · simp [outcome_bind_none hp]
  · rw [outcome_bind_error hp]
    constructor
    · rintro ⟨⟩
      exact .inr ⟨e, rfl, rfl⟩
    · rintro (⟨_, _, ⟨⟩, -⟩ | ⟨_, ⟨⟩, rfl⟩)
      rfl
  · rw [outcome_bind_ok hp]
    constructor
    · exact fun h => .inl ⟨a, t, rfl, h⟩
    · rintro (⟨_, _, ⟨⟩, h⟩ | ⟨_, ⟨⟩, -⟩)
      exact h

theorem outcome_get_bind (f : State → Parser α) (s : State) :
    outcome (get >>= f) s = outcome (f s) s := rfl

/-! ## Steps that meet no error -/

theorem outcome_lift (p : Step α) (s : State) :
    outcome (liftM p) s = (p.run s).map fun r => (.ok r.1, r.2) := by
  change (p.run s).bind (fun r => some (Except.ok r.1, r.2)) = _
  cases p.run s <;> rfl

theorem outcome_lift_eq_some {p : Step α} {s u : State} {r : Except SourceError α} :
    outcome (liftM p) s = some (r, u) ↔ ∃ a, p.run s = some (a, u) ∧ r = .ok a := by
  rw [outcome_lift, Option.map_eq_some_iff]
  constructor
  · rintro ⟨⟨a, _⟩, h, ⟨⟩⟩
    exact ⟨a, h, rfl⟩
  · rintro ⟨a, h, rfl⟩
    exact ⟨(a, u), h, rfl⟩

/-- A step that meets no error, and then a parser. -/
theorem outcome_lift_bind_eq_some {p : Step α} {f : α → Parser β} {s u : State}
    {r : Except SourceError β} : outcome (liftM p >>= f) s = some (r, u) ↔
      ∃ a t, p.run s = some (a, t) ∧ outcome (f a) t = some (r, u) := by
  rw [outcome_bind_eq_some]
  simp only [outcome_lift_eq_some]
  constructor
  · rintro (⟨a, t, ⟨_, hrun, ⟨⟩⟩, hf⟩ | ⟨_, ⟨_, -, ⟨⟩⟩, -⟩)
    exact ⟨a, t, hrun, hf⟩
  · rintro ⟨a, t, hrun, hf⟩
    exact .inl ⟨a, t, ⟨a, hrun, rfl⟩, hf⟩

theorem outcome_peek_bind (f : Option Lexed → Parser α) (s : State) :
    outcome (liftM peek >>= f) s = outcome (f s.ahead.head?) s := rfl

theorem outcome_advance_bind (f : Unit → Parser α) (s : State) :
    outcome (liftM advance >>= f) s = outcome (f ()) { s with ahead := s.ahead.tail } := rfl

theorem outcome_sees_bind (sg : Sign) (f : Bool → Parser α) (s : State) :
    outcome (liftM (sees sg) >>= f) s =
      outcome (f (decide (s.ahead.head?.map Lexed.token = some (.sign sg)))) s := rfl

theorem run_node (line : Nat) (form : Form Node) (s : State) :
    (node line form).run s =
      some (⟨s.nextId, line, form⟩, { s with nextId := s.nextId + 1 }) := rfl

theorem outcome_node (line : Nat) (form : Form Node) (s : State) :
    outcome (liftM (node line form)) s =
      some (.ok ⟨s.nextId, line, form⟩, { s with nextId := s.nextId + 1 }) := rfl

/-! ## Errors -/

/-- The errors after a further one. -/
def recorded (e : SourceError) (errors : Array SourceError) : Array SourceError :=
  match e, errors.back? with
  | .unexpectedEnd _, some (.unexpectedEnd _) => errors
  | _, _ => errors.push e

theorem run_record (e : SourceError) (s : State) :
    (record e).run s = some ((), { s with errors := recorded e s.errors }) := by
  change some ((), _) = some ((), _)
  unfold recorded
  split <;> simp_all

theorem run_recover_ok {p : Parser α} {s t : State} {a : α}
    (h : outcome p s = some (.ok a, t)) : (recover p).run s = some (some a, t) := by
  unfold outcome at h
  rw [recover, StateT.run_bind, h]
  rfl

theorem run_recover_error {p : Parser α} {s t : State} {e : SourceError}
    (h : outcome p s = some (.error e, t)) :
    (recover p).run s = some (none, { t with errors := recorded e t.errors }) := by
  unfold outcome at h
  rw [recover, StateT.run_bind, h]
  change ((record e >>= fun _ => pure none : Step (Option α)).run t) = _
  rw [StateT.run_bind, run_record]
  rfl

theorem run_recover_none {p : Parser α} {s : State} (h : outcome p s = none) :
    (recover p).run s = none := by
  unfold outcome at h
  rw [recover, StateT.run_bind, h]
  rfl

theorem toList_recorded (e : SourceError) (errors : Array SourceError) :
    (recorded e errors).toList = match e, errors.toList.getLast? with
      | .unexpectedEnd _, some (.unexpectedEnd _) => errors.toList
      | _, _ => errors.toList ++ [e] := by
  rw [Array.getLast?_toList]
  unfold recorded
  split <;> simp_all

theorem recorded_ne_empty (e : SourceError) (errors : Array SourceError) :
    recorded e errors ≠ #[] := by
  unfold recorded
  split
  · next h =>
    intro hnil
    rw [hnil] at h
    cases h
  · simp

/-! ## Tokens -/

/-- The error at the place a parser has come to. -/
def here (s : State) : SourceError :=
  match s.ahead with
  | t :: _ => .unexpectedToken t.token t.line
  | [] => .unexpectedEnd s.endLine

theorem outcome_unexpected (s : State) :
    outcome (unexpected : Parser α) s = some (.error (here s), s) := by
  obtain ⟨ahead, nextId, errors, endLine⟩ := s
  cases ahead <;> rfl

theorem outcome_unexpected_nil {s : State} (h : s.ahead = []) :
    outcome (unexpected : Parser α) s = some (.error (.unexpectedEnd s.endLine), s) := by
  rw [outcome_unexpected, here, h]

theorem outcome_unexpected_cons {s : State} {t : Lexed} {rest : List Lexed}
    (h : s.ahead = t :: rest) :
    outcome (unexpected : Parser α) s = some (.error (.unexpectedToken t.token t.line), s) := by
  rw [outcome_unexpected, here, h]

/-- A token that is seen comes next. -/
theorem exists_of_head? {ahead : List Lexed} {t : Token}
    (h : ahead.head?.map Lexed.token = some t) :
    ∃ x tail, ahead = x :: tail ∧ x.token = t := by
  cases ahead with
  | nil => cases h
  | cons x tail => exact ⟨x, tail, rfl, Option.some.inj h⟩

/-- A token that is accepted is taken. -/
theorem outcome_take_some {accept? : Token → Option α} {s : State} {t : Lexed}
    {rest : List Lexed} {a : α} (h : s.ahead = t :: rest) (ha : accept? t.token = some a) :
    outcome (take accept?) s = some (.ok (a, t.line), { s with ahead := rest }) := by
  unfold take
  rw [outcome_peek_bind, h]
  simp only [List.head?_cons, ha]
  rw [outcome_advance_bind, outcome_pure, h]
  rfl

/-- At any other token, and at the end, nothing is taken. -/
theorem outcome_take_none {accept? : Token → Option α} {s : State}
    (h : s.ahead.head?.bind (fun t => accept? t.token) = none) :
    outcome (take accept?) s = outcome unexpected s := by
  unfold take
  rw [outcome_peek_bind]
  cases hahead : s.ahead with
  | nil => rfl
  | cons t rest =>
    rw [hahead] at h
    have ha : accept? t.token = none := h
    simp only [List.head?_cons, ha]

theorem outcome_sign_eq {sg : Sign} {s : State} {line : Nat} {rest : List Lexed}
    (h : s.ahead = ⟨.sign sg, line⟩ :: rest) :
    outcome (sign sg) s = some (.ok line, { s with ahead := rest }) := by
  unfold sign
  rw [outcome_bind_ok (outcome_take_some h (a := ()) (by simp))]
  rfl

theorem outcome_sign_ne {sg : Sign} {s : State}
    (h : s.ahead.head?.map Lexed.token ≠ some (.sign sg)) :
    outcome (sign sg) s = outcome unexpected s := by
  have htake : outcome (take fun t => if t = .sign sg then some () else none) s =
      outcome unexpected s := by
    refine outcome_take_none ?_
    cases hahead : s.ahead with
    | nil => rfl
    | cons t rest =>
      rw [hahead] at h
      have hne : t.token ≠ .sign sg := by simpa using h
      simp [hne]
  unfold sign
  rw [outcome_unexpected] at htake ⊢
  exact outcome_bind_error htake

/-- No sign comes next at the end. -/
theorem outcome_sign_bind_nil {sg : Sign} {f : Nat → Parser α} {s : State} (h : s.ahead = []) :
    outcome (sign sg >>= f) s = outcome unexpected s := by
  have hsign : outcome (sign sg) s = outcome unexpected s := outcome_sign_ne (by simp [h])
  rw [outcome_unexpected] at hsign ⊢
  exact outcome_bind_error hsign

/-! ## The first tokens of a rule -/

/-- The number of rules that are entered from an expression of a level down to a
    primary. -/
def operandDepth : Level → Nat
  | .relation => 8
  | .sum => 6
  | .product => 4

/-- The number of rules that are entered from an operand of the operators of a
    level down to a primary. -/
def tighterDepth : Level → Nat
  | .relation => 7
  | .sum => 5
  | .product => 3

section Dispatch

variable {fuel : Nat} {s : State} {t : Token} {line : Nat} {rest : List Lexed}

/-- Whether a token alone decides that a statement is no expression. -/
def startsStatement : Token → Bool
  | .sign .openBrace | .comment _ => true
  | .keyword .staticCast => false
  | .keyword _ => true
  | _ => false

/-- The signs that say what is done with a name at the beginning of a statement. -/
def bindingSigns : List Sign := [.equals, .colonEquals, .colon]

theorem outcome_statement_nil (hs : s.ahead = []) :
    outcome (statement (fuel + 1)) s = outcome unexpected s := by
  rw [statement, outcome_get_bind]
  simp only [hs]

theorem outcome_primary_nil (hs : s.ahead = []) :
    outcome (primary (fuel + 1)) s = outcome unexpected s := by
  rw [primary, outcome_get_bind]
  simp only [hs]

/-- Everything else is read as an expression. -/
theorem outcome_statement_operand (hs : s.ahead = ⟨t, line⟩ :: rest)
    (ht : startsStatement t = false)
    (hunbound : ∀ x, t = .name x → ∀ sg ∈ bindingSigns,
      rest.head?.map Lexed.token ≠ some (.sign sg)) :
    outcome (statement (fuel + 1)) s = outcome (operand fuel .relation) s := by
  rw [statement, outcome_get_bind]
  split
  · next h => cases hs.symm.trans h
  iterate 7
    · next h =>
      cases hs.symm.trans h
      cases ht
  · next h =>
    cases hs.symm.trans h
    exact absurd rfl (hunbound _ rfl .equals (by decide))
  · next h =>
    cases hs.symm.trans h
    exact absurd rfl (hunbound _ rfl .colonEquals (by decide))
  · next h =>
    cases hs.symm.trans h
    exact absurd rfl (hunbound _ rfl .colon (by decide))
  · rfl

/-- Operands end where no operator follows. -/
theorem outcome_operators_done {level : Level} {left : Node}
    (hs : ∀ t, s.ahead.head?.map Lexed.token = some t → level.operator? t = none) :
    outcome (operators (fuel + 1) level left) s = some (.ok left, s) := by
  rw [operators, outcome_peek_bind]
  cases hahead : s.ahead with
  | nil => rfl
  | cons x rest =>
    rw [hahead] at hs
    simp only [List.head?_cons, hs x.token rfl]
    rfl

/-- A name that is not called is read. -/
theorem outcome_primary_name {x : String} (hs : s.ahead = ⟨.name x, line⟩ :: rest)
    (hcall : rest.head?.map Lexed.token ≠ some (.sign .openParen)) :
    outcome (primary (fuel + 1)) s =
      some (.ok ⟨s.nextId, line, .read x⟩, { s with ahead := rest, nextId := s.nextId + 1 }) := by
  rw [primary, outcome_get_bind]
  split
  · next h =>
    cases hs.symm.trans h
    exact absurd rfl hcall
  · next h =>
    cases hs.symm.trans h
    rw [outcome_advance_bind, outcome_node, hs]
    rfl
  iterate 3 · next h => cases hs.symm.trans h
  · next hname _ _ _ h =>
    cases hs.symm.trans h
    exact (hname x line rfl).elim
  · next h => cases hs.symm.trans h

end Dispatch

/-! ## All rules -/

/-- The rules of the grammar, with what they are given. -/
inductive Rule where
  | statement
  | parenthesized
  | braced
  | block (nested : Bool)
  | statements (nested : Bool)
  | operand (level : Level)
  | operators (level : Level) (left : Node)
  | tighter (level : Level)
  | power
  | primary
  | moreArgs

namespace Rule

/-- What a rule yields. -/
abbrev Result : Rule → Type
  | statements _ | moreArgs => List Node
  | _ => Node

/-- The parser of a rule under a bound. -/
def parser (fuel : Nat) : (r : Rule) → Parser r.Result
  | statement => Parser.statement fuel
  | parenthesized => Parser.parenthesized fuel
  | braced => Parser.braced fuel
  | block nested => liftM (Parser.block nested fuel)
  | statements nested => liftM (Parser.statements nested fuel)
  | operand level => Parser.operand fuel level
  | operators level left => Parser.operators fuel level left
  | tighter level => Parser.tighter fuel level
  | power => Parser.power fuel
  | primary => Parser.primary fuel
  | moreArgs => Parser.moreArgs fuel

/-- No rule may be entered. -/
theorem parser_zero (r : Rule) : r.parser 0 = exhausted := by
  cases r <;> simp only [parser, Parser.statement, Parser.parenthesized, Parser.braced,
    Parser.block, Parser.statements, Parser.operand, Parser.operators, Parser.tighter,
    Parser.power, Parser.primary, Parser.moreArgs] <;> rfl

/-- **Induction on the rules.** What is true of a rule under a bound may be used of all
    rules in each of them, under the next larger bound. -/
theorem induction {motive : Nat → Rule → Prop} (exhausted : ∀ r, motive 0 r)
    (statement : ∀ fuel, (∀ r, motive fuel r) → motive (fuel + 1) .statement)
    (parenthesized : ∀ fuel, (∀ r, motive fuel r) → motive (fuel + 1) .parenthesized)
    (braced : ∀ fuel, (∀ r, motive fuel r) → motive (fuel + 1) .braced)
    (block : ∀ fuel nested, (∀ r, motive fuel r) → motive (fuel + 1) (.block nested))
    (statements : ∀ fuel nested, (∀ r, motive fuel r) → motive (fuel + 1) (.statements nested))
    (operand : ∀ fuel level, (∀ r, motive fuel r) → motive (fuel + 1) (.operand level))
    (operators : ∀ fuel level left, (∀ r, motive fuel r) →
      motive (fuel + 1) (.operators level left))
    (tighter : ∀ fuel level, (∀ r, motive fuel r) → motive (fuel + 1) (.tighter level))
    (power : ∀ fuel, (∀ r, motive fuel r) → motive (fuel + 1) .power)
    (primary : ∀ fuel, (∀ r, motive fuel r) → motive (fuel + 1) .primary)
    (moreArgs : ∀ fuel, (∀ r, motive fuel r) → motive (fuel + 1) .moreArgs)
    (fuel : Nat) (r : Rule) : motive fuel r := by
  induction fuel generalizing r with
  | zero => exact exhausted r
  | succ fuel ih =>
    cases r with
    | statement => exact statement fuel ih
    | parenthesized => exact parenthesized fuel ih
    | braced => exact braced fuel ih
    | block nested => exact block fuel nested ih
    | statements nested => exact statements fuel nested ih
    | operand level => exact operand fuel level ih
    | operators level left => exact operators fuel level left ih
    | tighter level => exact tighter fuel level ih
    | power => exact power fuel ih
    | primary => exact primary fuel ih
    | moreArgs => exact moreArgs fuel ih

end Rule

/-! ## Blocks -/

/-- The state in which a block goes on after a statement that failed in a state
    `u`; `length` tokens were ahead when the statement began. -/
def resume (nested : Bool) (length : Nat) (e : SourceError) (u : State) : State :=
  let stalled := u.ahead.length = length
  let closing := nested ∧ u.ahead.head?.map Lexed.token = some (.sign .closeBrace)
  { u with
    ahead := if stalled ∧ ¬ closing then u.ahead.tail else u.ahead
    errors := recorded e u.errors }

/-- Going on after an error drops one token at most. -/
theorem ahead_resume (nested : Bool) (length : Nat) (e : SourceError) (u : State) :
    (resume nested length e u).ahead <:+ u.ahead := by
  unfold resume
  dsimp only
  split
  · exact List.tail_suffix u.ahead
  · exact List.suffix_refl _

theorem run_block {nested : Bool} {fuel : Nat} {s t : State} {ns : List Node}
    (h : (statements nested fuel).run s = some (ns, t)) :
    (block nested (fuel + 1)).run s =
      some (⟨t.nextId, (s.ahead.head?.map Lexed.line).getD 1, .block ns⟩,
        { t with nextId := t.nextId + 1 }) := by
  rw [block]
  change ((statements nested fuel).run s).bind _ = _
  rw [h]
  rfl

theorem exists_of_run_block {nested : Bool} {fuel : Nat} {s u : State} {b : Node}
    (h : (block nested (fuel + 1)).run s = some (b, u)) :
    ∃ ns t, (statements nested fuel).run s = some (ns, t) ∧
      b = ⟨t.nextId, (s.ahead.head?.map Lexed.line).getD 1, .block ns⟩ ∧
      u = { t with nextId := t.nextId + 1 } := by
  cases hs : (statements nested fuel).run s with
  | none =>
    rw [block] at h
    change ((statements nested fuel).run s).bind _ = _ at h
    rw [hs] at h
    cases h
  | some r =>
    rw [run_block hs] at h
    cases h
    exact ⟨r.1, r.2, rfl, rfl, rfl⟩

section Statements

variable {nested : Bool} {fuel : Nat} {s u : State} {t : Lexed} {rest : List Lexed}

theorem run_statements_nil (nested : Bool) (fuel : Nat) (h : s.ahead = []) :
    (statements nested (fuel + 1)).run s = some ([], s) := by
  obtain ⟨ahead, nextId, errors, endLine⟩ := s
  subst h
  rw [statements]
  rfl

/-- A block passes over a semicolon, ends at the brace that closes it, or reads a
    statement. -/
theorem run_statements_cons (nested : Bool) (fuel : Nat) (h : s.ahead = t :: rest) :
    (statements nested (fuel + 1)).run s =
      if nested ∧ t.token = .sign .closeBrace then some ([], s)
      else if t.token = .sign .semicolon then (statements nested fuel).run { s with ahead := rest }
      else
        match outcome (statement fuel) s with
        | none => none
        | some (.ok n, u) => ((statements nested fuel).run u).map fun r => (n :: r.1, r.2)
        | some (.error e, u) =>
          (statements nested fuel).run (resume nested s.ahead.length e u) := by
  obtain ⟨ahead, nextId, errors, endLine⟩ := s
  subst h
  rw [statements]
  change ((if _ ∧ _ then _ else _ : Step (List Node)).run _) = _
  split
  · rfl
  split
  · rfl
  rw [StateT.run_bind]
  rcases hrun : outcome (statement fuel) _ with _ | ⟨e | n, u⟩
  · rw [run_recover_none hrun]
    rfl
  · rw [run_recover_error hrun]
    change ((if _ ∧ ¬ (_ ∧ _) then _ else _ : Step (List Node)).run _) = _
    unfold resume
    simp only [decide_eq_true_eq, List.length_cons]
    by_cases hdrop : u.ahead.length = rest.length + 1 ∧
        ¬ (nested ∧ u.ahead.head?.map Lexed.token = some (.sign .closeBrace))
    · rw [if_pos hdrop, if_pos hdrop]
      rfl
    · rw [if_neg hdrop, if_neg hdrop]
  · rw [run_recover_ok hrun]
    change ((statements nested fuel).run u).bind (fun r => some (n :: r.1, r.2)) =
      ((statements nested fuel).run u).map fun r => (n :: r.1, r.2)
    cases (statements nested fuel).run u <;> rfl

theorem run_statements_closed (fuel : Nat) (h : s.ahead = t :: rest)
    (ht : t.token = .sign .closeBrace) :
    (statements true (fuel + 1)).run s = some ([], s) := by
  rw [run_statements_cons true fuel h, if_pos ⟨rfl, ht⟩]

theorem run_statements_separator (h : s.ahead = t :: rest) (ht : t.token = .sign .semicolon) :
    (statements nested (fuel + 1)).run s =
      (statements nested fuel).run { s with ahead := rest } := by
  rw [run_statements_cons nested fuel h, if_neg (by simp [ht]), if_pos ht]

/-- A block goes on after a statement. -/
theorem run_statements_ok {n : Node} (h : s.ahead = t :: rest)
    (hclose : ¬ (nested ∧ t.token = .sign .closeBrace)) (hsep : t.token ≠ .sign .semicolon)
    (hn : outcome (statement fuel) s = some (.ok n, u)) :
    (statements nested (fuel + 1)).run s =
      ((statements nested fuel).run u).map fun r => (n :: r.1, r.2) := by
  rw [run_statements_cons nested fuel h, if_neg hclose, if_neg hsep, hn]

/-- A block goes on after a statement that failed. -/
theorem run_statements_error {e : SourceError} (h : s.ahead = t :: rest)
    (hclose : ¬ (nested ∧ t.token = .sign .closeBrace)) (hsep : t.token ≠ .sign .semicolon)
    (he : outcome (statement fuel) s = some (.error e, u)) :
    (statements nested (fuel + 1)).run s =
      (statements nested fuel).run (resume nested s.ahead.length e u) := by
  rw [run_statements_cons nested fuel h, if_neg hclose, if_neg hsep, he]

theorem run_statements_none (h : s.ahead = t :: rest)
    (hclose : ¬ (nested ∧ t.token = .sign .closeBrace)) (hsep : t.token ≠ .sign .semicolon)
    (hnone : outcome (statement fuel) s = none) :
    (statements nested (fuel + 1)).run s = none := by
  rw [run_statements_cons nested fuel h, if_neg hclose, if_neg hsep, hnone]

/-- What a block does with the tokens ahead. -/
inductive Passes (nested : Bool) (fuel : Nat) (s : State) : List Node → State → Prop
  /-- there are none -/
  | nil : s.ahead = [] → Passes nested fuel s [] s
  /-- a brace closes the block -/
  | closed {t : Lexed} {rest : List Lexed} : s.ahead = t :: rest → nested = true →
      t.token = .sign .closeBrace → Passes nested fuel s [] s
  | separator {t : Lexed} {rest : List Lexed} {ns : List Node} {u : State} :
      s.ahead = t :: rest → t.token = .sign .semicolon →
      (statements nested fuel).run { s with ahead := rest } = some (ns, u) →
      Passes nested fuel s ns u
  | next {t : Lexed} {rest : List Lexed} {n : Node} {v : State} {ns : List Node} {u : State} :
      s.ahead = t :: rest → ¬ (nested ∧ t.token = .sign .closeBrace) →
      t.token ≠ .sign .semicolon → outcome (statement fuel) s = some (.ok n, v) →
      (statements nested fuel).run v = some (ns, u) → Passes nested fuel s (n :: ns) u
  /-- a statement fails, and the block goes on after it -/
  | failed {t : Lexed} {rest : List Lexed} {e : SourceError} {v : State} {ns : List Node}
      {u : State} : s.ahead = t :: rest → ¬ (nested ∧ t.token = .sign .closeBrace) →
      t.token ≠ .sign .semicolon → outcome (statement fuel) s = some (.error e, v) →
      (statements nested fuel).run (resume nested s.ahead.length e v) = some (ns, u) →
      Passes nested fuel s ns u

theorem Passes.run_eq {ns : List Node} (h : Passes nested fuel s ns u) :
    (statements nested (fuel + 1)).run s = some (ns, u) := by
  cases h with
  | nil hs => exact run_statements_nil nested fuel hs
  | closed hs hnested ht =>
    subst hnested
    exact run_statements_closed fuel hs ht
  | separator hs hsep hrun => rw [run_statements_separator hs hsep, hrun]
  | next hs hopen hsep hn hrun =>
    rw [run_statements_ok hs hopen hsep hn, hrun]
    rfl
  | failed hs hopen hsep he hrun => rw [run_statements_error hs hopen hsep he, hrun]

theorem passes_of_run_statements {ns : List Node}
    (h : (statements nested (fuel + 1)).run s = some (ns, u)) : Passes nested fuel s ns u := by
  cases hs : s.ahead with
  | nil =>
    rw [run_statements_nil nested fuel hs] at h
    cases h
    exact .nil hs
  | cons t rest =>
    by_cases hclose : nested ∧ t.token = .sign .closeBrace
    · obtain ⟨rfl, ht⟩ := hclose
      rw [run_statements_closed fuel hs ht] at h
      cases h
      exact .closed hs rfl ht
    by_cases hsep : t.token = .sign .semicolon
    · rw [run_statements_separator hs hsep] at h
      exact .separator hs hsep h
    rcases hrun : outcome (statement fuel) s with _ | ⟨e | n, v⟩
    · rw [run_statements_none hs hclose hsep hrun] at h
      cases h
    · rw [run_statements_error hs hclose hsep hrun] at h
      exact .failed hs hclose hsep hrun h
    · rw [run_statements_ok hs hclose hsep hrun] at h
      obtain ⟨⟨ms, v'⟩, hrest, heq⟩ := Option.map_eq_some_iff.mp h
      cases heq
      exact .next hs hclose hsep hrun hrest

/-- A block that goes on reads a statement, or goes on after one that failed. -/
theorem exists_of_run_statements {ns : List Node} (hs : s.ahead = t :: rest)
    (hopen : ¬ (nested ∧ t.token = .sign .closeBrace)) (hsep : t.token ≠ .sign .semicolon)
    (h : (statements nested (fuel + 1)).run s = some (ns, u)) :
    (∃ n v ms, outcome (statement fuel) s = some (.ok n, v) ∧
      (statements nested fuel).run v = some (ms, u) ∧ ns = n :: ms) ∨
    ∃ e v, outcome (statement fuel) s = some (.error e, v) ∧
      (statements nested fuel).run (resume nested s.ahead.length e v) = some (ns, u) := by
  cases passes_of_run_statements h with
  | nil hs' => cases hs.symm.trans hs'
  | closed hs' hnested ht =>
    cases hs.symm.trans hs'
    exact absurd ⟨hnested, ht⟩ hopen
  | separator hs' ht =>
    cases hs.symm.trans hs'
    exact absurd ht hsep
  | next _ _ _ hn hrest => exact .inl ⟨_, _, _, hn, hrest, rfl⟩
  | failed _ _ _ he hrest => exact .inr ⟨_, _, he, hrest⟩

/-- A semicolon is passed over. -/
theorem exists_of_run_separator {ns : List Node} (hs : s.ahead = t :: rest)
    (ht : t.token = .sign .semicolon) (h : (statements nested fuel).run s = some (ns, u)) :
    ∃ fuel', (statements nested fuel').run { s with ahead := rest } = some (ns, u) := by
  cases fuel with
  | zero => cases h
  | succ fuel => exact ⟨fuel, run_statements_separator hs ht ▸ h⟩

/-- Without tokens ahead a block is empty. -/
theorem run_statements_of_nil {ns : List Node} (hs : s.ahead = [])
    (h : (statements nested fuel).run s = some (ns, u)) : ns = [] ∧ u = s := by
  cases fuel with
  | zero => cases h
  | succ fuel =>
    rw [run_statements_nil nested fuel hs] at h
    cases h
    exact ⟨rfl, rfl⟩

/-- The outermost block reads every token. -/
theorem ahead_of_run_statements {ns : List Node}
    (h : (statements false fuel).run s = some (ns, u)) : u.ahead = [] := by
  induction fuel generalizing s ns with
  | zero => cases h
  | succ fuel ih =>
    cases passes_of_run_statements h with
    | nil hs => exact hs
    | closed _ hnested => cases hnested
    | separator _ _ hrest => exact ih hrest
    | next _ _ _ _ hrest => exact ih hrest
    | failed _ _ _ _ hrest => exact ih hrest

end Statements

/-! ## Programs -/

/-- The state in which the tokens of a source are read. -/
def start (tokens : List Lexed) (firstId : Nat) : State :=
  ⟨tokens, firstId, #[], (tokens.getLast?.map Lexed.line).getD 1⟩

/-- A parsed program is made of its outermost block. -/
theorem parse_eq {tokens : List Lexed} {firstId : Nat} {b : Node} {t : State}
    (h : (block false (fuel tokens)).run (start tokens firstId) = some (b, t)) :
    parse tokens firstId = ⟨⟨t.nextId, 1, .program b⟩, t.errors.toList, t.nextId + 1⟩ := by
  have hrun : (program tokens).run (start tokens firstId) = (node 1 (.program b)).run t := by
    rw [program, StateT.run_bind, h]
    rfl
  unfold start at hrun
  unfold parse
  simp only [hrun, run_node]

end Scriptlet.Parser
