import Scriptlet.Proofs.Shape
import Scriptlet.Proofs.Writing

/-!
# What a parser accepts

Every rule of the parser takes exactly the tokens that are written for it,
records no error and yields the tree up to ids and lines. What follows these
tokens must not go on with them, and the number of rules that may be entered
must be large enough: twelve for each token, and a few that depend on how deep
the rule is in the grammar.

Results:
* `Parser.accepted_of_written`: this holds of every rule.
* `parse_of_written`: a written program is read without errors, and its tree is
  the one that was written.
-/

namespace Scriptlet

namespace Parser

open Grammar Node

variable {α β : Type}

/-! ## Tokens that are taken -/

/-- From the state `s` a parser succeeds, with `rest` left ahead, without a new
    error, and its result has a property. -/
def Takes (s : State) (rest : List Token) (Q : α → Prop) (p : Parser α) : Prop :=
  ∃ a t, outcome p s = some (.ok a, t) ∧ t.ahead.map Lexed.token = rest ∧ t.errors = s.errors ∧ Q a

/-- The next token has a line. -/
theorem exists_ahead {ahead : List Lexed} {t : Token} {ts : List Token}
    (h : ahead.map Lexed.token = t :: ts) :
    ∃ line tail, ahead = ⟨t, line⟩ :: tail ∧ tail.map Lexed.token = ts := by
  obtain ⟨⟨_, line⟩, tail, hs, rfl, htail⟩ := List.map_eq_cons_iff.mp h
  exact ⟨line, tail, hs, htail⟩

namespace Takes

variable {s : State} {rest : List Token} {Q : α → Prop}

theorem pure {a : α} (hs : s.ahead.map Lexed.token = rest) (h : Q a) : Takes s rest Q (pure a) :=
  ⟨a, s, rfl, hs, rfl, h⟩

theorem bind {between : List Token} {P : β → Prop} {p : Parser β} {f : β → Parser α}
    (hp : Takes s between P p)
    (hf : ∀ b t, t.ahead.map Lexed.token = between → P b → Takes t rest Q (f b)) :
    Takes s rest Q (p >>= f) := by
  obtain ⟨b, t, hrun, hbetween, herrors, hb⟩ := hp
  obtain ⟨a, u, hrun', hrest, herrors', ha⟩ := hf b t hbetween hb
  exact ⟨a, u, (outcome_bind_ok hrun).trans hrun', hrest, herrors'.trans herrors, ha⟩

/-- A step that meets no error. -/
theorem of_run {p : Step α} {a : α} {t : State} (hrun : p.run s = some (a, t))
    (ht : t.ahead.map Lexed.token = rest) (herrors : t.errors = s.errors) (h : Q a) :
    Takes s rest Q (liftM p) :=
  ⟨a, t, outcome_lift_eq_some.mpr ⟨a, hrun, rfl⟩, ht, herrors, h⟩

theorem exists_run {p : Step α} (h : Takes s rest Q (liftM p)) :
    ∃ a t, p.run s = some (a, t) ∧ t.ahead.map Lexed.token = rest ∧ t.errors = s.errors ∧ Q a := by
  obtain ⟨a, t, hlift, ht, herrors, ha⟩ := h
  obtain ⟨_, hrun, ⟨⟩⟩ := outcome_lift_eq_some.mp hlift
  exact ⟨a, t, hrun, ht, herrors, ha⟩

theorem get_bind {f : State → Parser α} (h : Takes s rest Q (f s)) : Takes s rest Q (get >>= f) := h

theorem peek_bind {f : Option Lexed → Parser α} (h : Takes s rest Q (f s.ahead.head?)) :
    Takes s rest Q (liftM peek >>= f) := h

/-- A sign is seen if it comes next. -/
theorem sees_bind {sg : Sign} {ts : List Token} {f : Bool → Parser α}
    (hs : s.ahead.map Lexed.token = ts)
    (h : Takes s rest Q (f (decide (ts.head? = some (.sign sg))))) :
    Takes s rest Q (liftM (sees sg) >>= f) := by
  rw [← hs, List.head?_map] at h
  exact h

theorem node {line : Nat} {form : Form Node} {Q : Node → Prop}
    (hs : s.ahead.map Lexed.token = rest) (h : ∀ id, Q ⟨id, line, form⟩) :
    Takes s rest Q (liftM (Parser.node line form)) :=
  ⟨_, _, rfl, hs, rfl, h s.nextId⟩

theorem node_bind {line : Nat} {form : Form Node} {ts : List Token} {f : Node → Parser α}
    (hs : s.ahead.map Lexed.token = ts)
    (h : ∀ n t, n.form = form → t.ahead.map Lexed.token = ts → Takes t rest Q (f n)) :
    Takes s rest Q (liftM (Parser.node line form) >>= f) :=
  h _ { s with nextId := s.nextId + 1 } rfl hs

/-- Taking the token that is known to come next. -/
theorem advance_bind {t : Token} {ts : List Token} {f : Unit → Parser α}
    (hs : s.ahead.map Lexed.token = t :: ts)
    (h : ∀ s, s.ahead.map Lexed.token = ts → Takes s rest Q (f ())) :
    Takes s rest Q (liftM advance >>= f) := by
  obtain ⟨line, tail, hs, htail⟩ := exists_ahead hs
  have hts : ({ s with ahead := s.ahead.tail } : State).ahead.map Lexed.token = ts := by
    rw [← htail, hs]
    rfl
  exact h _ hts

theorem take {accept? : Token → Option α} {t : Token} {a : α}
    (hs : s.ahead.map Lexed.token = t :: rest) (ha : accept? t = some a) :
    Takes s rest (fun result => ∃ line, result = (a, line)) (take accept?) := by
  obtain ⟨line, tail, hs, htail⟩ := exists_ahead hs
  exact ⟨_, _, outcome_take_some hs ha, htail, rfl, line, rfl⟩

theorem name {x : String} (hs : s.ahead.map Lexed.token = .name x :: rest) :
    Takes s rest (fun result => ∃ line, result = (x, line)) name := take hs rfl

theorem typeName {ty : Ty} (hs : s.ahead.map Lexed.token = .ty ty :: rest) :
    Takes s rest (fun result => ∃ line, result = (ty, line)) typeName := take hs rfl

theorem sign {sg : Sign} (hs : s.ahead.map Lexed.token = .sign sg :: rest) :
    Takes s rest (fun _ => True) (sign sg) := by
  obtain ⟨line, tail, hs, htail⟩ := exists_ahead hs
  exact ⟨_, _, outcome_sign_eq hs, htail, rfl, trivial⟩

theorem typedName {x : String} {ty : Ty} (hs : s.ahead.map Lexed.token = typed x ty ++ rest) :
    Takes s rest (fun pair => pair.1.form = .binder x ∧ pair.2.form = .ty ty) typedName := by
  refine bind (name hs) ?_
  rintro _ s hs ⟨line, rfl⟩
  refine bind (sign hs) fun _ s hs _ => bind (typeName hs) ?_
  rintro _ s hs ⟨tyLine, rfl⟩
  exact node_bind hs fun _ s hname hs => node_bind hs fun _ s hty hs => pure hs ⟨hname, hty⟩

end Takes

/-! ## The rules -/

/-- The signs that go on with a statement. -/
def statementReach : List Sign := bindingSigns ++ reach .relation

/-- Where a block may end. -/
def Ends (nested : Bool) (rest : List Token) : Prop :=
  rest = [] ∨ nested = true ∧ rest.head? = some (.sign .closeBrace)

/-- How the rule for a phrase is to read the tokens `ts`, given enough fuel and a
    suitable continuation. -/
def Accepted (ts : List Token) : Phrase → Prop
  | .block ns => ∀ nested fuel s rest, 12 * ts.length + 10 ≤ fuel →
      s.ahead.map Lexed.token = ts ++ rest → Ends nested rest →
      Takes s rest (List.Forall₂ Alike · ns) (liftM (statements nested fuel))
  | .statement n => ∀ fuel s rest, 12 * ts.length + 9 ≤ fuel →
      s.ahead.map Lexed.token = ts ++ rest → Stops statementReach ts rest →
      Takes s rest (Alike · n) (statement fuel)
  | .moreParameters pairs => ∀ fuel s rest, 12 * ts.length + 1 ≤ fuel →
      s.ahead.map Lexed.token = ts ++ .sign .closeParen :: rest →
      Takes s rest (List.Forall₂ (fun p q => Alike p.1 q.1 ∧ Alike p.2 q.2) · pairs)
        (moreParams fuel)
  | .operand level n => ∀ fuel s rest, 12 * ts.length + operandDepth level ≤ fuel →
      s.ahead.map Lexed.token = ts ++ rest → Stops (reach level) ts rest →
      Takes s rest (Alike · n) (operand fuel level)
  | .operators level left n => ∀ fuel s rest, 12 * ts.length + 1 ≤ fuel →
      s.ahead.map Lexed.token = ts ++ rest → Stops (reach level) ts rest →
      ∀ left', Alike left' left → Takes s rest (Alike · n) (operators fuel level left')
  | .power n => ∀ fuel s rest, 12 * ts.length + 2 ≤ fuel →
      s.ahead.map Lexed.token = ts ++ rest → Stops [.caret] ts rest →
      Takes s rest (Alike · n) (power fuel)
  | .primary n => ∀ fuel s rest, 12 * ts.length + 1 ≤ fuel →
      s.ahead.map Lexed.token = ts ++ rest → Apart ts rest →
      Takes s rest (Alike · n) (primary fuel)
  | .moreArguments values => ∀ fuel s rest, 12 * ts.length + 1 ≤ fuel →
      s.ahead.map Lexed.token = ts ++ .sign .closeParen :: rest →
      Takes s rest (List.Forall₂ Alike · values) (moreArgs fuel)

section Groups

variable {s : State} {rest : List Token} {fuel : Nat}

theorem takes_parenthesized {n : Node} {ts : List Token} (h : Accepted ts (.statement n))
    (hfuel : 12 * (parens ts).length ≤ fuel) (hs : s.ahead.map Lexed.token = parens ts ++ rest) :
    Takes s rest (Alike · n) (parenthesized fuel) := by
  simp only [parens, List.length_cons, List.length_append, List.length_nil] at hfuel
  obtain ⟨fuel, rfl⟩ := Nat.exists_eq_add_of_le' (show 1 ≤ fuel by omega)
  simp only [parens, List.cons_append, List.append_assoc] at hs
  rw [parenthesized]
  refine .bind (.sign hs) fun _ s hs _ => .bind (h fuel s _ (by omega) hs ?_) fun n' s hs hn => ?_
  · exact .of_head rfl (by decide)
  · exact .bind (.sign hs) fun _ s hs _ => .pure hs hn

theorem takes_block {nested : Bool} {b : Node} {ns : List Node} {ts : List Token}
    (hb : b.form = .block ns) (h : Accepted ts (.block ns)) (hfuel : 12 * ts.length + 11 ≤ fuel)
    (hs : s.ahead.map Lexed.token = ts ++ rest) (hrest : Ends nested rest) :
    Takes s rest (Alike · b) (liftM (block nested fuel)) := by
  obtain ⟨fuel, rfl⟩ := Nat.exists_eq_add_of_le' (show 1 ≤ fuel by omega)
  obtain ⟨ns', t, hrun, ht, herrors, hns⟩ := (h nested fuel s rest (by omega) hs hrest).exists_run
  exact .of_run (run_block hrun) ht herrors (.block rfl hb trivial hns)

theorem takes_braced {b : Node} {ns : List Node} {ts : List Token} (hb : b.form = .block ns)
    (h : Accepted ts (.block ns)) (hfuel : 12 * (braces ts).length ≤ fuel)
    (hs : s.ahead.map Lexed.token = braces ts ++ rest) :
    Takes s rest (Alike · b) (braced fuel) := by
  simp only [braces, List.length_cons, List.length_append, List.length_nil] at hfuel
  obtain ⟨fuel, rfl⟩ := Nat.exists_eq_add_of_le' (show 1 ≤ fuel by omega)
  simp only [braces, List.cons_append, List.append_assoc] at hs
  rw [braced]
  refine .bind (.sign hs) fun _ s hs _ => ?_
  refine .bind (takes_block hb h (by omega) hs (.inr ⟨rfl, rfl⟩)) fun b' s hs hb => ?_
  exact .bind (.sign hs) fun _ s hs _ => .pure hs hb

theorem takes_tighter {level : Level} {n : Node} {ts : List Token}
    (h : Accepted ts (.tighter level n)) (hfuel : 12 * ts.length + operandDepth level ≤ fuel + 1)
    (hs : s.ahead.map Lexed.token = ts ++ rest) (hrest : Stops (tighterReach level) ts rest) :
    Takes s rest (Alike · n) (tighter fuel level) := by
  have hdepth : 4 ≤ operandDepth level := by cases level <;> decide
  obtain ⟨fuel, rfl⟩ := Nat.exists_eq_add_of_le' (show 1 ≤ fuel by omega)
  cases level with
  | relation => exact h fuel s rest (Nat.le_of_add_le_add_right (b := 2) hfuel) hs hrest
  | sum => exact h fuel s rest (Nat.le_of_add_le_add_right (b := 2) hfuel) hs hrest
  | product => exact h fuel s rest (Nat.le_of_add_le_add_right (b := 2) hfuel) hs hrest

/-- A guard and the body that follows it. -/
theorem takes_guarded {g b : Node} {ns : List Node} {guard body : List Token} {Q : Node → Prop}
    {f : Node → Node → Parser Node} (hb : b.form = .block ns) (hg : Accepted guard (.statement g))
    (hbody : Accepted body (.block ns))
    (hfuel : 12 * (parens guard ++ braces body).length ≤ fuel)
    (hs : s.ahead.map Lexed.token = parens guard ++ braces body ++ rest)
    (hf : ∀ g' b' t, t.ahead.map Lexed.token = rest → Alike g' g → Alike b' b →
      Takes t rest Q (f g' b')) :
    Takes s rest Q (do f (← parenthesized fuel) (← braced fuel)) := by
  rw [List.length_append] at hfuel
  rw [List.append_assoc] at hs
  refine .bind (takes_parenthesized hg (by omega) hs) fun g' s hs hg => ?_
  refine .bind (takes_braced hb hbody (by omega) hs) fun b' s hs hb => ?_
  exact hf g' b' s hs hg hb

/-- A name and the value that it gets. -/
theorem takes_bound {name v : Node} {x : String} {line : Nat} {value : List Token}
    {Q : Node → Prop} {f : Node → Node → Parser Node} (hname : name.form = .binder x)
    (hv : Accepted value (.statement v)) (hfuel : 12 * value.length + 9 ≤ fuel)
    (hs : s.ahead.map Lexed.token = value ++ rest) (hrest : Stops statementReach value rest)
    (hf : ∀ name' v' t, t.ahead.map Lexed.token = rest → Alike name' name → Alike v' v →
      Takes t rest Q (f name' v')) :
    Takes s rest Q (do f (← node line (.binder x)) (← statement fuel)) := by
  refine .node_bind hs fun name' s hname' hs => ?_
  have hmatch : Alike name' name :=
    .of_forms (.binder x) hname' hname trivial (by simp [Form.children])
  refine .bind (hv fuel s rest hfuel hs hrest) fun v' s hs hv => ?_
  exact hf name' v' s hs hmatch hv

theorem takes_paramList {ps x ty : Node} {y : String} {t : Ty} {pairs : List (Node × Node)}
    {ts : List Token} (hps : ps.form = .params ((x, ty) :: pairs)) (hx : x.form = .binder y)
    (hty : ty.form = .ty t) (h : Accepted ts (.moreParameters pairs))
    (hfuel : 12 * ts.length + 1 ≤ fuel)
    (hs : s.ahead.map Lexed.token = parens (typed y t ++ ts) ++ rest) :
    Takes s rest (fun params => ∃ ps', params = some ps' ∧ Alike ps' ps) (paramList fuel) := by
  simp only [parens, List.cons_append, List.append_assoc] at hs
  refine .bind (.sign hs) fun _ s hs _ => .sees_bind hs ?_
  refine .bind (.typedName hs) fun pair s hs hpair => ?_
  refine .bind (h fuel s rest hfuel hs) fun pairs' s hs hpairs => ?_
  have hmatch : Alike pair.1 x ∧ Alike pair.2 ty :=
    ⟨.of_forms (.binder y) hpair.1 hx trivial (by simp [Form.children]),
      .of_forms (.ty t) hpair.2 hty trivial (by simp [Form.children])⟩
  refine .node_bind hs fun ps' s hform hs => .pure hs ⟨ps', rfl, ?_⟩
  exact .params hform hps trivial (.cons hmatch hpairs)

theorem takes_emptyParamList (hs : s.ahead.map Lexed.token = parens [] ++ rest) :
    Takes s rest (fun params => params = none) (paramList fuel) := by
  refine .bind (.sign hs) fun _ s hs _ => .sees_bind hs ?_
  exact .advance_bind hs fun s hs => .pure hs rfl

end Groups

/-! ## Statements -/

section Statements

variable {n v b : Node} {ns : List Node} {value body : List Token}

theorem accepted_scope (hn : n.form = .scope b) (hb : b.form = .block ns)
    (h : Accepted body (.block ns)) : Accepted (braces body) (.statement n) := by
  intro fuel s rest hfuel hs _
  obtain ⟨fuel, rfl⟩ := Nat.exists_eq_add_of_le' (show 1 ≤ fuel by omega)
  obtain ⟨line, tail, hahead, -⟩ := exists_ahead hs
  rw [statement]
  refine .get_bind ?_
  simp only [hahead]
  refine .bind (takes_braced hb h (by omega) hs) fun b' s hs hb => .node hs fun id => ?_
  exact .of_forms (.scope (b', b)) rfl hn trivial (by simpa [Form.children] using hb)

theorem accepted_comment {text : String} (hn : n.form = .comment text) :
    Accepted [.comment text] (.statement n) := by
  intro fuel s rest hfuel hs _
  obtain ⟨fuel, rfl⟩ := Nat.exists_eq_add_of_le' (show 1 ≤ fuel by omega)
  obtain ⟨line, tail, hahead, -⟩ := exists_ahead hs
  rw [statement]
  refine .get_bind ?_
  simp only [hahead]
  refine .advance_bind hs fun s hs => .node hs fun id => ?_
  exact .of_forms (.comment text) rfl hn trivial (by simp [Form.children])

theorem accepted_print (hn : n.form = .print v) (h : Accepted value (.statement v)) :
    Accepted (.keyword .print :: parens value) (.statement n) := by
  intro fuel s rest hfuel hs _
  rw [List.length_cons] at hfuel
  obtain ⟨fuel, rfl⟩ := Nat.exists_eq_add_of_le' (show 1 ≤ fuel by omega)
  obtain ⟨line, tail, hahead, -⟩ := exists_ahead hs
  rw [statement]
  refine .get_bind ?_
  simp only [hahead]
  refine .advance_bind hs fun s hs => ?_
  refine .bind (takes_parenthesized h (by omega) hs) fun v' s hs hv => .node hs fun id => ?_
  exact .of_forms (.print (v', v)) rfl hn trivial (by simpa [Form.children] using hv)

theorem accepted_branch {g : Node} {guard : List Token} (hn : n.form = .branch g b)
    (hb : b.form = .block ns) (hg : Accepted guard (.statement g))
    (hbody : Accepted body (.block ns)) :
    Accepted (.keyword .ifWord :: (parens guard ++ braces body)) (.statement n) := by
  intro fuel s rest hfuel hs _
  rw [List.length_cons] at hfuel
  obtain ⟨fuel, rfl⟩ := Nat.exists_eq_add_of_le' (show 1 ≤ fuel by omega)
  obtain ⟨line, tail, hahead, -⟩ := exists_ahead hs
  rw [statement]
  refine .get_bind ?_
  simp only [hahead]
  refine .advance_bind hs fun s hs => takes_guarded hb hg hbody (by omega) hs ?_
  refine fun g' b' s hs hg hb => .node hs fun id => ?_
  exact .of_forms (.branch (g', g) (b', b)) rfl hn trivial
    (by simpa [Form.children] using ⟨hg, hb⟩)

theorem accepted_whileLoop {g : Node} {guard : List Token} (hn : n.form = .whileLoop g b)
    (hb : b.form = .block ns) (hg : Accepted guard (.statement g))
    (hbody : Accepted body (.block ns)) :
    Accepted (.keyword .whileWord :: (parens guard ++ braces body)) (.statement n) := by
  intro fuel s rest hfuel hs _
  rw [List.length_cons] at hfuel
  obtain ⟨fuel, rfl⟩ := Nat.exists_eq_add_of_le' (show 1 ≤ fuel by omega)
  obtain ⟨line, tail, hahead, -⟩ := exists_ahead hs
  rw [statement]
  refine .get_bind ?_
  simp only [hahead]
  refine .advance_bind hs fun s hs => takes_guarded hb hg hbody (by omega) hs ?_
  refine fun g' b' s hs hg hb => .node hs fun id => ?_
  exact .of_forms (.whileLoop (g', g) (b', b)) rfl hn trivial
    (by simpa [Form.children] using ⟨hg, hb⟩)

theorem accepted_forLoop {a g c : Node} {start guard step : List Token}
    (hn : n.form = .forLoop a g c b) (hb : b.form = .block ns) (ha : Accepted start (.statement a))
    (hg : Accepted guard (.statement g)) (hc : Accepted step (.statement c))
    (hbody : Accepted body (.block ns)) :
    Accepted (.keyword .forWord ::
      (parens (start ++ .sign .semicolon :: (guard ++ .sign .semicolon :: step)) ++ braces body))
      (.statement n) := by
  intro fuel s rest hfuel hs _
  simp only [parens, List.length_cons, List.length_append, List.length_nil] at hfuel
  obtain ⟨fuel, rfl⟩ := Nat.exists_eq_add_of_le' (show 1 ≤ fuel by omega)
  obtain ⟨line, tail, hahead, -⟩ := exists_ahead hs
  simp only [parens, List.cons_append, List.append_assoc] at hs
  rw [statement]
  refine .get_bind ?_
  simp only [hahead]
  refine .advance_bind hs fun s hs => .bind (.sign hs) fun _ s hs _ => ?_
  refine .bind (ha fuel s _ (by omega) hs (.of_head rfl (by decide))) fun a' s hs ha => ?_
  refine .bind (.sign hs) fun _ s hs _ => ?_
  refine .bind (hg fuel s _ (by omega) hs (.of_head rfl (by decide))) fun g' s hs hg => ?_
  refine .bind (.sign hs) fun _ s hs _ => ?_
  refine .bind (hc fuel s _ (by omega) hs (.of_head rfl (by decide))) fun c' s hs hc => ?_
  refine .bind (.sign hs) fun _ s hs _ => ?_
  refine .bind (takes_braced hb hbody (by omega) hs) fun b' s hs hb => .node hs fun id => ?_
  exact .of_forms (.forLoop (a', a) (g', g) (c', c) (b', b)) rfl hn trivial
    (by simpa [Form.children] using ⟨ha, hg, hc, hb⟩)

theorem accepted_procedure {name : Node} {f : String} (hn : n.form = .function name none b)
    (hname : name.form = .binder f) (hb : b.form = .block ns) (hbody : Accepted body (.block ns)) :
    Accepted (.keyword .function :: .name f :: (parens [] ++ .sign .equals :: braces body))
      (.statement n) := by
  intro fuel s rest hfuel hs _
  simp only [List.length_cons, List.length_append] at hfuel
  obtain ⟨fuel, rfl⟩ := Nat.exists_eq_add_of_le' (show 1 ≤ fuel by omega)
  obtain ⟨line, tail, hahead, -⟩ := exists_ahead hs
  simp only [List.cons_append, List.append_assoc] at hs
  rw [statement]
  refine .get_bind ?_
  simp only [hahead]
  refine .advance_bind hs fun s hs => .bind (.name hs) ?_
  rintro _ s hs ⟨nameLine, rfl⟩
  refine .node_bind hs fun name' s hname' hs => ?_
  refine .bind (takes_emptyParamList hs) ?_
  rintro _ s hs rfl
  refine .bind (.sign hs) fun _ s hs _ => ?_
  refine .bind (takes_braced hb hbody (by omega) hs) fun b' s hs hb => .node hs fun id => ?_
  have hmatch : Alike name' name :=
    .of_forms (.binder f) hname' hname trivial (by simp [Form.children])
  exact .of_forms (.function (name', name) none (b', b)) rfl hn trivial
    (by simpa [Form.children] using ⟨hmatch, hb⟩)

theorem accepted_function {name ps x ty : Node} {f y : String} {t : Ty}
    {pairs : List (Node × Node)} {params : List Token} (hn : n.form = .function name (some ps) b)
    (hname : name.form = .binder f) (hps : ps.form = .params ((x, ty) :: pairs))
    (hx : x.form = .binder y) (hty : ty.form = .ty t) (hb : b.form = .block ns)
    (hparams : Accepted params (.moreParameters pairs)) (hbody : Accepted body (.block ns)) :
    Accepted (.keyword .function :: .name f ::
      (parens (typed y t ++ params) ++ .sign .equals :: braces body)) (.statement n) := by
  intro fuel s rest hfuel hs _
  simp only [parens, List.length_cons, List.length_append] at hfuel
  obtain ⟨fuel, rfl⟩ := Nat.exists_eq_add_of_le' (show 1 ≤ fuel by omega)
  obtain ⟨line, tail, hahead, -⟩ := exists_ahead hs
  rw [List.cons_append, List.cons_append, List.append_assoc] at hs
  rw [statement]
  refine .get_bind ?_
  simp only [hahead]
  refine .advance_bind hs fun s hs => .bind (.name hs) ?_
  rintro _ s hs ⟨nameLine, rfl⟩
  refine .node_bind hs fun name' s hname' hs => ?_
  refine .bind (takes_paramList hps hx hty hparams (by omega) hs) ?_
  rintro _ s hs ⟨ps', rfl, hps⟩
  refine .bind (.sign hs) fun _ s hs _ => ?_
  refine .bind (takes_braced hb hbody (by omega) hs) fun b' s hs hb => .node hs fun id => ?_
  have hmatch : Alike name' name :=
    .of_forms (.binder f) hname' hname trivial (by simp [Form.children])
  exact .of_forms (.function (name', name) (some (ps', ps)) (b', b)) rfl hn trivial
    (by simpa [Form.children] using ⟨hmatch, hps, hb⟩)

theorem accepted_assign {name : Node} {x : String} (hn : n.form = .assign name v)
    (hname : name.form = .binder x) (h : Accepted value (.statement v)) :
    Accepted (.name x :: .sign .equals :: value) (.statement n) := by
  intro fuel s rest hfuel hs hrest
  simp only [List.length_cons] at hfuel
  obtain ⟨fuel, rfl⟩ := Nat.exists_eq_add_of_le' (show 1 ≤ fuel by omega)
  obtain ⟨line, tail, hahead, htail⟩ := exists_ahead hs
  obtain ⟨line', tail, rfl, -⟩ := exists_ahead htail
  rw [statement]
  refine .get_bind ?_
  simp only [hahead]
  refine .advance_bind hs fun s hs => .advance_bind hs fun s hs => ?_
  refine takes_bound hname h (by omega) hs ⟨hrest.sign, hrest.apart.of_cons.of_cons⟩ ?_
  refine fun name' v' s hs hname hv => .node hs fun id => ?_
  exact .of_forms (.assign (name', name) (v', v)) rfl hn trivial
    (by simpa [Form.children] using ⟨hname, hv⟩)

theorem accepted_define {name : Node} {x : String} (hn : n.form = .define name v)
    (hname : name.form = .binder x) (h : Accepted value (.statement v)) :
    Accepted (.name x :: .sign .colonEquals :: value) (.statement n) := by
  intro fuel s rest hfuel hs hrest
  simp only [List.length_cons] at hfuel
  obtain ⟨fuel, rfl⟩ := Nat.exists_eq_add_of_le' (show 1 ≤ fuel by omega)
  obtain ⟨line, tail, hahead, htail⟩ := exists_ahead hs
  obtain ⟨line', tail, rfl, -⟩ := exists_ahead htail
  rw [statement]
  refine .get_bind ?_
  simp only [hahead]
  refine .advance_bind hs fun s hs => .advance_bind hs fun s hs => ?_
  refine takes_bound hname h (by omega) hs ⟨hrest.sign, hrest.apart.of_cons.of_cons⟩ ?_
  refine fun name' v' s hs hname hv => .node hs fun id => ?_
  exact .of_forms (.define (name', name) (v', v)) rfl hn trivial
    (by simpa [Form.children] using ⟨hname, hv⟩)

theorem accepted_declare {name ty : Node} {x : String} {t : Ty} (hn : n.form = .declare name ty)
    (hname : name.form = .binder x) (hty : ty.form = .ty t) :
    Accepted (typed x t) (.statement n) := by
  intro fuel s rest hfuel hs _
  obtain ⟨fuel, rfl⟩ := Nat.exists_eq_add_of_le' (show 1 ≤ fuel by omega)
  obtain ⟨line, tail, hahead, htail⟩ := exists_ahead hs
  obtain ⟨line', tail, rfl, -⟩ := exists_ahead htail
  rw [statement]
  refine .get_bind ?_
  simp only [hahead]
  refine .bind (.typedName hs) fun pair s hs hpair => .node hs fun id => ?_
  have hmatch : Alike pair.1 name ∧ Alike pair.2 ty :=
    ⟨.of_forms (.binder x) hpair.1 hname trivial (by simp [Form.children]),
      .of_forms (.ty t) hpair.2 hty trivial (by simp [Form.children])⟩
  exact .of_forms (.declare (pair.1, name) (pair.2, ty)) rfl hn trivial
    (by simpa [Form.children] using hmatch)

theorem startsStatement_of_opensOperand {t : Token} (h : opensOperand t = true) :
    startsStatement t = false := by
  cases t with
  | sign sg => cases sg <;> first | rfl | cases h
  | keyword k => cases k <;> first | rfl | cases h
  | _ => first | rfl | cases h

theorem accepted_expression {ts : List Token} (hts : BeginsOperand ts)
    (h : Accepted ts (.operand .relation n)) : Accepted ts (.statement n) := by
  intro fuel s rest hfuel hs hrest
  obtain ⟨fuel, rfl⟩ := Nat.exists_eq_add_of_le' (show 1 ≤ fuel by omega)
  have hbegins := hts.append fun sg hsg => hrest.sign sg (List.mem_append_left _ hsg)
  obtain ⟨t, us, heq, ht⟩ := hbegins.opens
  obtain ⟨line, tail, hahead, htail⟩ := exists_ahead (hs.trans heq)
  unfold Takes
  rw [outcome_statement_operand hahead (startsStatement_of_opensOperand ht) ?unbound]
  case unbound =>
    rintro x rfl sg hsg
    rw [← List.head?_map, htail]
    exact hbegins.unbound x us heq sg hsg
  refine h fuel s rest (Nat.le_of_succ_le_succ hfuel) hs ⟨fun sg hsg => ?_, hrest.apart⟩
  exact hrest.sign sg (List.mem_append_right _ hsg)

end Statements

/-! ## Expressions -/

theorem alike_of_literal? {t : Token} {id line : Nat} {n : Node} (h : literal? t = some n.form) :
    Alike ⟨id, line, n.form⟩ n := by
  obtain ⟨_, _, form⟩ := n
  obtain ⟨-, -, hleaf⟩ := leaf_of_literal? h
  exact .leaf hleaf trivial

section Expressions

variable {level : Level} {left n : Node} {a ts : List Token}

theorem accepted_operand (hts : Written (.operators level left n) ts)
    (ha : Accepted a (.tighter level left)) (h : Accepted ts (.operators level left n)) :
    Accepted (a ++ ts) (.operand level n) := by
  intro fuel s rest hfuel hs hrest
  have hdepth : 4 ≤ operandDepth level := by cases level <;> decide
  rw [List.length_append] at hfuel
  rw [List.append_assoc] at hs
  obtain ⟨fuel, rfl⟩ := Nat.exists_eq_add_of_le' (show 1 ≤ fuel by omega)
  rw [operand]
  refine .bind (takes_tighter ha (by omega) hs (hts.stops hrest)) fun left' s hs hleft => ?_
  exact h fuel s rest (by omega) hs ⟨hrest.sign, hrest.apart.right⟩ left' hleft

theorem accepted_lastOperand : Accepted [] (.operators level n n) := by
  intro fuel s rest hfuel hs hrest left' hleft
  obtain ⟨fuel, rfl⟩ := Nat.exists_eq_add_of_le' (show 1 ≤ fuel by omega)
  rw [operators]
  refine .peek_bind ?_
  cases hahead : s.ahead with
  | nil => exact .pure hs hleft
  | cons t tail =>
    have hnone : level.operator? t.token = none := by
      rw [← Option.not_isSome_iff_eq_none, operator?_isSome]
      rintro ⟨sg, hsg, ht⟩
      rw [hahead, List.map_cons, ht] at hs
      exact hrest.sign sg (List.mem_append_left _ hsg) (by rw [← List.nil_append rest, ← hs]; rfl)
    simp only [List.head?_cons, hnone]
    exact .pure hs hleft

theorem accepted_nextOperand {right m : Node} {sg : Sign} {form : Node → Node → Form Node}
    (hop : level.operator? (.sign sg) = some form) (hm : m.form = form left right)
    (hts : Written (.operators level m n) ts) (ha : Accepted a (.tighter level right))
    (h : Accepted ts (.operators level m n)) :
    Accepted (.sign sg :: (a ++ ts)) (.operators level left n) := by
  intro fuel s rest hfuel hs hrest left' hleft
  have hdepth : operandDepth level ≤ 8 := by cases level <;> decide
  simp only [List.length_cons, List.length_append] at hfuel
  obtain ⟨fuel, rfl⟩ := Nat.exists_eq_add_of_le' (show 1 ≤ fuel by omega)
  obtain ⟨line, tail, hahead, -⟩ := exists_ahead hs
  rw [List.cons_append, List.append_assoc] at hs
  rw [operators]
  refine .peek_bind ?_
  simp only [hahead, List.head?_cons, hop]
  refine .advance_bind hs fun s hs => ?_
  have hstops : Stops (tighterReach level) a (ts ++ rest) :=
    hts.stops ⟨hrest.sign, hrest.apart.of_cons⟩
  refine .bind (takes_tighter ha (by omega) hs hstops) fun right' s hs hright => ?_
  refine .node_bind hs fun m' s hm' hs => ?_
  refine h fuel s rest (by omega) hs ⟨hrest.sign, hrest.apart.of_cons.right⟩ m' ?_
  exact .operator (Level.operator?_eq_some hop) hm' hm trivial hleft hright

theorem accepted_base (h : Accepted ts (.primary n)) : Accepted ts (.power n) := by
  intro fuel s rest hfuel hs hrest
  obtain ⟨fuel, rfl⟩ := Nat.exists_eq_add_of_le' (show 1 ≤ fuel by omega)
  rw [power]
  refine .bind (h fuel s rest (by omega) hs hrest.apart) fun n' s hs hn => .peek_bind ?_
  split
  · next line hhead =>
    refine absurd ?_ (hrest.sign .caret (by simp))
    rw [← hs, List.head?_map, hhead]
    rfl
  · exact .pure hs hn

theorem accepted_power {l r : Node} {b : List Token} (hn : n.form = .arith .pow l r)
    (hl : Accepted a (.primary l)) (hr : Accepted b (.power r)) :
    Accepted (a ++ .sign .caret :: b) (.power n) := by
  intro fuel s rest hfuel hs hrest
  simp only [List.length_cons, List.length_append] at hfuel
  obtain ⟨fuel, rfl⟩ := Nat.exists_eq_add_of_le' (show 1 ≤ fuel by omega)
  rw [List.append_assoc] at hs
  rw [power]
  have hcaret : Stops [] a (.sign .caret :: b ++ rest) := .of_head rfl (by decide)
  refine .bind (hl fuel s _ (by omega) hs hcaret.apart) fun l' s hs hl => .peek_bind ?_
  obtain ⟨line, tail, hahead, -⟩ := exists_ahead hs
  simp only [hahead, List.head?_cons]
  refine .advance_bind hs fun s hs => ?_
  have hstops : Stops [.caret] b rest := ⟨hrest.sign, hrest.apart.right.of_cons⟩
  refine .bind (hr fuel s rest (by omega) hs hstops) fun r' s hs hr => .node hs fun id => ?_
  exact .of_forms (.arith .pow (l', l) (r', r)) rfl hn trivial
    (by simpa [Form.children] using ⟨hl, hr⟩)

theorem accepted_literal {t : Token} (hn : literal? t = some n.form) :
    Accepted [t] (.primary n) := by
  intro fuel s rest hfuel hs _
  obtain ⟨fuel, rfl⟩ := Nat.exists_eq_add_of_le' (show 1 ≤ fuel by omega)
  obtain ⟨line, tail, hahead, -⟩ := exists_ahead hs
  have hleaf : ∀ id, Alike ⟨id, line, n.form⟩ n := fun id => alike_of_literal? hn
  rw [primary]
  refine .get_bind ?_
  cases t with
  | int | float | str | bool | pi =>
    simp only [hahead, hn]
    exact .advance_bind hs fun s hs => .node hs hleaf
  | _ => cases hn

theorem accepted_read {x : String} (hn : n.form = .read x) : Accepted [.name x] (.primary n) := by
  intro fuel s rest hfuel hs hrest
  obtain ⟨fuel, rfl⟩ := Nat.exists_eq_add_of_le' (show 1 ≤ fuel by omega)
  obtain ⟨line, tail, hahead, htail⟩ := exists_ahead hs
  have hcall : tail.head?.map Lexed.token ≠ some (.sign .openParen) := by
    rw [← List.head?_map, htail]
    exact hrest x rfl
  unfold Takes
  rw [outcome_primary_name hahead hcall]
  exact ⟨_, _, rfl, htail, rfl, .of_forms (.read x) rfl hn trivial (by simp [Form.children])⟩

theorem accepted_bareCall {name : Node} {f : String} (hn : n.form = .call name none)
    (hname : name.form = .binder f) : Accepted (.name f :: parens []) (.primary n) := by
  intro fuel s rest hfuel hs _
  obtain ⟨fuel, rfl⟩ := Nat.exists_eq_add_of_le' (show 1 ≤ fuel by omega)
  obtain ⟨line, tail, hahead, htail⟩ := exists_ahead hs
  obtain ⟨argsLine, tail, rfl, -⟩ := exists_ahead htail
  rw [primary]
  refine .get_bind ?_
  simp only [hahead]
  refine .advance_bind hs fun s hs => .advance_bind hs fun s hs => ?_
  refine .node_bind hs fun name' s hname' hs => .sees_bind hs ?_
  refine .advance_bind hs fun s hs => .node hs fun id => ?_
  have hmatch : Alike name' name :=
    .of_forms (.binder f) hname' hname trivial (by simp [Form.children])
  exact .of_forms (.call (name', name) none) rfl hn trivial (by simpa [Form.children] using hmatch)

theorem accepted_call {name args v : Node} {f : String} {values : List Node}
    (hn : n.form = .call name (some args)) (hname : name.form = .binder f)
    (hargs : args.form = .args (v :: values)) (hbegins : BeginsOperand a)
    (hts : Written (.moreArguments values) ts) (ha : Accepted a (.operand .relation v))
    (h : Accepted ts (.moreArguments values)) :
    Accepted (.name f :: parens (a ++ ts)) (.primary n) := by
  intro fuel s rest hfuel hs _
  simp only [parens, List.length_cons, List.length_append] at hfuel
  obtain ⟨fuel, rfl⟩ := Nat.exists_eq_add_of_le' (show 1 ≤ fuel by omega)
  obtain ⟨line, tail, hahead, htail⟩ := exists_ahead hs
  obtain ⟨argsLine, tail, rfl, -⟩ := exists_ahead htail
  simp only [parens, List.cons_append, List.append_assoc] at hs
  rw [primary]
  refine .get_bind ?_
  simp only [hahead]
  refine .advance_bind hs fun s hs => .advance_bind hs fun s hs => ?_
  refine .node_bind hs fun name' s hname' hs => .sees_bind hs ?_
  rw [decide_eq_false (hbegins.head?_append_ne _ (by decide))]
  refine .bind (ha fuel s _ ?_ hs hts.stops_argument) fun v' s hs hv => ?_
  · simp only [operandDepth]
    omega
  refine .bind (h fuel s rest (by omega) hs) fun values' s hs hvalues => ?_
  refine .node_bind hs fun args' s hargs' hs => .node hs fun id => ?_
  have hname : Alike name' name :=
    .of_forms (.binder f) hname' hname trivial (by simp [Form.children])
  have hargs : Alike args' args := .args hargs' hargs trivial (.cons hv hvalues)
  exact .of_forms (.call (name', name) (some (args', args))) rfl hn trivial
    (by simpa [Form.children] using ⟨hname, hargs⟩)

theorem accepted_math {m : Node} {fn : MathFn} (hn : n.form = .math fn m)
    (h : Accepted ts (.operand .relation m)) : Accepted (.math fn :: parens ts) (.primary n) := by
  intro fuel s rest hfuel hs _
  simp only [parens, List.length_cons, List.length_append] at hfuel
  obtain ⟨fuel, rfl⟩ := Nat.exists_eq_add_of_le' (show 1 ≤ fuel by omega)
  obtain ⟨line, tail, hahead, -⟩ := exists_ahead hs
  simp only [parens, List.cons_append, List.append_assoc] at hs
  rw [primary]
  refine .get_bind ?_
  simp only [hahead]
  refine .advance_bind hs fun s hs => .bind (.sign hs) fun _ s hs _ => ?_
  have hfuel : 12 * ts.length + operandDepth .relation ≤ fuel := by
    simp only [operandDepth]
    omega
  refine .bind (h fuel s _ hfuel hs (.of_head rfl (by decide))) fun m' s hs hm => ?_
  refine .bind (.sign hs) fun _ s hs _ => .node hs fun id => ?_
  exact .of_forms (.math fn (m', m)) rfl hn trivial (by simpa [Form.children] using hm)

theorem accepted_cast {v ty : Node} {t : Ty} {value : List Token} (hn : n.form = .cast v ty)
    (hty : ty.form = .ty t) (h : Accepted value (.statement v)) :
    Accepted (.keyword .staticCast :: parens (value ++ [.sign .comma, .ty t])) (.primary n) := by
  intro fuel s rest hfuel hs _
  simp only [parens, List.length_cons, List.length_append] at hfuel
  obtain ⟨fuel, rfl⟩ := Nat.exists_eq_add_of_le' (show 1 ≤ fuel by omega)
  obtain ⟨line, tail, hahead, -⟩ := exists_ahead hs
  simp only [parens, List.cons_append, List.append_assoc] at hs
  rw [primary]
  refine .get_bind ?_
  simp only [hahead]
  refine .advance_bind hs fun s hs => .bind (.sign hs) fun _ s hs _ => ?_
  refine .bind (h fuel s _ (by omega) hs (.of_head rfl (by decide))) fun v' s hs hv => ?_
  refine .bind (.sign hs) fun _ s hs _ => .bind (.typeName hs) ?_
  rintro _ s hs ⟨tyLine, rfl⟩
  refine .bind (.sign hs) fun _ s hs _ => .node_bind hs fun ty' s hty' hs => .node hs fun id => ?_
  have hmatch : Alike ty' ty := .of_forms (.ty t) hty' hty trivial (by simp [Form.children])
  exact .of_forms (.cast (v', v) (ty', ty)) rfl hn trivial
    (by simpa [Form.children] using ⟨hv, hmatch⟩)

theorem accepted_enclosed (h : Accepted ts (.operand .relation n)) :
    Accepted (parens ts) (.primary n) := by
  intro fuel s rest hfuel hs _
  simp only [parens, List.length_cons, List.length_append] at hfuel
  obtain ⟨fuel, rfl⟩ := Nat.exists_eq_add_of_le' (show 1 ≤ fuel by omega)
  obtain ⟨line, tail, hahead, -⟩ := exists_ahead hs
  simp only [parens, List.cons_append, List.append_assoc] at hs
  rw [primary]
  refine .get_bind ?_
  simp only [hahead]
  refine .advance_bind hs fun s hs => ?_
  have hfuel : 12 * ts.length + operandDepth .relation ≤ fuel := by
    simp only [operandDepth]
    omega
  refine .bind (h fuel s _ hfuel hs (.of_head rfl (by decide))) fun m' s hs hm => ?_
  exact .bind (.sign hs) fun _ s hs _ => .pure hs hm

end Expressions

/-! ## Lists -/

theorem accepted_lastParameter : Accepted [] (.moreParameters []) := by
  intro fuel s rest hfuel hs
  obtain ⟨fuel, rfl⟩ := Nat.exists_eq_add_of_le' (show 1 ≤ fuel by omega)
  rw [moreParams]
  refine .sees_bind hs ?_
  exact .bind (.sign hs) fun _ s hs _ => .pure hs .nil

theorem accepted_nextParameter {name ty : Node} {x : String} {t : Ty} {pairs : List (Node × Node)}
    {ts : List Token} (hname : name.form = .binder x) (hty : ty.form = .ty t)
    (h : Accepted ts (.moreParameters pairs)) :
    Accepted (.sign .comma :: (typed x t ++ ts)) (.moreParameters ((name, ty) :: pairs)) := by
  intro fuel s rest hfuel hs
  simp only [List.length_cons, List.length_append] at hfuel
  obtain ⟨fuel, rfl⟩ := Nat.exists_eq_add_of_le' (show 1 ≤ fuel by omega)
  rw [List.cons_append, List.append_assoc] at hs
  rw [moreParams]
  refine .sees_bind hs (.advance_bind hs fun s hs => ?_)
  refine .bind (.typedName hs) fun pair s hs hpair => ?_
  refine .bind (h fuel s rest (by omega) hs) fun pairs' s hs hpairs => .pure hs (.cons ?_ hpairs)
  exact ⟨.of_forms (.binder x) hpair.1 hname trivial (by simp [Form.children]),
    .of_forms (.ty t) hpair.2 hty trivial (by simp [Form.children])⟩

theorem accepted_lastArgument : Accepted [] (.moreArguments []) := by
  intro fuel s rest hfuel hs
  obtain ⟨fuel, rfl⟩ := Nat.exists_eq_add_of_le' (show 1 ≤ fuel by omega)
  rw [moreArgs]
  refine .sees_bind hs ?_
  exact .bind (.sign hs) fun _ s hs _ => .pure hs .nil

theorem accepted_nextArgument {v : Node} {values : List Node} {a ts : List Token}
    (hts : Written (.moreArguments values) ts) (ha : Accepted a (.operand .relation v))
    (h : Accepted ts (.moreArguments values)) :
    Accepted (.sign .comma :: (a ++ ts)) (.moreArguments (v :: values)) := by
  intro fuel s rest hfuel hs
  simp only [List.length_cons, List.length_append] at hfuel
  obtain ⟨fuel, rfl⟩ := Nat.exists_eq_add_of_le' (show 1 ≤ fuel by omega)
  rw [List.cons_append, List.append_assoc] at hs
  rw [moreArgs]
  refine .sees_bind hs (.advance_bind hs fun s hs => ?_)
  refine .bind (ha fuel s _ ?_ hs hts.stops_argument) fun v' s hs hv => ?_
  · simp only [operandDepth]
    omega
  exact .bind (h fuel s rest (by omega) hs) fun values' s hs hvalues => .pure hs (.cons hv hvalues)

/-! ## Blocks -/

theorem accepted_done : Accepted [] (.block []) := by
  intro nested fuel s rest hfuel hs hrest
  obtain ⟨fuel, rfl⟩ := Nat.exists_eq_add_of_le' (show 1 ≤ fuel by omega)
  rcases hrest with rfl | ⟨rfl, hclose⟩
  · exact .of_run (run_statements_nil nested fuel (List.map_eq_nil_iff.mp hs)) hs rfl .nil
  · obtain ⟨ts, rfl⟩ := List.head?_eq_some_iff.mp hclose
    obtain ⟨line, tail, hahead, -⟩ := exists_ahead hs
    exact .of_run (run_statements_closed fuel hahead rfl) hs rfl .nil

theorem accepted_separator {ns : List Node} {ts : List Token} (h : Accepted ts (.block ns)) :
    Accepted (.sign .semicolon :: ts) (.block ns) := by
  intro nested fuel s rest hfuel hs hrest
  rw [List.length_cons] at hfuel
  obtain ⟨fuel, rfl⟩ := Nat.exists_eq_add_of_le' (show 1 ≤ fuel by omega)
  obtain ⟨line, tail, hahead, htail⟩ := exists_ahead hs
  obtain ⟨ns', u, hrun, hu, herrors, hns⟩ :=
    (h nested fuel { s with ahead := tail } rest (by omega) htail hrest).exists_run
  exact .of_run ((run_statements_separator hahead rfl).trans hrun) hu herrors hns

/-- The rest of a block stops the statement before it. -/
theorem stops_statement {ns : List Node} {nested : Bool} {a ts rest : List Token}
    (hts : Written (.block ns) ts) (hapart : Apart a ts) (hrest : Ends nested rest) :
    Stops statementReach a (ts ++ rest) := by
  cases hts with
  | done =>
    rcases hrest with rfl | ⟨-, hclose⟩
    · exact ⟨by simp, fun _ _ => by simp⟩
    · exact .of_head hclose (by decide)
  | separator _ => exact .of_head rfl (by decide)
  | next hn _ _ =>
    obtain ⟨t, us, rfl, ht⟩ := hn.opens
    have hdisjoint : ∀ sg ∈ statementReach, opens (.sign sg) ≠ true := by decide
    refine ⟨fun sg hsg heq => ?_, hapart⟩
    cases heq
    exact hdisjoint sg hsg ht

theorem accepted_next {n : Node} {ns : List Node} {a ts : List Token}
    (hopens : ∃ t us, a = t :: us ∧ opens t = true) (hts : Written (.block ns) ts)
    (hapart : Apart a ts) (hn : Accepted a (.statement n)) (h : Accepted ts (.block ns)) :
    Accepted (a ++ ts) (.block (n :: ns)) := by
  intro nested fuel s rest hfuel hs hrest
  obtain ⟨t, us, rfl, ht⟩ := hopens
  rw [List.length_append, List.length_cons] at hfuel
  rw [List.append_assoc] at hs
  obtain ⟨fuel, rfl⟩ := Nat.exists_eq_add_of_le' (show 1 ≤ fuel by omega)
  obtain ⟨line, tail, hahead, -⟩ := exists_ahead hs
  have hclose : t ≠ .sign .closeBrace := by
    rintro rfl
    cases ht
  have hsep : t ≠ .sign .semicolon := by
    rintro rfl
    cases ht
  have hfuel' : 12 * (t :: us).length + 9 ≤ fuel := by
    rw [List.length_cons]
    omega
  obtain ⟨n', u, hrun, hu, herrors, hn⟩ :=
    hn fuel s _ hfuel' hs (stops_statement hts hapart hrest)
  obtain ⟨ns', v, hruns, hv, herrors', hns⟩ :=
    (h nested fuel u rest (by omega) hu hrest).exists_run
  have hpass : Passes nested fuel s (n' :: ns') v :=
    .next hahead (fun h => hclose h.2) hsep hrun hruns
  exact .of_run hpass.run_eq hv (herrors'.trans herrors) (.cons hn hns)

/-- **Every rule reads what is written for it**, and yields the tree that was
    written up to ids and lines. -/
theorem accepted_of_written {phrase : Phrase} {ts : List Token} (h : Written phrase ts) :
    Accepted ts phrase := by
  induction h with
  | done => exact accepted_done
  | separator _ ih => exact accepted_separator ih
  | next hn hts hapart ihn ih => exact accepted_next hn.opens hts hapart ihn ih
  | scope hn hb _ ih => exact accepted_scope hn hb ih
  | comment hn => exact accepted_comment hn
  | print hn _ ih => exact accepted_print hn ih
  | branch hn hb _ _ ihg ihb => exact accepted_branch hn hb ihg ihb
  | whileLoop hn hb _ _ ihg ihb => exact accepted_whileLoop hn hb ihg ihb
  | forLoop hn hb _ _ _ _ iha ihg ihc ihb => exact accepted_forLoop hn hb iha ihg ihc ihb
  | procedure hn hname hb _ ih => exact accepted_procedure hn hname hb ih
  | function hn hname hps hx hty hb _ _ ihp ihb =>
    exact accepted_function hn hname hps hx hty hb ihp ihb
  | assign hn hname _ ih => exact accepted_assign hn hname ih
  | define hn hname _ ih => exact accepted_define hn hname ih
  | declare hn hname hty => exact accepted_declare hn hname hty
  | expression h ih => exact accepted_expression (h.beginsOperand rfl) ih
  | lastParameter => exact accepted_lastParameter
  | nextParameter hname hty _ ih => exact accepted_nextParameter hname hty ih
  | operand _ hts iha ih => exact accepted_operand hts iha ih
  | lastOperand => exact accepted_lastOperand
  | nextOperand hop hm _ hts iha ih => exact accepted_nextOperand hop hm hts iha ih
  | base _ ih => exact accepted_base ih
  | power hn _ _ ihl ihr => exact accepted_power hn ihl ihr
  | literal hn => exact accepted_literal hn
  | read hn => exact accepted_read hn
  | bareCall hn hname => exact accepted_bareCall hn hname
  | call hn hname hargs ha hts iha ih =>
    exact accepted_call hn hname hargs (ha.beginsOperand rfl) hts iha ih
  | math hn _ ih => exact accepted_math hn ih
  | cast hn hty _ ih => exact accepted_cast hn hty ih
  | enclosed _ ih => exact accepted_enclosed ih
  | lastArgument => exact accepted_lastArgument
  | nextArgument _ hts iha ih => exact accepted_nextArgument hts iha ih

/-- **A written program is read without errors**, whatever the lines of its
    tokens, and its tree is the one that was written. -/
theorem parse_of_written {tokens : List Lexed} {p b : Node} {ns : List Node} (firstId : Nat)
    (hp : p.form = .program b) (hb : b.form = .block ns)
    (h : Written (.block ns) (tokens.map Lexed.token)) :
    (parse tokens firstId).errors = [] ∧ Alike (parse tokens firstId).tree p := by
  have hfuel : 12 * (tokens.map Lexed.token).length + 11 ≤ fuel tokens := by simp [fuel]
  have hs : (start tokens firstId).ahead.map Lexed.token = tokens.map Lexed.token ++ [] := by
    rw [List.append_nil]
    rfl
  obtain ⟨b', t, hrun, -, herrors, hb'⟩ :=
    (takes_block hb (accepted_of_written h) hfuel hs (show Ends false [] from .inl rfl)).exists_run
  rw [parse_eq hrun]
  refine ⟨?_, .of_forms (.program (b', b)) rfl hp trivial (by simpa [Form.children] using hb')⟩
  change t.errors.toList = []
  rw [herrors]
  rfl

end Parser

end Scriptlet
