import Scriptlet.Proofs.Accepting
import Scriptlet.Proofs.Reading

/-!
# The grammar is ambiguous, the parser is not

Every derivable list of tokens is written for some tree. There is one thing to
show: where a statement ends in a name and the next one begins with a
parenthesis, the two are one statement as well, with a call in the middle. The
first statement ends in an expression, so let this expression be the operands
`a`, `b`, …, `f` with operators between them, and let the second statement be
`(r)` followed by operators and operands. Then `a`, `b`, …, `f(r)` and what
follows is again a list of operands with operators between them, and every such
list is an expression, whatever the precedence of its operators.

Results:
* `Grammar.Derives.writable`: a derivable list of tokens is written for a tree.
* `parse_errors_eq_nil_iff`: the parser finds no error in a list of tokens if and
  only if the list is derivable.
-/

namespace Scriptlet

namespace Grammar

open Scriptlet.Parser (Level)

/-! ## Tokens that are written for a tree -/

/-- There is a tree, or a part of a tree, that the tokens are written for. -/
def Writable : Category → List Token → Prop
  | .block, ts => ∃ ns, Written (.block ns) ts
  | .statement, ts => ∃ n, Written (.statement n) ts
  | .parameters, ts => ts = [] ∨
      ∃ x ty us pairs, ts = typed x ty ++ us ∧ Written (.moreParameters pairs) us
  | .moreParameters, ts => ∃ pairs, Written (.moreParameters pairs) ts
  | .operand level, ts => ∃ n, Written (.operand level n) ts
  | .operators level, ts => ∀ left, ∃ n, Written (.operators level left n) ts
  | .power, ts => ∃ n, Written (.power n) ts
  | .primary, ts => ∃ n, Written (.primary n) ts
  | .arguments, ts => ts = [] ∨ ∃ v values a us, ts = a ++ us ∧
      Written (.operand .relation v) a ∧ Written (.moreArguments values) us
  | .moreArguments, ts => ∃ values, Written (.moreArguments values) ts

theorem writable_tighter {level : Level} {ts : List Token} :
    Writable (tighter level) ts ↔ ∃ n, Written (.tighter level n) ts := by
  cases level <;> rfl

/-- A node of a form; ids and lines do not matter here. -/
def mk (form : Form Node) : Node := ⟨0, 0, form⟩

namespace Writable

variable {level : Level} {a ts us : List Token}

theorem operand (ha : Writable (tighter level) a) (hts : Writable (.operators level) ts) :
    Writable (.operand level) (a ++ ts) := by
  obtain ⟨left, hleft⟩ := writable_tighter.mp ha
  obtain ⟨n, hn⟩ := hts left
  exact ⟨n, .operand hleft hn⟩

theorem lastOperand : Writable (.operators level) [] := fun left => ⟨left, .lastOperand⟩

theorem nextOperand {sg : Sign} (hsg : sg ∈ operatorSigns level) (ha : Writable (tighter level) a)
    (hts : Writable (.operators level) ts) :
    Writable (.operators level) (.sign sg :: (a ++ ts)) := by
  intro left
  obtain ⟨right, hright⟩ := writable_tighter.mp ha
  have hop : (level.operator? (.sign sg)).isSome := operator?_isSome.mpr ⟨sg, hsg, rfl⟩
  obtain ⟨form, hform⟩ := Option.isSome_iff_exists.mp hop
  obtain ⟨n, hn⟩ := hts (mk (form left right))
  exact ⟨n, .nextOperand hform rfl hright hn⟩

theorem power {b : List Token} (ha : Writable .primary a) (hb : Writable .power b) :
    Writable .power (a ++ .sign .caret :: b) := by
  obtain ⟨l, hl⟩ := ha
  obtain ⟨r, hr⟩ := hb
  exact ⟨mk (.arith .pow l r), .power rfl hl hr⟩

theorem base (ha : Writable .primary a) : Writable .power a := by
  obtain ⟨n, hn⟩ := ha
  exact ⟨n, .base hn⟩

theorem single (level : Level) (ha : Writable (tighter level) a) : Writable (.operand level) a := by
  rw [← List.append_nil a]
  exact ha.operand lastOperand

/-- A primary is an operand of every operator. -/
theorem tighter_of_primary (ha : Writable .primary a) : ∀ level, Writable (tighter level) a
  | .product => ha.base
  | .sum => ha.base.single .product
  | .relation => (ha.base.single .product).single .sum

theorem call (f : String) (hts : Writable .expression ts) :
    Writable .primary (.name f :: parens ts) := by
  obtain ⟨v, hv⟩ := hts
  have hcall := Written.call (n := mk (.call (mk (.binder f)) (some (mk (.args [v]))))) rfl rfl rfl
    hv .lastArgument
  rw [List.append_nil] at hcall
  exact ⟨_, hcall⟩

end Writable

/-- What the first operand is does not matter for how the further ones are
    written. -/
theorem Written.operators_writable {level : Level} {left n : Node} {ts : List Token}
    (h : Written (.operators level left n) ts) : Writable (.operators level) ts := by
  generalize hphrase : Phrase.operators level left n = phrase at h
  induction h generalizing level left n with
  | lastOperand =>
    cases hphrase
    exact .lastOperand
  | nextOperand hop _ ha _ _ ih =>
    cases hphrase
    obtain ⟨sg, hsg, heq⟩ := operator?_isSome.mp (by rw [hop]; rfl)
    cases heq
    exact .nextOperand hsg (writable_tighter.mpr ⟨_, ha⟩) (ih rfl)
  | _ => cases hphrase

/-- The two parts of an operand of a level. -/
theorem Writable.exists_operators {level : Level} {ts : List Token}
    (h : Writable (.operand level) ts) :
    ∃ a us, ts = a ++ us ∧ Writable (tighter level) a ∧ Writable (.operators level) us := by
  obtain ⟨n, h⟩ := h
  cases h with
  | operand ha hus => exact ⟨_, _, rfl, writable_tighter.mpr ⟨_, ha⟩, hus.operators_writable⟩

/-! ## Operands with operators between them -/

/-- A primary and an operator in front of an expression of a level, if they may
    stand in front of its first operand. -/
theorem Writable.prepend_operand (level : Level) {sg : Sign} {a ts : List Token}
    (ha : Writable .primary a) (hsg : sg ∈ reach level) (hts : Writable (.operand level) ts)
    (htighter : sg ∈ tighterReach level → ∀ us, Writable (tighter level) us →
      Writable (tighter level) (a ++ .sign sg :: us)) :
    Writable (.operand level) (a ++ .sign sg :: ts) := by
  obtain ⟨b, us, rfl, hb, hus⟩ := hts.exists_operators
  rcases List.mem_append.mp hsg with hown | hmore
  · exact (ha.tighter_of_primary level).operand (.nextOperand hown hb hus)
  · have h := (htighter hmore b hb).operand hus
    rw [List.append_assoc] at h
    exact h

/-- A primary and an operator in front of an expression. -/
theorem Writable.prepend {sg : Sign} {a ts : List Token} (ha : Writable .primary a)
    (hsg : sg ∈ reach .relation) (hts : Writable .expression ts) :
    Writable .expression (a ++ .sign sg :: ts) := by
  refine prepend_operand .relation ha hsg hts fun hsg us hus => ?_
  refine prepend_operand .sum ha hsg hus fun hsg us hus => ?_
  refine prepend_operand .product ha hsg hus fun hsg us hus => ?_
  obtain rfl : sg = .caret := List.mem_singleton.mp hsg
  exact ha.power hus

/-- Primaries with operators between them, without regard to precedence. -/
inductive Chain : List Token → Prop
  | single {a : List Token} : Writable .primary a → Chain a
  | next {a ts : List Token} {sg : Sign} : Writable .primary a → sg ∈ reach .relation → Chain ts →
      Chain (a ++ .sign sg :: ts)

namespace Chain

theorem append {ts us : List Token} {sg : Sign} (hts : Chain ts) (hsg : sg ∈ reach .relation)
    (hus : Chain us) : Chain (ts ++ .sign sg :: us) := by
  induction hts with
  | single ha => exact .next ha hsg hus
  | next ha hsg' _ ih =>
    rw [List.append_assoc]
    exact .next ha hsg' ih

end Chain

/-- What a phrase adds to a chain. -/
def Chained (ts : List Token) : Phrase → Prop
  | .operand _ _ | .power _ | .primary _ => Chain ts
  | .operators _ _ _ => ∀ us, Chain us → Chain (us ++ ts)
  | _ => True

theorem mem_reach_relation {level : Level} {sg : Sign} (h : sg ∈ operatorSigns level) :
    sg ∈ reach .relation := by
  revert sg
  cases level <;> decide

/-- An expression is a chain. -/
theorem Written.chained {phrase : Phrase} {ts : List Token} (h : Written phrase ts) :
    Chained ts phrase := by
  have htighter : ∀ {ts level n}, Chained ts (Phrase.tighter level n) → Chain ts := by
    rintro ts (_ | _ | _) n h <;> exact h
  induction h with
  | operand _ _ iha ih => exact ih _ (htighter iha)
  | lastOperand =>
    intro us hus
    rwa [List.append_nil]
  | nextOperand hop _ _ _ iha ih =>
    obtain ⟨sg, hsg, heq⟩ := operator?_isSome.mp (by rw [hop]; rfl)
    cases heq
    intro us hus
    rw [← List.cons_append, ← List.append_assoc]
    exact ih _ (hus.append (mem_reach_relation hsg) (htighter iha))
  | base _ ih => exact ih
  | power _ _ _ ihl ihr => exact ihl.append (by decide) ihr
  | literal hn => exact .single ⟨_, .literal hn⟩
  | read hn => exact .single ⟨_, .read hn⟩
  | bareCall hn hname => exact .single ⟨_, .bareCall hn hname⟩
  | call hn hname hargs ha hts => exact .single ⟨_, .call hn hname hargs ha hts⟩
  | math hn h => exact .single ⟨_, .math hn h⟩
  | cast hn hty h => exact .single ⟨_, .cast hn hty h⟩
  | enclosed h => exact .single ⟨_, .enclosed h⟩
  | _ => trivial

/-! ## Calls across statements -/

/-- The category of an expression. -/
def Phrase.category : Phrase → Category
  | .operand level _ => .operand level
  | .power _ => .power
  | .primary _ => .primary
  | _ => .expression

theorem Phrase.category_tighter (level : Level) (n : Node) :
    (Phrase.tighter level n).category = Grammar.tighter level := by
  cases level <;> rfl

/-- A name in front of an expression that begins with a parenthesis makes a call
    of it. -/
theorem Written.name_cons {phrase : Phrase} {ts : List Token} (h : Written phrase ts)
    (hphrase : phrase.isOperand = true) (hparen : ts.head? = some (.sign .openParen)) (f : String) :
    Writable phrase.category (.name f :: ts) := by
  induction h with
  | operand ha hts iha _ =>
    obtain ⟨t, us, rfl, -⟩ := (ha.beginsOperand (Phrase.isOperand_tighter _ _)).opens
    have hcall := iha (Phrase.isOperand_tighter _ _) hparen
    rw [Phrase.category_tighter] at hcall
    exact hcall.operand hts.operators_writable
  | base _ ih => exact (ih rfl hparen).base
  | power _ hl hr ih _ =>
    obtain ⟨t, us, rfl, -⟩ := (hl.beginsOperand rfl).opens
    exact (ih rfl hparen).power ⟨_, hr⟩
  | literal hn =>
    cases hparen
    cases hn
  | enclosed h => exact .call f ⟨_, h⟩
  | read _ | bareCall _ _ | call _ _ _ _ _ _ _ | math _ _ _ | cast _ _ _ _ => cases hparen
  | _ => cases hphrase

/-- A name at the end comes after every sign. -/
theorem getLast?_of_sign {a ts : List Token} {sg : Sign} {x : String}
    (h : (a ++ .sign sg :: ts).getLast? = some (.name x)) : ts.getLast? = some (.name x) := by
  rw [List.getLast?_append_cons, List.getLast?_cons] at h
  cases hts : ts.getLast? with
  | none =>
    rw [hts] at h
    cases h
  | some t => rwa [hts] at h

/-- A primary that ends in a name is a name. -/
theorem Written.eq_name {n : Node} {x : String} {ts : List Token} (h : Written (.primary n) ts)
    (hlast : ts.getLast? = some (.name x)) : ts = [.name x] := by
  cases h with
  | literal hn =>
    cases hlast
    cases hn
  | read hn => simpa using hlast
  | _ => simp [parens, List.getLast?_cons, List.getLast?_append] at hlast

/-- A chain that ends in a name and an expression that begins with a parenthesis
    are one expression. -/
theorem Chain.join {ts us : List Token} {x : String} (hts : Chain ts)
    (hlast : ts.getLast? = some (.name x)) (hus : Writable .expression us)
    (hparen : us.head? = some (.sign .openParen)) : Writable .expression (ts ++ us) := by
  induction hts with
  | single ha =>
    obtain ⟨n, hn⟩ := ha
    obtain ⟨m, hm⟩ := hus
    rw [hn.eq_name hlast]
    exact hm.name_cons rfl hparen x
  | next ha hsg hts ih =>
    rw [List.append_assoc]
    exact ha.prepend hsg (ih (getLast?_of_sign hlast))

/-- A statement that ends in a name and an expression that begins with a
    parenthesis are one statement. -/
theorem Written.join {n : Node} {ts us : List Token} {x : String} (h : Written (.statement n) ts)
    (hlast : ts.getLast? = some (.name x)) (hus : Writable .expression us)
    (hparen : us.head? = some (.sign .openParen)) : Writable .statement (ts ++ us) := by
  generalize hphrase : Phrase.statement n = phrase at h
  induction h generalizing n with
  | assign _ _ _ ih =>
    cases hphrase
    obtain ⟨m, hm⟩ := ih (getLast?_of_sign (a := [.name _]) hlast) rfl
    exact ⟨mk (.assign (mk (.binder _)) m), .assign rfl rfl hm⟩
  | define _ _ _ ih =>
    cases hphrase
    obtain ⟨m, hm⟩ := ih (getLast?_of_sign (a := [.name _]) hlast) rfl
    exact ⟨mk (.define (mk (.binder _)) m), .define rfl rfl hm⟩
  | expression h =>
    cases hphrase
    obtain ⟨m, hm⟩ := h.chained.join hlast hus hparen
    exact ⟨m, .expression hm⟩
  | comment | scope | print | branch | whileLoop | forLoop | procedure | function | declare =>
    simp [parens, braces, typed, List.getLast?_cons, List.getLast?_append] at hlast
  | _ => cases hphrase

/-- A statement that begins with a parenthesis is an expression. -/
theorem Written.expression_of_paren {n : Node} {ts : List Token} (h : Written (.statement n) ts)
    (hparen : ts.head? = some (.sign .openParen)) : Writable .expression ts := by
  cases h with
  | expression h => exact ⟨_, h⟩
  | _ => cases hparen

/-- A statement in front of a block; the first statement of the block becomes part
    of it if the two could be read as a call. -/
theorem Writable.next {a ts : List Token} (ha : Writable .statement a) (hts : Writable .block ts) :
    Writable .block (a ++ ts) := by
  obtain ⟨n, hn⟩ := ha
  obtain ⟨ns, hns⟩ := hts
  by_cases hapart : Apart a ts
  · exact ⟨n :: ns, .next hn hns hapart⟩
  simp only [Apart, not_forall, not_not] at hapart
  obtain ⟨x, hlast, hparen⟩ := hapart
  cases hns with
  | done => cases hparen
  | separator _ => cases hparen
  | @next m ns s ts hm hts hapart =>
    obtain ⟨t, us, rfl, -⟩ := hm.opens
    obtain ⟨k, hk⟩ := hn.join hlast (hm.expression_of_paren hparen) hparen
    refine ⟨k :: ns, ?_⟩
    rw [← List.append_assoc]
    refine .next hk hts fun y hy => hapart y ?_
    rw [List.getLast?_append, List.getLast?_cons] at hy
    rw [List.getLast?_cons]
    exact hy

/-- **Every derivable list of tokens is written for a tree.** -/
theorem Derives.writable {c : Category} {ts : List Token} (h : Derives c ts) : Writable c ts := by
  induction h with
  | done => exact ⟨[], .done⟩
  | separator _ ih =>
    obtain ⟨ns, hns⟩ := ih
    exact ⟨ns, .separator hns⟩
  | next _ _ ihs ih => exact ihs.next ih
  | scope _ ih =>
    obtain ⟨ns, hns⟩ := ih
    exact ⟨mk (.scope (mk (.block ns))), .scope rfl rfl hns⟩
  | comment text => exact ⟨mk (.comment text), .comment rfl⟩
  | print _ ih =>
    obtain ⟨v, hv⟩ := ih
    exact ⟨mk (.print v), .print rfl hv⟩
  | branch _ _ ihg ihb =>
    obtain ⟨g, hg⟩ := ihg
    obtain ⟨ns, hns⟩ := ihb
    exact ⟨mk (.branch g (mk (.block ns))), .branch rfl rfl hg hns⟩
  | whileLoop _ _ ihg ihb =>
    obtain ⟨g, hg⟩ := ihg
    obtain ⟨ns, hns⟩ := ihb
    exact ⟨mk (.whileLoop g (mk (.block ns))), .whileLoop rfl rfl hg hns⟩
  | forLoop _ _ _ _ iha ihg ihc ihb =>
    obtain ⟨a, ha⟩ := iha
    obtain ⟨g, hg⟩ := ihg
    obtain ⟨c, hc⟩ := ihc
    obtain ⟨ns, hns⟩ := ihb
    exact ⟨mk (.forLoop a g c (mk (.block ns))), .forLoop rfl rfl ha hg hc hns⟩
  | function f _ _ ihp ihb =>
    obtain ⟨ns, hns⟩ := ihb
    rcases ihp with rfl | ⟨x, ty, us, pairs, rfl, hpairs⟩
    · exact ⟨mk (.function (mk (.binder f)) none (mk (.block ns))), .procedure rfl rfl rfl hns⟩
    · exact ⟨mk (.function (mk (.binder f)) (some (mk (.params ((mk (.binder x), mk (.ty ty)) ::
        pairs)))) (mk (.block ns))), .function rfl rfl rfl rfl rfl rfl hpairs hns⟩
  | assign x _ ih =>
    obtain ⟨v, hv⟩ := ih
    exact ⟨mk (.assign (mk (.binder x)) v), .assign rfl rfl hv⟩
  | define x _ ih =>
    obtain ⟨v, hv⟩ := ih
    exact ⟨mk (.define (mk (.binder x)) v), .define rfl rfl hv⟩
  | declare x ty => exact ⟨mk (.declare (mk (.binder x)) (mk (.ty ty))), .declare rfl rfl rfl⟩
  | expression _ ih =>
    obtain ⟨n, hn⟩ := ih
    exact ⟨n, .expression hn⟩
  | noParameters => exact .inl rfl
  | parameters x ty _ ih =>
    obtain ⟨pairs, hpairs⟩ := ih
    exact .inr ⟨x, ty, _, pairs, rfl, hpairs⟩
  | lastParameter => exact ⟨[], .lastParameter⟩
  | nextParameter x ty _ ih =>
    obtain ⟨pairs, hpairs⟩ := ih
    exact ⟨(mk (.binder x), mk (.ty ty)) :: pairs, .nextParameter rfl rfl hpairs⟩
  | operand _ _ iha ih => exact iha.operand ih
  | lastOperand => exact .lastOperand
  | nextOperand hsg _ _ iha ih => exact .nextOperand hsg iha ih
  | base _ ih => exact ih.base
  | power _ _ ihl ihr => exact ihl.power ihr
  | int n => exact ⟨mk (.int n), .literal rfl⟩
  | float x => exact ⟨mk (.float x), .literal rfl⟩
  | str s => exact ⟨mk (.str s), .literal rfl⟩
  | bool b => exact ⟨mk (.bool b), .literal rfl⟩
  | pi => exact ⟨mk .pi, .literal rfl⟩
  | read x => exact ⟨mk (.read x), .read rfl⟩
  | call f _ ih =>
    rcases ih with rfl | ⟨v, values, a, us, rfl, hv, hvalues⟩
    · exact ⟨mk (.call (mk (.binder f)) none), .bareCall rfl rfl⟩
    · exact ⟨mk (.call (mk (.binder f)) (some (mk (.args (v :: values))))),
        .call rfl rfl rfl hv hvalues⟩
  | math fn _ ih =>
    obtain ⟨m, hm⟩ := ih
    exact ⟨mk (.math fn m), .math rfl hm⟩
  | cast ty _ ih =>
    obtain ⟨v, hv⟩ := ih
    exact ⟨mk (.cast v (mk (.ty ty))), .cast rfl rfl hv⟩
  | enclosed _ ih =>
    obtain ⟨n, hn⟩ := ih
    exact ⟨n, .enclosed hn⟩
  | noArguments => exact .inl rfl
  | arguments _ _ iha ih =>
    obtain ⟨v, hv⟩ := iha
    obtain ⟨values, hvalues⟩ := ih
    exact .inr ⟨v, values, _, _, rfl, hv, hvalues⟩
  | lastArgument => exact ⟨[], .lastArgument⟩
  | nextArgument _ _ iha ih =>
    obtain ⟨v, hv⟩ := iha
    obtain ⟨values, hvalues⟩ := ih
    exact ⟨v :: values, .nextArgument hv hvalues⟩

end Grammar

/-- **The parser accepts exactly the grammar**: it finds no error in a list of
    tokens if and only if the list is derivable. -/
theorem parse_errors_eq_nil_iff (tokens : List Lexed) (firstId : Nat) :
    (parse tokens firstId).errors = [] ↔ Grammar.Derives .block (tokens.map Lexed.token) := by
  refine ⟨derives_of_parse, fun h => ?_⟩
  obtain ⟨ns, hns⟩ := h.writable
  have hread := Parser.parse_of_written
    (p := Grammar.mk (.program (Grammar.mk (.block ns)))) firstId
    rfl rfl hns
  exact hread.1

end Scriptlet
