import Scriptlet.Proofs.Faithful
import Scriptlet.Proofs.Lines
import Scriptlet.Proofs.Output

/-!
# Simplification of integer programs

A tree without float literals whose operators are `+`, `-` and `*` has laws only:
where an operator between a variable and an integer literal succeeds, the variable
holds an integer, and the identity gives what the operator gives. So the
simplified tree follows every clean run, also where functions were registered with
simplified bodies before.

One thing more is needed. A node in the place of a name may be an operator, which
stands for no name; if an identity makes a variable of it, it stands for one.

Results:
* `Integral.isExact`: simplification is exact at the values of a clean run.
* `evaluates_simplify_of_integral`: the simplified tree follows every clean run.
* `not_evaluates_simplify_of_integral`: the target of an assignment that comes to
  stand for a name.
-/

namespace Scriptlet

open Eval Optimize

namespace Optimize

/-! ## Integral trees -/

/-- Whether a node is no float literal, and no operator but `+`, `-` and `*`. -/
def isIntegral (n : Node) : Bool :=
  match n.form with
  | .float _ => false
  | .arith op _ _ => op == .add || op == .sub || op == .mul
  | _ => true

/-- A tree without float literals whose operators are `+`, `-` and `*`. -/
def Integral (n : Node) : Prop := n.All fun m => isIntegral m

/-- Whether the nodes in the place of a name stand for the same names when they are
    simplified. -/
def keepsNames (n : Node) : Bool :=
  n.form.names.all fun m => (simplified m).name? == m.name?

/-- A tree in which simplification keeps the names where names belong. -/
def NamesKept (n : Node) : Prop := n.All fun m => keepsNames m

theorem operator_of_isIntegral {id line : Nat} {op : Arith} {left right : Node}
    (h : isIntegral ⟨id, line, .arith op left right⟩ = true) :
    op = .add ∨ op = .sub ∨ op = .mul := by
  simpa [isIntegral, or_assoc] using h

/-- Sums, differences and products of integers are integers. -/
theorem int_of_applyInt {op : Arith} {i j : Int64} {v : Value}
    (hop : op = .add ∨ op = .sub ∨ op = .mul) (hv : Value.applyInt op i j = .ok v) :
    ∃ k, v = .int k := by
  rcases hop with rfl | rfl | rfl
  · obtain ⟨k, -, rfl⟩ := inWord_eq_ok.mp hv
    exact ⟨k, rfl⟩
  · obtain ⟨k, -, rfl⟩ := inWord_eq_ok.mp hv
    exact ⟨k, rfl⟩
  · obtain ⟨k, -, rfl⟩ := inWord_eq_ok.mp hv
    exact ⟨k, rfl⟩

/-- What an identity for a sum, a difference or a product makes is a literal only
    if it is the literal itself. -/
theorem literalValue?_applyIdentity {op : Arith} {left right : Node} {m : Match} {v : Value}
    {line k : Nat} (hop : op = .add ∨ op = .sub ∨ op = .mul) (hm : match? op left right = some m)
    (hv : literalValue? ((applyIdentity line m).run k).1 = some v) :
    literalValue? m.literal = some v := by
  obtain ⟨hread, -, hside⟩ := match?_eq_some hm
  obtain ⟨identity, operand, literal⟩ := m
  cases identity with
  | operand =>
    obtain ⟨x, hx⟩ : ∃ x, operand.form = .read x := isRead_iff.mp hread
    have hv : literalValue? operand = some v := hv
    simp [literalValue?, hx] at hv
  | literal => exact hv
  | one =>
    -- only a power becomes one
    rcases hside with ⟨-, -, -, hidentity⟩ | ⟨-, -, -, hidentity⟩
    · cases leftIdentity_of_eq_some hidentity
    · have hpow : op ≠ .pow := by rcases hop with rfl | rfl | rfl <;> simp
      cases rightIdentity_of_eq_some hidentity hpow with
      | mirrored h => cases h
  | double => cases hv
  | square => cases hv
  | halve => cases hv

/-- **No float literal is made.** -/
theorem Integral.int_of_literal {n n' : Node} {v : Value} (h : Integral n) (hn : Rewritten n n')
    (hv : literalValue? n' = some v) : ∃ i, v = .int i := by
  induction n using Node.induction generalizing n' v with
  | h n ih =>
  have hroot := h.root
  obtain ⟨id, line, form⟩ := n
  cases form with
  | arith op left right =>
    have hop := operator_of_isIntegral hroot
    obtain ⟨left', right', k, hleft, hright, rfl⟩ := hn.arith
    have hl : ∀ {v}, literalValue? left' = some v → ∃ i, v = .int i := fun hv =>
      ih left (by simp [Node.children, Form.children])
        (h.child (by simp [Node.children, Form.children])) hleft hv
    have hr : ∀ {v}, literalValue? right' = some v → ∃ i, v = .int i := fun hv =>
      ih right (by simp [Node.children, Form.children])
        (h.child (by simp [Node.children, Form.children])) hright hv
    unfold simplifyArith at hv
    split at hv
    · next form hfold =>
      obtain ⟨a, b, w, ha, hb, hw, hform⟩ := literalValue?_of_foldLiterals? hfold k line
      obtain ⟨i, rfl⟩ := hl ha
      obtain ⟨j, rfl⟩ := hr hb
      obtain rfl : w = v := Option.some.inj (hform.symm.trans hv)
      exact int_of_applyInt hop hw
    · split at hv
      · next m hm =>
        have hliteral := literalValue?_applyIdentity hop hm hv
        obtain ⟨-, -, ⟨-, -, hside, -⟩ | ⟨-, -, hside, -⟩⟩ := match?_eq_some hm
        · exact hl (hside ▸ hliteral)
        · exact hr (hside ▸ hliteral)
      · cases hv
  | int i =>
    obtain ⟨k, rfl⟩ := hn
    cases hv
    exact ⟨i, rfl⟩
  | float x => cases hroot
  | _ =>
    obtain ⟨k, rfl⟩ := hn
    cases hv

/-- **Simplification is exact** at the values of an operator that succeeds, where
    operands that become literals have their values. -/
theorem Integral.isExact {id line : Nat} {op : Arith} {left left' right right' : Node}
    {a b v : Value} (h : Integral ⟨id, line, .arith op left right⟩)
    (hleft : Rewritten left left') (hright : Rewritten right right')
    (ha : ∀ l, literalValue? left' = some l → a = l)
    (hb : ∀ l, literalValue? right' = some l → b = l) (hv : Value.apply op a b = .ok v) :
    isExact op left right a b = true := by
  have hop := operator_of_isIntegral h.root
  have hlaw : ∀ (identity : Identity) i, identity.isLaw op (.int i) = true := by
    intro identity i
    rcases hop with rfl | rfl | rfl <;> rfl
  cases hm : match? op left' right' with
  | none => exact isExact_of_match?_eq_none hleft hright hm a b
  | some m =>
    obtain ⟨-, hnumber, hside⟩ := match?_eq_some hm
    obtain ⟨l, hl⟩ := exists_literalValue? hnumber
    rw [isExact_eq hleft hright hm hv]
    rcases hside with ⟨hnum, -, hliteral, -⟩ | ⟨hnum, -, hliteral, -⟩
    · rw [hliteral] at hl
      obtain ⟨i, rfl⟩ := int_of_literal (h.child (by simp [Node.children, Form.children])) hleft hl
      rw [if_pos hnum, ha _ hl, Identity.gives, hlaw, Bool.true_or]
    · rw [hliteral] at hl
      obtain ⟨i, rfl⟩ := int_of_literal (h.child (by simp [Node.children, Form.children])) hright hl
      rw [hnum, if_neg Bool.false_ne_true, hb _ hl, Identity.gives, hlaw, Bool.true_or]

end Optimize

/-! ## Clean runs -/

/-- An integral tree with its names kept, beside its simplification. -/
def Whole (n n' : Node) : Prop := (Integral n ∧ NamesKept n) ∧ Rewritten n n'

theorem recognizes_whole : Node.Recognizes Whole :=
  recognizes_rewritten fun _ hn _ hm => ⟨hn.1.child hm, hn.2.child hm⟩

theorem Whole.child {n n' m m' : Node} (h : Whole n n') (hm : m ∈ n.children)
    (hrewritten : Rewritten m m') : Whole m m' :=
  ⟨⟨h.1.1.child hm, h.1.2.child hm⟩, hrewritten⟩

/-- **The simplified tree mirrors every clean run** of an integral tree. -/
theorem mirrors_whole (bound : Nat) : ∀ n n', Whole n n' →
    Mirrors.Follow Whole (eval bound n) (eval bound n') := by
  induction bound with
  | zero =>
    intro n n' _ c d a c' _ hrun _
    cases hrun
  | succ bound ih =>
    intro n n' h
    have hev : ∀ n, Relates Context.Evolves (eval bound n) := fun n c _ _ => evolves_of_eval
    by_cases harith : ∃ op l r, n.form = .arith op l r
    · obtain ⟨op, left, right, hform⟩ := harith
      obtain ⟨id, line, form⟩ := n
      obtain rfl : form = .arith op left right := hform
      obtain ⟨left', right', k, hleft, hright, rfl⟩ := h.2.arith
      have hl := h.child (by simp [Node.children, Form.children]) hleft
      have hr := h.child (by simp [Node.children, Form.children]) hright
      refine mirrors_simplifyArith hev hleft hright (ih _ _ hl) (ih _ _ hr)
        (fun a b => lasting_evolves.settle line (Value.apply op a b)) ?_
      intro a b c r c' ha hb hrun hquiet
      obtain ⟨v, rfl, rfl, hv⟩ := settle_of_quiet hrun hquiet
      exact ⟨v, rfl, rfl, hv, h.1.1.isExact hleft hright ha hb hv⟩
    · refine Mirrors.step recognizes_whole hev ih ?_
      have hnames : ∀ m ∈ n.form.names, (simplified m).name? = m.name? := by
        simpa [keepsNames] using h.1.2.root
      refine (h.2.corresponds (fun op l r hform => harith ⟨op, l, r, hform⟩) hnames).mono ?_
      exact fun m m' hm => h.child hm.1 hm.2

/-- The simplification of an integral tree with its names kept, up to ids. -/
def Simplifies (n n' : Node) : Prop := ∃ m, Whole n m ∧ m.Matches Eq n'

/-- Functions with simplified bodies up to ids, in two steps. -/
theorem exists_between {fs gs : FunctionTable}
    (h : FunctionTable.Rel (Definition.Tied Simplifies) fs gs) :
    ∃ hs, FunctionTable.Rel (Definition.Tied Whole) fs hs ∧
      FunctionTable.Rel (Definition.Tied (Node.Matches Eq)) hs gs := by
  induction h with
  | nil => exact ⟨[], .nil, .nil⟩
  | @cons f g fs gs hfg _ ih =>
    obtain ⟨hkey, hname, hparams, m, hwhole, hmatches⟩ := hfg
    obtain ⟨hs, hfs, hgs⟩ := ih
    exact ⟨⟨⟨f.name, f.params, m⟩, f.key⟩ :: hs, .cons ⟨rfl, rfl, rfl, hwhole⟩ hfs,
      .cons ⟨hkey, hname, hparams, hmatches⟩ hgs⟩

theorem tied_of_between {fs gs hs : FunctionTable}
    (h : FunctionTable.Rel (Definition.Tied Whole) fs hs)
    (h' : FunctionTable.Rel (Definition.Tied (Node.Matches Eq)) hs gs) :
    FunctionTable.Rel (Definition.Tied Simplifies) fs gs := by
  induction h generalizing gs with
  | nil =>
    cases h'
    exact .nil
  | cons hfh _ ih =>
    cases h' with
    | cons hhg h' =>
      refine .cons ⟨hhg.1.trans hfh.1, hhg.2.name_eq.trans hfh.2.name_eq,
        hhg.2.params_eq.trans hfh.2.params_eq, ?_⟩ (ih h')
      exact ⟨_, hfh.2.body, hhg.2.body⟩

/-- **Simplification of integers is a simulation between contexts.** Let two
    contexts differ in the bodies of functions only, which on one side are simplified
    up to ids. If an integral tree with its names kept ends in the first one without
    a report, then its simplification ends in the second one without a report, with
    the same value, output and scopes, and the contexts again differ in that way
    only. -/
theorem evaluates_simplify_of_integral {n : Node} (hint : Integral n) (hnames : NamesKept n)
    {c c' d : Context} {value : Option Value} (hc : c.Tied Simplifies c')
    (hrun : Evaluates n c value d) (hclean : d.diagnostics = c.diagnostics) (free : Nat) :
    ∃ d', Evaluates ((simplify n).run free).1 c' value d' ∧ d'.diagnostics = c'.diagnostics ∧
      d'.output = d.output ∧ d'.scopes = d.scopes ∧ d.Tied Simplifies d' := by
  obtain ⟨bound, hrun⟩ := hrun
  obtain ⟨hs, hwhole, hmatches⟩ := exists_between hc.functions
  have hlink : Linked Eq (FunctionTable.Rel (Definition.Tied Whole)) c { c' with functions := hs } :=
    { hc with scopes := hc.scopes_eq.symm, functions := hwhole }
  have hquiet : Quiet c d := by
    unfold Quiet
    rw [hclean]
  obtain ⟨_, e, he, rfl, hlink'⟩ := mirrors_whole bound n ((simplify n).run free).1
    ⟨⟨hint, hnames⟩, free, rfl⟩ c _ value d hlink hrun hquiet
  have htied : Context.Tied (Node.Matches Eq) { c' with functions := hs } c' :=
    ⟨rfl, hmatches, rfl, rfl, rfl, rfl, rfl, rfl⟩
  obtain ⟨d', hd', htied'⟩ := couples_eval (coupling_tied _) (reports_matches Eq)
    (fun _ _ h => h.corresponds) bound _ _ (.refl ((simplify n).run free).1 fun _ _ => rfl)
    _ c' value e htied he
  have hscopes : d'.scopes = d.scopes := htied'.scopes_eq.trans hlink'.scopes.symm
  have hreports : d'.diagnostics = d.diagnostics :=
    htied'.diagnostics_eq.trans hlink'.diagnostics_eq
  have houtput : d'.output = d.output := htied'.output_eq.trans hlink'.output_eq
  refine ⟨d', ⟨bound, hd'⟩, ?_, houtput, hscopes, ?_⟩
  · rw [hreports, hclean, hc.diagnostics_eq]
  · exact {
      scopes_eq := hscopes
      functions := tied_of_between hlink'.functions htied'.functions
      maxCallDepth_eq := htied'.maxCallDepth_eq.trans hlink'.maxCallDepth_eq
      callDepth_eq := htied'.callDepth_eq.trans hlink'.callDepth_eq
      diagnostics_eq := hreports
      echo_eq := by rw [echo_of_eval hd', echo_of_eval hrun, hc.echo_eq]
      writer_eq := htied'.writer_eq.trans hlink'.writer_eq
      output_eq := houtput }

/-- A function that doubles its argument, and the same function simplified under
    other ids. The tree prints `0 + x` and calls it with `x * 1`. -/
theorem evaluates_simplify_of_integral_call :
    let double : Node := ⟨0, 1, .arith .mul ⟨1, 1, .read "y"⟩ ⟨2, 1, .int 2⟩⟩
    let double' : Node := ⟨90, 1, .arith .add ⟨91, 1, .read "y"⟩ ⟨92, 1, .read "y"⟩⟩
    let c : Context :=
      { Context.initial 128 false true with
        scopes := ⟨[], [("x", ⟨.int, some (.int 3)⟩)]⟩
        functions := [⟨⟨"f", [("y", .int)], double⟩, "f"⟩] }
    let c' : Context := { c with functions := [⟨⟨"f", [("y", .int)], double'⟩, "f"⟩] }
    let n : Node := ⟨11, 2, .block
      [⟨6, 2, .print ⟨5, 2, .arith .add ⟨3, 2, .int 0⟩ ⟨4, 2, .read "x"⟩⟩⟩,
        ⟨10, 2, .call ⟨7, 2, .binder "f"⟩ (some ⟨9, 2, .args
          [⟨8, 2, .arith .mul ⟨12, 2, .read "x"⟩ ⟨13, 2, .int 1⟩⟩]⟩)⟩]⟩
    c.Tied Simplifies c' ∧ ∃ d d', Evaluates n c (some (.int 6)) d ∧
      Evaluates ((simplify n).run 40).1 c' (some (.int 6)) d' ∧ d'.diagnostics = #[] ∧
      d'.output = #[.printed "3"] ∧ d'.scopes = d.scopes ∧ d.Tied Simplifies d' := by
  intro double double' c c' n
  have hmatches : ((simplify double).run 0).1.Matches Eq double' :=
    .operator (.inr ⟨.add, rfl⟩) rfl rfl rfl (.leaf rfl rfl) (.leaf rfl rfl)
  have hfunctions : Definition.Tied Simplifies ⟨"f", [("y", .int)], double⟩
      ⟨"f", [("y", .int)], double'⟩ := by
    refine ⟨rfl, rfl, _, ⟨⟨?_, ?_⟩, 0, rfl⟩, hmatches⟩
    · unfold Integral
      decide +kernel
    · unfold NamesKept
      decide +kernel
  have hc : c.Tied Simplifies c' :=
    ⟨rfl, .cons ⟨rfl, hfunctions⟩ .nil, rfl, rfl, rfl, rfl, rfl, rfl⟩
  have hint : Integral n := by
    unfold Integral
    decide +kernel
  have hnames : NamesKept n := by
    unfold NamesKept
    decide +kernel
  have hends : ((eval 6 n).run c).map
      (fun ended => (ended.1, ended.2.diagnostics, ended.2.output)) =
        some (some (.int 6), #[], #[.printed "3"]) := by decide +kernel
  obtain ⟨⟨value, d⟩, hrun, hends⟩ := Option.map_eq_some_iff.mp hends
  simp only [Prod.mk.injEq] at hends
  obtain ⟨rfl, hreports, hwritten⟩ := hends
  obtain ⟨d', hrun', hreports', houtput, hscopes, htied⟩ :=
    evaluates_simplify_of_integral hint hnames hc ⟨6, hrun⟩ hreports 40
  exact ⟨hc, d, d', ⟨6, hrun⟩, hrun', hreports', houtput.trans hwritten, hscopes, htied⟩

/-- **Simplification can make a name**: `x + 0` in the place of a target becomes the
    variable `x`, and the assignment, which did nothing, gives it another value. -/
theorem not_evaluates_simplify_of_integral :
    let n : Node := ⟨10, 1, .block
      [⟨2, 1, .define ⟨0, 1, .binder "x"⟩ ⟨1, 1, .int 1⟩⟩,
        ⟨7, 1, .assign ⟨5, 1, .arith .add ⟨3, 1, .read "x"⟩ ⟨4, 1, .int 0⟩⟩ ⟨6, 1, .int 5⟩⟩,
        ⟨8, 1, .read "x"⟩]⟩
    let c := Context.initial 128 false true
    Integral n ∧ ∃ value d, Evaluates n c value d ∧ d.diagnostics = c.diagnostics ∧
      ¬ ∃ d', Evaluates ((simplify n).run 11).1 c value d' := by
  intro n c
  have hint : Integral n := by
    unfold Integral
    decide +kernel
  have hends : ((eval 4 n).run c).map (fun ended => (ended.1, ended.2.diagnostics)) =
      some (some (.int 1), #[]) := by decide +kernel
  have hchanged : ((eval 4 ((simplify n).run 11).1).run c).map Prod.fst =
      some (some (.int 5)) := by decide +kernel
  obtain ⟨⟨value, d⟩, hrun, hends⟩ := Option.map_eq_some_iff.mp hends
  obtain ⟨⟨value', e⟩, hrun', rfl⟩ := Option.map_eq_some_iff.mp hchanged
  simp only [Prod.mk.injEq] at hends
  refine ⟨hint, value, d, ⟨4, hrun⟩, hends.2, fun ⟨d', hd'⟩ => ?_⟩
  obtain ⟨hsame, -⟩ := Evaluates.unique hd' ⟨4, hrun'⟩
  rw [hends.1] at hsame
  simp at hsame

end Scriptlet
