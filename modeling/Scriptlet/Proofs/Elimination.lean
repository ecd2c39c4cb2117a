import Scriptlet.Proofs.Bound
import Scriptlet.Proofs.OptimizedShape
import Scriptlet.Proofs.Sweeping
import Scriptlet.Token.Lexeme

/-!
# Clean runs without dead code

Dropping dead code does not change a clean run, if every sweep on the way is
tidy. Not every sweep is: a declaration may be dropped although an assignment
that stays needs it, an assignment to a global variable may be dropped because
the block declares a variable of that name further down, and a comment at the
end of a block may hide the statement that decides its value.

Results:
* `evaluates_sweepProgram_globals`, `evaluates_sweepProgram`: a clean run after one
  tidy sweep, with and without its variables.
* `evaluates_eliminate`: a clean run after tidy sweeps, for parsed and for
  rewritten trees.
* `not_evaluates_eliminate`: a parsed program with a clean run that is not clean
  without its dead code.
-/

namespace Scriptlet

open Eval

namespace Optimize

/-! ## One sweep -/

section Program

variable {id line bodyId bodyLine : Nat} {statements : List Node}

/-- The outermost block of a program. -/
def outermost (p : Node) (statements : List Node) : Site :=
  ⟨p.usedEverywhere, [], [], [], true, statements⟩

/-- What is fixed while the sweep over a program is followed. -/
def settingOf (p : Node) (statements : List Node) : Setting where
  everywhere := p.usedEverywhere
  stale := (sitesOf p).flatMap Site.stale
  globals := (outermost p statements).level ((sitesOf p).flatMap Site.stale)

/-- A tidy sweep visits the outermost block first. -/
theorem visits_outermost {p : Node}
    (hp : p = ⟨id, line, .program ⟨bodyId, bodyLine, .block statements⟩⟩)
    (hshaped : Node.Shaped ⟨bodyId, bodyLine, .block statements⟩) (htidy : Tidy p) :
    (settingOf p statements).Visits [] (outermost p statements) := by
  have hsites : sitesOf p = outermost p statements ::
      sitesAll p.usedEverywhere (outermost p statements).live true false statements := by
    rw [hp]
    rfl
  have hfine : ∀ s ∈ sitesOf p, (settingOf p statements).Fine s := fun s hs =>
    ⟨htidy.sites s hs, fun x hx => List.mem_flatMap.mpr ⟨s, hs, hx⟩⟩
  have hblock : ⟨bodyId, bodyLine, .block statements⟩ ∈ p.children := by
    rw [hp]
    exact .head _
  have hswept : ⟨bodyId, bodyLine, .block (outermost p statements).left⟩ ∈
      (sweepProgram p).children := by
    rw [hp]
    exact .head _
  refine ⟨rfl, rfl, fun n hn => ⟨hshaped.child hn, fun x hx l hl => ?_, ?_⟩,
    fun m hm x hx hlost => ?_, fun x hx hlive => ?_, hfine _ (by simp [hsites]),
    fun t ht => hfine t ?_⟩
  · rw [List.mem_singleton.mp hl]
    exact Site.carries_level (Site.mem_near_of_used (.inr hn) (Node.reads_subset_used n hx))
  · exact List.Subset.trans
      (Node.usedEverywhere_subset (n := ⟨bodyId, bodyLine, .block statements⟩) hn)
      (Node.usedEverywhere_subset hblock)
  · refine htidy.globals (outermost p statements) (by simp [hsites]) x hlost ?_
    exact Node.assignedAnywhere_subset hswept (Node.assignedAnywhere_subset hm hx)
  · rcases hlive with hlive | hlive
    · exact List.mem_append_right _ hlive
    · exact absurd hx hlive
  · rw [hsites]
    exact List.mem_cons_of_mem _ ht

end Program

/-- **A tidy sweep does not change a clean run**, down to the variables: the swept
    program ends with the same value and the same output, and reports nothing.
    Names that it still binds have the type they had, and the value too, unless
    an assignment to the name was dropped. -/
theorem evaluates_sweepProgram_globals {p : Node} (hp : p.IsProgram) (htidy : Tidy p)
    {maxCallDepth : Nat} {echo writable : Bool} {value : Option Value} {c : Context}
    (hrun : Evaluates p (.initial maxCallDepth echo writable) value c)
    (hclean : c.diagnostics = #[]) :
    ∃ c', Evaluates (sweepProgram p) (.initial maxCallDepth echo writable) value c' ∧
      c'.output = c.output ∧ c'.diagnostics = #[] ∧
      ∀ x v, c'.scopes.globals.find? x = some v → ∃ u, c.scopes.globals.find? x = some u ∧
        u.ty = v.ty ∧ (x ∉ (sitesOf p).flatMap Site.stale → u.value = v.value) := by
  obtain ⟨body, hform, hbody⟩ := hp
  obtain ⟨bodyId, bodyLine, statements, rfl⟩ := Setting.exists_block hbody.kind
  obtain ⟨id, line, form⟩ := p
  obtain rfl : form = .program ⟨bodyId, bodyLine, .block statements⟩ := hform
  obtain ⟨bound, hrun⟩ := hrun
  cases bound with
  | zero => cases hrun
  | succ bound =>
    have hvisits := visits_outermost rfl hbody.shaped htidy
    generalize hw : settingOf _ statements = w at hvisits
    have hopen : w.Open [] := by
      intro l hl x hx
      rw [List.mem_singleton.mp hl, ← hw]
      exact Site.carries_level (Site.mem_near_of_everywhere (hvisits.everywhere_eq ▸ hx))
    have hlink : Linked (Related w.globals []) w.Functions
        (.initial maxCallDepth echo writable) (.initial maxCallDepth echo writable) :=
      ⟨.initial _, .nil w, rfl, rfl, rfl, rfl, rfl⟩
    have hquiet : Quiet (.initial maxCallDepth echo writable) c := by
      rw [Quiet, hclean]
      exact Nat.zero_le _
    obtain ⟨b, c', hrun', hagree, hlink'⟩ := (w.follows bound).block [] _ bodyId bodyLine hopen
      hvisits _ _ value c hlink hrun hquiet
    obtain rfl : value = b := hagree rfl
    refine ⟨c', ⟨bound + 1, hrun'⟩, hlink'.output_eq, hlink'.diagnostics_eq.trans hclean,
      fun x v hv => ?_⟩
    obtain ⟨u, hu, hty, hvalue⟩ := hlink'.scopes.globals.back x v hv
    refine ⟨u, hu, hty, fun hstale => hvalue ?_⟩
    rw [← hw]
    exact .inr hstale

/-- **A tidy sweep does not change a clean run**: the swept program ends with the
    same value and the same output, and reports nothing. -/
theorem evaluates_sweepProgram {p : Node} (hp : p.IsProgram) (htidy : Tidy p)
    {maxCallDepth : Nat} {echo writable : Bool} {value : Option Value} {c : Context}
    (hrun : Evaluates p (.initial maxCallDepth echo writable) value c)
    (hclean : c.diagnostics = #[]) :
    ∃ c', Evaluates (sweepProgram p) (.initial maxCallDepth echo writable) value c' ∧
      c'.output = c.output ∧ c'.diagnostics = #[] := by
  obtain ⟨c', hrun', houtput, hclean', -⟩ := evaluates_sweepProgram_globals hp htidy hrun hclean
  exact ⟨c', hrun', houtput, hclean'⟩

/-! ## All sweeps -/

/-- A sweep that does not make the tree smaller changes nothing. -/
theorem sweepProgram_eq_self {p : Node} (h : ¬ (sweepProgram p).size < p.size) :
    sweepProgram p = p :=
  (sweep_eq_or_size_lt p.usedEverywhere [] none true p).resolve_right h

theorem eliminate_sweepProgram (p : Node) : eliminate (sweepProgram p) = eliminate p := by
  rcases sweep_eq_or_size_lt p.usedEverywhere [] none true p with hsame | hless
  · exact congrArg eliminate hsame
  · conv_rhs => rw [eliminate]
    exact (if_pos hless).symm

end Optimize

open Optimize

/-- **Dropping dead code by tidy sweeps does not change a clean run.** If a parsed
    program, or its rewritten form, ends and reports nothing, then without its
    dead code it ends with the same value and the same output, and reports
    nothing. -/
theorem evaluates_eliminate (tokens : List Lexed) (firstId free : Nat) {p : Node}
    (hp : p = (parse tokens firstId).tree ∨
      p = ((simplify (parse tokens firstId).tree).run free).1)
    (htidy : TidySweeps p) {maxCallDepth : Nat} {echo writable : Bool} {value : Option Value}
    {c : Context} (hrun : Evaluates p (.initial maxCallDepth echo writable) value c)
    (hclean : c.diagnostics = #[]) :
    ∃ c', Evaluates (eliminate p) (.initial maxCallDepth echo writable) value c' ∧
      c'.output = c.output ∧ c'.diagnostics = #[] := by
  have hprogram : p.IsProgram := by
    rcases hp with rfl | rfl
    · exact isProgram_parse tokens firstId
    · exact isProgram_simplify (isProgram_parse tokens firstId) free
  clear hp
  induction htidy generalizing c with
  | @done p hsame =>
    rw [eliminate_of_fixed hsame]
    exact ⟨c, hrun, rfl, hclean⟩
  | @step p h hnext ih =>
    obtain ⟨c₁, hrun₁, houtput, hclean₁⟩ := evaluates_sweepProgram hprogram h hrun hclean
    rw [← eliminate_sweepProgram, ← houtput]
    exact ih hrun₁ hclean₁ (isProgram_sweepProgram hprogram)

/-- A loop that calls a function, with a variable that shadows another and is never
    read, and a variable that is read only for another one without use, so that
    it takes two sweeps. -/
theorem evaluates_eliminate_of_loop :
    let source := "t := 1; function f(x: int) = { u := x; v := u; x + 1 }; i := 0; " ++
      "while (i < 2) { { t := 5; t = 6 }; i = f(i) }; print(t); i"
    let p := (parse (tokenize source).1 0).tree
    TidySweeps p ∧ (sweepProgram (sweepProgram p)).size < (sweepProgram p).size ∧
      ∃ c c', Evaluates p (.initial 8 false true) (some (.int 2)) c ∧ c.diagnostics = #[] ∧
        c.output = #[.printed "1"] ∧
        Evaluates (eliminate p) (.initial 8 false true) (some (.int 2)) c' ∧
        c'.output = c.output ∧ c'.diagnostics = #[] := by
  intro source p
  have hcheck : (isTidy p && isTidy (sweepProgram p)) = true ∧
      (sweepProgram (sweepProgram p)).size < (sweepProgram p).size ∧
      ¬ (sweepProgram (sweepProgram (sweepProgram p))).size <
        (sweepProgram (sweepProgram p)).size ∧
      ((eval 12 p).run (.initial 8 false true)).map
        (fun r => (r.1, r.2.output, r.2.diagnostics)) =
          some (some (.int 2), #[.printed "1"], #[]) := by decide +kernel
  obtain ⟨htidy, hless, hsame, hends⟩ := hcheck
  rw [Bool.and_eq_true] at htidy
  have htidySweeps : TidySweeps p := .step (tidy_of_isTidy htidy.1)
    (.step (tidy_of_isTidy htidy.2) (.done (sweepProgram_eq_self hsame)))
  obtain ⟨⟨value, c⟩, hrun, hr⟩ := Option.map_eq_some_iff.mp hends
  simp only [Prod.mk.injEq] at hr
  obtain ⟨rfl, houtput, hclean⟩ := hr
  obtain ⟨c', hrun', houtput', hclean'⟩ :=
    evaluates_eliminate (tokenize source).1 0 0 (.inl rfl) htidySweeps ⟨12, hrun⟩ hclean
  exact ⟨htidySweeps, hless, c, c', ⟨12, hrun⟩, hclean, houtput, hrun', houtput', hclean'⟩

/-- **Dropping dead code can change a clean run**: the last assignment stays, since
    without it the program would yield the value before it, but the declaration
    of its variable is dropped. -/
theorem not_evaluates_eliminate :
    let p := (parse (tokenize "x := 2; 5; x = 3").1 0).tree
    ∃ c, Evaluates p (.initial 8 false true) none c ∧ c.diagnostics = #[] ∧
      ¬ ∃ c', Evaluates (eliminate p) (.initial 8 false true) none c' ∧
        c'.output = c.output ∧ c'.diagnostics = #[] := by
  intro p
  have hends : ((eval 8 p).run (.initial 8 false true)).map
      (fun r => (r.1, r.2.diagnostics)) = some (none, #[]) := by decide +kernel
  have hfails : ((eval 8 (sweepProgram p)).run (.initial 8 false true)).map
      (fun r => r.2.diagnostics.size) = some 1 := by decide +kernel
  have hswept : eliminate p = sweepProgram p := by
    rw [← eliminate_sweepProgram]
    exact eliminate_of_fixed (sweepProgram_eq_self (by decide +kernel))
  obtain ⟨⟨value, c⟩, hrun, hr⟩ := Option.map_eq_some_iff.mp hends
  obtain ⟨⟨value', c'⟩, hrun', hsize⟩ := Option.map_eq_some_iff.mp hfails
  simp only [Prod.mk.injEq] at hr
  obtain ⟨rfl, hclean⟩ := hr
  refine ⟨c, ⟨8, hrun⟩, hclean, ?_⟩
  rintro ⟨d, hd, -, hnone⟩
  rw [hswept] at hd
  obtain ⟨-, rfl⟩ := hd.unique ⟨8, hrun'⟩
  rw [hnone] at hsize
  cases hsize

/-- An assignment to a global variable is dropped, since its block declares a
    variable of that name further down. -/
example :
    let p := (parse (tokenize "x := 0; { x = 5; x := 1 }; print(x)").1 0).tree
    ((eval 8 p).run (.initial 8 false true)).map (fun r => r.2.output) =
        some #[.printed "5"] ∧
      ((eval 8 (sweepProgram p)).run (.initial 8 false true)).map (fun r => r.2.output) =
        some #[.printed "0"] := by
  intro p
  decide +kernel

/-- A comment hides the last statement, which is dropped and lets a value through. -/
example :
    let p := (parse (tokenize "5; x := 1 # last").1 0).tree
    ((eval 8 p).run (.initial 8 false true)).map (fun r => r.1) = some none ∧
      ((eval 8 (sweepProgram p)).run (.initial 8 false true)).map (fun r => r.1) =
        some (some (.int 5)) := by
  intro p
  decide +kernel

end Scriptlet
