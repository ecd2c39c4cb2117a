import Scriptlet.Proofs.Run

/-!
# How a context evolves

One relation says all that evaluation can do to a context. Scopes are opened and
closed in pairs, so their number and the scopes between the global and the
innermost one stay as they are; the innermost and the global scope lose no
variable; inside another scope, the global scope gains none either. Functions,
diagnostics and output are only ever added to.

Results:
* `lasting_evolves`: no move of a running program breaks the relation.
* `evolves_of_eval`: it holds between the two ends of every evaluation.
* `eval_scopes_framed`: the number of scopes, the scopes in between, the names
  and types of the global scope, and the call depth.
* `eval_extends_history`: reports, output, functions and variables are only added
  to.
-/

namespace Scriptlet

/-! ## Scopes -/

/-- Every variable of the first scope is in the second one, with its type; if it
    had a value, it still has one. -/
def Scope.Keeps (s s' : Scope) : Prop :=
  ∀ x v, s.find? x = some v →
    ∃ v', s'.find? x = some v' ∧ v'.ty = v.ty ∧ (v.value.isSome → v'.value.isSome)

namespace Scope.Keeps

theorem refl (s : Scope) : s.Keeps s := fun _ v h => ⟨v, h, rfl, id⟩

theorem trans {a b c : Scope} (hab : a.Keeps b) (hbc : b.Keeps c) : a.Keeps c := by
  intro x v hv
  obtain ⟨w, hw, hty, hval⟩ := hab x v hv
  obtain ⟨u, hu, hty', hval'⟩ := hbc x w hw
  exact ⟨u, hu, hty'.trans hty, fun h => hval' (hval h)⟩

theorem store (s : Scope) (x : String) (value : Value) : s.Keeps (s.store x value) := by
  intro y v hv
  rw [Scope.find?_store]
  split
  · exact ⟨{ v with value := some value }, by rw [hv]; rfl, rfl, fun _ => rfl⟩
  · exact ⟨v, hv, rfl, id⟩

theorem cons {s : Scope} {x : String} (h : s.find? x = none) (v : Variable) :
    s.Keeps ((x, v) :: s) := by
  intro y w hw
  rw [Scope.find?_cons]
  split
  · next hxy => subst hxy; rw [h] at hw; cases hw
  · exact ⟨w, hw, rfl, id⟩

end Scope.Keeps

/-- What evaluation can do to the scopes. -/
structure Scopes.Evolves (s s' : Scopes) : Prop where
  length_eq : s'.inner.length = s.inner.length
  tail_eq : s'.inner.tail = s.inner.tail
  top : s.top.Keeps s'.top
  globals : s.globals.Keeps s'.globals
  signature_eq : s.inner ≠ [] → s'.globals.signature = s.globals.signature

namespace Scopes.Evolves

theorem refl (s : Scopes) : s.Evolves s := ⟨rfl, rfl, .refl _, .refl _, fun _ => rfl⟩

theorem ne_nil {s s' : Scopes} (h : s.Evolves s') (hs : s.inner ≠ []) : s'.inner ≠ [] := by
  rw [← List.length_pos_iff, h.length_eq]
  exact List.length_pos_iff.mpr hs

theorem trans {a b c : Scopes} (hab : a.Evolves b) (hbc : b.Evolves c) : a.Evolves c where
  length_eq := hbc.length_eq.trans hab.length_eq
  tail_eq := hbc.tail_eq.trans hab.tail_eq
  top := hab.top.trans hbc.top
  globals := hab.globals.trans hbc.globals
  signature_eq h := (hbc.signature_eq (hab.ne_nil h)).trans (hab.signature_eq h)

/-- Another innermost scope that keeps the variables. -/
theorem setTop {s : Scopes} {t : Scope} (ht : s.top.Keeps t) : s.Evolves (s.setTop t) where
  length_eq := length_inner_setTop s t
  tail_eq := tail_inner_setTop s t
  top := by rwa [top_setTop]
  globals := by
    by_cases h : s.inner = []
    · rw [globals_setTop_nil h, ← top_of_nil h]; exact ht
    · rw [globals_setTop h]; exact .refl _
  signature_eq h := by rw [globals_setTop h]

theorem storeGlobal (s : Scopes) (x : String) (value : Value) :
    s.Evolves { s with globals := s.globals.store x value } where
  length_eq := rfl
  tail_eq := rfl
  top := by
    unfold Scopes.top
    cases s.inner with
    | nil => exact .store _ x value
    | cons t rest => exact .refl _
  globals := .store _ x value
  signature_eq _ := Scope.signature_store _ x value

theorem assign {s s' : Scopes} {x : String} {value : Value} (h : s.assign x value = (.ok (), s')) :
    s.Evolves s' := by
  rcases assign_eq_ok.mp h with ⟨v, -, -, rfl⟩ | ⟨-, v, -, -, rfl⟩
  · exact setTop (.store _ x value)
  · exact storeGlobal s x value

/-- Closing the scope that was opened before the change. -/
theorem pop {s t s' : Scopes} (hne : t.inner ≠ []) (htail : t.inner.tail = s.inner)
    (hglob : t.globals = s.globals) (h : t.Evolves s') : s.Evolves s'.pop := by
  have hinner : s'.pop.inner = s.inner := by rw [inner_pop, h.tail_eq, htail]
  have hkeeps : s.globals.Keeps s'.pop.globals := by
    rw [← hglob]; exact h.globals
  refine ⟨by rw [hinner], by rw [hinner], ?_, hkeeps, ?_⟩
  · cases hs : s.inner with
    | nil =>
      rw [top_of_nil hs, top_of_nil (hinner.trans hs)]
      exact hkeeps
    | cons u rest =>
      have : s'.pop.top = s.top := by unfold Scopes.top; rw [hinner, hs]; rfl
      rw [this]
      exact .refl _
  · intro _
    rw [globals_pop, h.signature_eq hne, hglob]

end Scopes.Evolves

/-! ## Contexts -/

/-- Recording a diagnostic changes the diagnostics and the output only. -/
theorem Context.scopes_record (c : Context) (d : Diagnostic) : (c.record d).scopes = c.scopes := by
  unfold record
  split <;> rfl

theorem Context.functions_record (c : Context) (d : Diagnostic) :
    (c.record d).functions = c.functions := by
  unfold record
  split <;> rfl

theorem Context.callDepth_record (c : Context) (d : Diagnostic) :
    (c.record d).callDepth = c.callDepth := by
  unfold record
  split <;> rfl

/-- A function is registered under a name that is available and that no function
    has. -/
theorem Context.register_eq_ok {c c' : Context} {d : Definition} :
    c.register d = .ok c' ↔ c.scopes.available d.name = .ok () ∧ c.function? d.name = none ∧
      { c with functions := ⟨d, d.name⟩ :: c.functions } = c' := by
  unfold Context.register
  split
  · next fault h => simp [h]
  · next h =>
    split
    · next hsome =>
      simp only [reduceCtorEq, false_iff]
      rintro ⟨-, hnone, -⟩
      simp [hnone] at hsome
    · next hnone =>
      have hnone' : c.function? d.name = none := by simpa using hnone
      simp only [h, hnone', Except.ok.injEq, true_and]

/-- What evaluation can do to a context. -/
structure Context.Evolves (c c' : Context) : Prop where
  scopes : c.scopes.Evolves c'.scopes
  functions : ∀ f d, c.function? f = some d → c'.function? f = some d
  callDepth_eq : c'.callDepth = c.callDepth
  maxCallDepth_eq : c'.maxCallDepth = c.maxCallDepth
  diagnostics : c.diagnostics.toList <+: c'.diagnostics.toList
  output : c.output.toList <+: c'.output.toList

namespace Context.Evolves

theorem refl (c : Context) : c.Evolves c :=
  ⟨.refl _, fun _ _ h => h, rfl, rfl, List.prefix_rfl, List.prefix_rfl⟩

theorem trans {a b c : Context} (hab : a.Evolves b) (hbc : b.Evolves c) : a.Evolves c where
  scopes := hab.scopes.trans hbc.scopes
  functions f d h := hbc.functions f d (hab.functions f d h)
  callDepth_eq := hbc.callDepth_eq.trans hab.callDepth_eq
  maxCallDepth_eq := hbc.maxCallDepth_eq.trans hab.maxCallDepth_eq
  diagnostics := hab.diagnostics.trans hbc.diagnostics
  output := hab.output.trans hbc.output

/-- Only the scopes change. -/
theorem setScopes {c : Context} {s : Scopes} (h : c.scopes.Evolves s) :
    c.Evolves { c with scopes := s } :=
  { refl c with scopes := h }

theorem write (c : Context) (line : OutputLine) : c.Evolves (c.write line) := by
  refine { refl c with output := ?_ }
  unfold Context.write
  dsimp only
  split
  · simp
  · exact List.prefix_rfl

theorem pushDiagnostic (c : Context) (d : Diagnostic) :
    c.Evolves { c with diagnostics := c.diagnostics.push d } :=
  { refl c with diagnostics := by simp }

theorem record (c : Context) (d : Diagnostic) : c.Evolves (c.record d) := by
  have hecho : c.Evolves (if c.echo then c.write (.echoed d) else c) := by
    split
    · exact write c _
    · exact refl c
  exact hecho.trans (pushDiagnostic _ d)

/-- A function is only added under a name that no function has. -/
theorem register {c c' : Context} {d : Definition} (h : c.register d = .ok c') :
    c.Evolves c' := by
  obtain ⟨-, hnone, rfl⟩ := register_eq_ok.mp h
  refine { refl c with functions := fun f e hf => ?_ }
  have hne : d.name ≠ f := by
    rintro rfl
    cases hnone.symm.trans hf
  exact (FunctionTable.named?_cons _ _ f).trans ((if_neg hne).trans hf)

end Context.Evolves

/-- No move of a running program breaks the relation. -/
theorem lasting_evolves : Lasting Context.Evolves where
  refl := .refl
  trans := .trans
  write c text := .write c (.printed text)
  record := .record
  declare h := by
    obtain ⟨-, hnone, rfl⟩ := Scopes.declare_eq_ok.mp h
    exact .setScopes (.setTop (.cons hnone _))
  define h := by
    obtain ⟨-, hnone, rfl⟩ := Scopes.define_eq_ok.mp h
    exact .setScopes (.setTop (.cons hnone _))
  assign h := .setScopes (.assign h)
  register := .register
  leave {c c'} h := by
    have hscopes : c.scopes.Evolves c'.scopes.pop :=
      Scopes.Evolves.pop (t := c.scopes.push) (List.cons_ne_nil _ _) rfl rfl h.scopes
    exact { h with scopes := hscopes }
  returned {c c' params values s} hs h := by
    obtain ⟨hne, htail, hglob⟩ := Eval.bindParams_frame (List.cons_ne_nil _ _) hs
    have hscopes : c.scopes.Evolves c'.scopes.pop := Scopes.Evolves.pop hne htail hglob h.scopes
    have hdepth : c'.callDepth - 1 = c.callDepth := by
      rw [h.callDepth_eq]
      exact Nat.add_sub_cancel _ _
    exact { h with scopes := hscopes, callDepth_eq := hdepth }

theorem evolves_of_eval {bound : Nat} {n : Node} {c c' : Context} {value : Option Value}
    (h : (eval bound n).run c = some (value, c')) : c.Evolves c' :=
  lasting_evolves.relates_eval bound n c value c' h

/-- **Scopes are balanced and framed.** Whenever evaluation ends, with or without
    reports, there are as many scopes as before and the call depth is what it
    was; the scopes strictly between the global and the innermost one are
    unchanged; and if the global scope is not itself the innermost one, it binds
    the same names with the same types. -/
theorem eval_scopes_framed {n : Node} {c c' : Context} {value : Option Value}
    (h : Evaluates n c value c') :
    c'.scopes.depth = c.scopes.depth ∧ c'.callDepth = c.callDepth ∧
      c'.scopes.inner.tail = c.scopes.inner.tail ∧
      (1 < c.scopes.depth → c'.scopes.globals.signature = c.scopes.globals.signature) := by
  obtain ⟨bound, h⟩ := h
  have hc := evolves_of_eval h
  refine ⟨?_, hc.callDepth_eq, hc.scopes.tail_eq, fun hdepth => hc.scopes.signature_eq ?_⟩
  · unfold Scopes.depth
    rw [hc.scopes.length_eq]
  · rw [← List.length_pos_iff]
    unfold Scopes.depth at hdepth
    omega

/-- Three scopes, and a block that declares in the innermost one, fails to assign
    to the one between, and assigns to the global one. -/
theorem eval_scopes_framed_of_failed_assignment :
    let between : Scope := [("y", ⟨.int, some (.int 1)⟩)]
    let c : Context :=
      { Context.initial 128 false true with scopes := ⟨[[], between], [("g", ⟨.int, none⟩)]⟩ }
    let n : Node := ⟨9, 1, .block
      [⟨2, 1, .define ⟨0, 1, .binder "x"⟩ ⟨1, 1, .int 7⟩⟩,
        ⟨5, 1, .assign ⟨3, 1, .binder "y"⟩ ⟨4, 1, .read "x"⟩⟩,
        ⟨8, 1, .assign ⟨6, 1, .binder "g"⟩ ⟨7, 1, .read "x"⟩⟩]⟩
    ∃ value c', Evaluates n c value c' ∧ c'.diagnostics = #[.runtime (.undeclared "y") 1] ∧
      c'.scopes.depth = 3 ∧ c'.callDepth = 0 ∧ c'.scopes.inner.tail = [between] ∧
      c'.scopes.globals.signature = [("g", .int)] := by
  intro between c n
  have hends : ((eval 4 n).run c).map (fun ended => ended.2.diagnostics)
      = some #[.runtime (.undeclared "y") 1] := by decide +kernel
  obtain ⟨⟨value, c'⟩, hrun, hreports⟩ := Option.map_eq_some_iff.mp hends
  obtain ⟨hdepth, hcalls, htail, hglobals⟩ := eval_scopes_framed ⟨4, hrun⟩
  exact ⟨value, c', ⟨4, hrun⟩, hreports, hdepth, hcalls, htail, hglobals (by decide)⟩

/-- **Evaluation only extends history.** Whenever evaluation ends, with or without
    reports, the diagnostics and the output start with what they were; a function
    that was registered is still found under its name, as it was; and a variable
    of the innermost or of the global scope is still there with its type, and with
    a value if it had one. -/
theorem eval_extends_history {n : Node} {c c' : Context} {value : Option Value}
    (h : Evaluates n c value c') :
    c.diagnostics.toList <+: c'.diagnostics.toList ∧ c.output.toList <+: c'.output.toList ∧
      (∀ f d, c.function? f = some d → c'.function? f = some d) ∧
      c.scopes.top.Keeps c'.scopes.top ∧ c.scopes.globals.Keeps c'.scopes.globals := by
  obtain ⟨bound, h⟩ := h
  have hc := evolves_of_eval h
  exact ⟨hc.diagnostics, hc.output, hc.functions, hc.scopes.top, hc.scopes.globals⟩

/-- A session with a report, a line of output, a function `f` and a variable in
    each of two scopes. The block defines `f` again, declares `x` again, assigns a
    value of another type to the global `g`, and prints: each of the first three
    is refused with a report, and all that was there stays. -/
theorem eval_extends_history_of_refused :
    let f : Definition := ⟨"f", [], ⟨0, 1, .int 1⟩⟩
    let c : Context :=
      { Context.initial 128 false true with
        scopes := ⟨[[("x", ⟨.int, some (.int 1)⟩)]], [("g", ⟨.int, none⟩)]⟩
        functions := [⟨f, "f"⟩]
        diagnostics := #[.runtime (.undeclared "y") 1]
        output := #[.printed "before"] }
    let n : Node := ⟨12, 2, .block
      [⟨3, 2, .function ⟨1, 2, .binder "f"⟩ none ⟨2, 2, .int 2⟩⟩,
        ⟨6, 2, .define ⟨4, 2, .binder "x"⟩ ⟨5, 2, .str "s"⟩⟩,
        ⟨9, 2, .assign ⟨7, 2, .binder "g"⟩ ⟨8, 2, .str "s"⟩⟩,
        ⟨11, 2, .print ⟨10, 2, .read "x"⟩⟩]⟩
    ∃ value c', Evaluates n c value c' ∧
      c'.diagnostics.map Diagnostic.line = #[1, 2, 2, 2] ∧
      c'.output = #[.printed "before", .printed "1"] ∧
      [.runtime (.undeclared "y") 1] <+: c'.diagnostics.toList ∧
      [.printed "before"] <+: c'.output.toList ∧ c'.function? "f" = some f ∧
      (∃ v, c'.scopes.top.find? "x" = some v ∧ v.ty = .int ∧ v.value.isSome) ∧
      ∃ v, c'.scopes.globals.find? "g" = some v ∧ v.ty = .int := by
  intro f c n
  have hends : ((eval 4 n).run c).map
        (fun ended => (ended.2.diagnostics.map Diagnostic.line, ended.2.output))
      = some (#[1, 2, 2, 2], #[.printed "before", .printed "1"]) := by decide +kernel
  obtain ⟨⟨value, c'⟩, hrun, hends⟩ := Option.map_eq_some_iff.mp hends
  obtain ⟨hlines, hwritten⟩ := Prod.mk.inj hends
  obtain ⟨hreports, houtput, hfunctions, htop, hglobals⟩ := eval_extends_history ⟨4, hrun⟩
  obtain ⟨x, hx, hxty, hxval⟩ := htop "x" _ rfl
  obtain ⟨g, hg, hgty, -⟩ := hglobals "g" _ rfl
  exact ⟨value, c', ⟨4, hrun⟩, hlines, hwritten, hreports, houtput, hfunctions "f" f rfl,
    ⟨x, hx, hxty, hxval rfl⟩, g, hg, hgty⟩

end Scriptlet
