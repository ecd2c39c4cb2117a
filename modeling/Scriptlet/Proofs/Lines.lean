import Scriptlet.Proofs.Coupling

/-!
# Evaluation and lines

Evaluation looks at the forms of nodes and never at their ids. Lines it only
hands on to diagnostics. So two trees that match are evaluated alike: with the
same value, the same output and the same variables, and with the same faults on
lines that are related. The diagnostics recorded before may differ on the two
sides; only their number is ever looked at, and only to see whether it grows.

Results:
* `coupling_like`: the same moves on related lines keep the contexts in agreement.
* `retraces_eval`: evaluating a tree retraces evaluating a tree that matches it.
-/

namespace Scriptlet

open Eval

/-! ## Contexts that differ in ids and lines -/

/-- The same fault on lines that are related. -/
inductive Diagnostic.Like (L : Nat → Nat → Prop) : Diagnostic → Diagnostic → Prop
  | runtime {fault : Fault} {i j : Nat} : L i j → Like L (.runtime fault i) (.runtime fault j)

/-- The same function with a body on lines that are related. -/
structure Definition.Like (L : Nat → Nat → Prop) (f g : Definition) : Prop where
  name_eq : g.name = f.name
  params_eq : g.params = f.params
  body : f.body.Matches L g.body

/-- Two contexts that agree but for ids and lines and for the diagnostics recorded
    before. -/
structure Context.Like (L : Nat → Nat → Prop) (before before' : List Diagnostic)
    (c d : Context) : Prop where
  scopes_eq : d.scopes = c.scopes
  functions : FunctionTable.Rel (Definition.Like L) c.functions d.functions
  maxCallDepth_eq : d.maxCallDepth = c.maxCallDepth
  callDepth_eq : d.callDepth = c.callDepth
  writer_eq : d.writer = c.writer
  output_eq : d.output = c.output
  silent : c.echo = false ∧ d.echo = false
  diagnostics : ∃ ds es, c.diagnostics.toList = before ++ ds ∧
    d.diagnostics.toList = before' ++ es ∧ List.Forall₂ (Diagnostic.Like L) ds es

theorem Context.record_of_silent {c : Context} (h : c.echo = false) (d : Diagnostic) :
    c.record d = { c with diagnostics := c.diagnostics.push d } := by
  simp [Context.record, h]

namespace Context.Like

variable {L : Nat → Nat → Prop} {before before' : List Diagnostic} {c d c₁ d₁ : Context}

theorem write (h : Like L before before' c d) (line : OutputLine) :
    Like L before before' (c.write line) (d.write line) := by
  unfold Context.write
  rw [h.writer_eq, h.output_eq]
  exact { h with writer_eq := rfl, output_eq := rfl }

theorem report (h : Like L before before' c d) (fault : Fault) {i j : Nat} (hij : L i j) :
    Like L before before' (c.report fault i) (d.report fault j) := by
  obtain ⟨ds, es, hds, hes, hlike⟩ := h.diagnostics
  rw [Context.report, Context.report, record_of_silent h.silent.1, record_of_silent h.silent.2]
  refine { h with
    diagnostics := ⟨ds ++ [.runtime fault i], es ++ [.runtime fault j], ?_, ?_, ?_⟩ }
  · simp [hds]
  · simp [hes]
  · exact List.rel_append hlike (.cons (.runtime hij) .nil)

/-- Both sides record something or none does. -/
theorem size_eq_iff (h : Like L before before' c d) (h₁ : Like L before before' c₁ d₁) :
    c₁.diagnostics.size = c.diagnostics.size ↔ d₁.diagnostics.size = d.diagnostics.size := by
  obtain ⟨ds, es, hds, hes, hlike⟩ := h.diagnostics
  obtain ⟨ds₁, es₁, hds₁, hes₁, hlike₁⟩ := h₁.diagnostics
  simp only [← Array.length_toList, hds, hes, hds₁, hes₁, List.length_append, hlike.length_eq,
    hlike₁.length_eq]
  omega

/-- The functions differ in their bodies only. -/
theorem tied (h : Like L before before' c d) :
    FunctionTable.Rel (Definition.Tied (Node.Matches L)) c.functions d.functions :=
  h.functions.imp fun _ _ hfg => ⟨hfg.name_eq, hfg.params_eq, hfg.body⟩

end Context.Like

/-- **The same moves on related lines keep the contexts in agreement.** -/
theorem coupling_like (L : Nat → Nat → Prop) (before before' : List Diagnostic) :
    Coupling (Node.Matches L) L (Context.Like L before before') where
  scopes_eq h := h.scopes_eq
  maxCallDepth_eq h := h.maxCallDepth_eq
  callDepth_eq h := h.callDepth_eq
  function? h f := h.tied.named? f
  state h _ _ := { h with scopes_eq := rfl, callDepth_eq := rfl }
  register h hfg := { h with
    functions := .cons ⟨rfl, hfg.name_eq, hfg.params_eq, hfg.body⟩ h.functions }
  write h text := h.write (.printed text)
  report h hij fault := h.report fault hij
  size_eq_iff h h₁ := h.size_eq_iff h₁

/-! ## Trees that match -/

namespace Node.Matches

variable {L : Nat → Nat → Prop} {m n : Node}

theorem label?_eq (h : m.Matches L n) : n.label? = m.label? := by
  obtain ⟨pairs, -, -⟩ := h
  cases pairs <;> rfl

theorem paramsOf_eq (h : m.Matches L n) : paramsOf (some n) = paramsOf (some m) := by
  obtain ⟨pairs, -, hchildren⟩ := h
  cases pairs with
  | params ps =>
    simp only [Form.map, Node.paramsOf_eq_filterMap, List.filterMap_map]
    refine List.filterMap_congr fun p hp => ?_
    have hname := hchildren p.1 (List.mem_flatMap.mpr ⟨p, hp, by simp⟩)
    have hty := hchildren p.2 (List.mem_flatMap.mpr ⟨p, hp, by simp⟩)
    simp only [Function.comp_apply, hname.label?_eq, hty.label?_eq]
  | _ => rfl

theorem forall₂_argsOf (h : m.Matches L n) :
    List.Forall₂ (Node.Matches L) (argsOf (some m)) (argsOf (some n)) := by
  obtain ⟨pairs, -, hchildren⟩ := h
  cases pairs with
  | args values => exact forall₂_of_pairs hchildren
  | _ => exact .nil

theorem corresponds (h : m.Matches L n) : m.Corresponds (Node.Matches L) n := by
  obtain ⟨pairs, -, hchildren⟩ := h
  exact .same pairs hchildren fun pair hpair =>
    (hchildren pair (Form.mem_children_of_mem_names hpair)).name?_eq

end Node.Matches

/-- Matching nodes are the same to evaluation, but for their lines. -/
theorem reports_matches (L : Nat → Nat → Prop) : Node.Reports (Node.Matches L) L where
  isComment_eq h := h.isComment_eq
  label?_eq h := h.label?_eq
  paramsOf_eq h := h.paramsOf_eq
  argsOf h := h.forall₂_argsOf
  line h := h.line
  name?_eq h := h.name?_eq

/-- Whenever the first step ends, the second one ends with the same result, in
    contexts that agree again. -/
def Retraces {α : Type} (L : Nat → Nat → Prop) (before before' : List Diagnostic)
    (m m' : Eval α) : Prop :=
  ∀ c d a c', c.Like L before before' d → m.run c = some (a, c') →
    ∃ d', m'.run d = some (a, d') ∧ c'.Like L before before' d'

theorem Retraces.sequence {L : Nat → Nat → Prop} {before before' : List Diagnostic}
    {ev ev' : Evaluator} (hev : ∀ m n, m.Matches L n → Retraces L before before' (ev m) (ev' n))
    {ms ns : List Node} (h : List.Forall₂ (Node.Matches L) ms ns) (last : Option Value) :
    Retraces L before before' (sequence ev last ms) (sequence ev' last ns) :=
  Couples.sequence (reports_matches L) hev h last

/-- **Ids and lines do not matter.** Evaluating a tree ends as evaluating a tree
    that matches it does, with faults on lines that are related. -/
theorem retraces_eval {L : Nat → Nat → Prop} {before before' : List Diagnostic} (bound : Nat) :
    ∀ m n, m.Matches L n → Retraces L before before' (eval bound m) (eval bound n) :=
  couples_eval (coupling_like L before before') (reports_matches L)
    (fun _ _ h => h.corresponds) bound

end Scriptlet
