import Scriptlet.Proofs.Coupling
import Scriptlet.Proofs.Evolution

/-!
# Runs that mirror each other

Two programs run side by side, in contexts that agree but for their scopes and
functions. A step mirrors another if it follows every clean run of it, that is,
every run that ends and reports nothing: it ends as well, within the same bound,
with a related result and in a context that is again related.

That a clean run reports nothing makes for short proofs: a value that is needed
is there, and no failure has to be followed. How scopes and functions are
related is a parameter.

Results:
* `Mirrors.bind`: steps that mirror each other may be put in sequence.
* `Mirrors.required`: a value that a clean run needs is there on both sides.
* `Mirrors.repeatWhile`, `Mirrors.call`: loops and calls mirror each other if
  guards, turns, arguments and bodies do.
* `Mirrors.step`: rules applied to nodes that correspond mirror each other, if
  related nodes do.
-/

namespace Scriptlet

open Eval

/-! ## Related contexts -/

/-- Two contexts that agree but for their scopes and functions, which are
    related. -/
structure Linked (S : Scopes → Scopes → Prop) (F : FunctionTable → FunctionTable → Prop)
    (c d : Context) : Prop where
  scopes : S c.scopes d.scopes
  functions : F c.functions d.functions
  maxCallDepth_eq : d.maxCallDepth = c.maxCallDepth
  callDepth_eq : d.callDepth = c.callDepth
  diagnostics_eq : d.diagnostics = c.diagnostics
  writer_eq : d.writer = c.writer
  output_eq : d.output = c.output

namespace Linked

variable {S S' : Scopes → Scopes → Prop} {F : FunctionTable → FunctionTable → Prop}
  {c d : Context}

theorem withScopes (h : Linked S F c d) {s t : Scopes} (hst : S' s t) :
    Linked S' F { c with scopes := s } { d with scopes := t } :=
  { h with scopes := hst }

theorem write (h : Linked S F c d) (line : OutputLine) :
    Linked S F (c.write line) (d.write line) := by
  unfold Context.write
  rw [h.writer_eq, h.output_eq]
  exact { h with writer_eq := rfl, output_eq := rfl }

end Linked

/-- From the earlier to the later context nothing was reported. -/
def Quiet (c c' : Context) : Prop := c'.diagnostics.size ≤ c.diagnostics.size

theorem Context.Evolves.size_le {c c' : Context} (h : c.Evolves c') :
    c.diagnostics.size ≤ c'.diagnostics.size := by
  simpa using h.diagnostics.length_le

/-- A run in two parts is quiet iff both parts are. -/
theorem Quiet.split {a b c : Context} (hab : a.Evolves b) (hbc : b.Evolves c) (h : Quiet a c) :
    Quiet a b ∧ Quiet b c := by
  have h1 := hab.size_le
  have h2 := hbc.size_le
  unfold Quiet at h ⊢
  omega

theorem size_record (c : Context) (d : Diagnostic) :
    (c.record d).diagnostics.size = c.diagnostics.size + 1 := by
  unfold Context.record Context.write
  split <;> simp

/-- After a report there are more diagnostics than before. -/
theorem size_lt_of_report {α : Type} {fault : Fault} {line : Nat} {f : Unit → Eval α}
    {c c' : Context} {a : α} (hf : ∀ u, Relates Context.Evolves (f u))
    (h : (report fault line >>= f).run c = some (a, c')) :
    c.diagnostics.size < c'.diagnostics.size := by
  obtain ⟨u, c1, h1, h2⟩ := run_bind_eq_some.mp h
  obtain rfl := run_modify_eq_some.mp h1
  have hgrow := (hf u _ a c' h2).size_le
  rw [Context.report, size_record] at hgrow
  omega

/-- A value that is needed is there, if nothing is reported. -/
theorem quiet_required {ev : Evaluator} {n : Node} {missing : Fault} {c c' : Context}
    {a : Option Value} (hev : Relates Context.Evolves (ev n))
    (hrun : (required ev missing n).run c = some (a, c')) (hquiet : Quiet c c') :
    ∃ v, a = some v ∧ (ev n).run c = some (some v, c') := by
  obtain ⟨_, _, h0, hrun⟩ := run_bind_eq_some.mp hrun
  obtain ⟨rfl, rfl⟩ := run_get_eq_some.mp h0
  obtain ⟨value, c1, h1, hrun⟩ := run_bind_eq_some.mp hrun
  obtain ⟨_, _, h2, hrun⟩ := run_bind_eq_some.mp hrun
  obtain ⟨rfl, rfl⟩ := run_get_eq_some.mp h2
  have hgrow := (hev c value c1 h1).size_le
  cases value with
  | none =>
    -- without a value there is a report, at the latest here
    exfalso
    unfold Quiet at hquiet
    split at hrun
    · have hreport := size_lt_of_report (fun _ => lasting_evolves.pure none) hrun
      omega
    · next hnew =>
      obtain ⟨-, rfl⟩ := run_pure_eq_some.mp hrun
      exact hnew ⟨rfl, by omega⟩
  | some v =>
    simp only [Option.isNone_some, Bool.false_eq_true, false_and, if_false] at hrun
    obtain ⟨rfl, rfl⟩ := run_pure_eq_some.mp hrun
    exact ⟨v, rfl, h1⟩

/-- A value that is there is not reported as missing. -/
theorem run_required_some {ev : Evaluator} {n : Node} {missing : Fault} {c c' : Context}
    {v : Value} (h : (ev n).run c = some (some v, c')) :
    (required ev missing n).run c = some (some v, c') := by
  refine run_bind_eq_some.mpr ⟨c, c, rfl, ?_⟩
  refine run_bind_eq_some.mpr ⟨some v, c', h, ?_⟩
  exact run_bind_eq_some.mpr ⟨c', c', rfl, rfl⟩

/-! ## Steps -/

/-- A step that mirrors every clean run of another. -/
def Mirrors {α β : Type} (S : Scopes → Scopes → Prop)
    (F : FunctionTable → FunctionTable → Prop) (Q : α → β → Prop) (m : Eval α)
    (m' : Eval β) : Prop :=
  ∀ c d a c', Linked S F c d → m.run c = some (a, c') → Quiet c c' →
    ∃ b d', m'.run d = some (b, d') ∧ Q a b ∧ Linked S F c' d'

/-- Both sides yield one and the same value. -/
def BothYield (a b : Option Value) : Prop := ∃ v, a = some v ∧ b = some v

theorem BothYield.eq {a b : Option Value} (h : BothYield a b) : a = b := by
  obtain ⟨v, rfl, rfl⟩ := h
  rfl

/-- The results are the same, if they are observed at all. -/
def Agree (observed : Bool) (a b : Option Value) : Prop := observed = true → a = b

theorem agree_iff_eq {a b : Option Value} : Agree true a b ↔ a = b := by simp [Agree]

/-- Two functions whose calls mirror each other in scopes related by `S`. The
    scopes of the two calls are related in a way of their own, which binding the
    parameters establishes. -/
def Callable (S : Scopes → Scopes → Prop) (F : FunctionTable → FunctionTable → Prop)
    (Q : Option Value → Option Value → Prop) (ev ev' : Evaluator) (d d' : Definition) : Prop :=
  d'.params = d.params ∧ ∃ S' : Scopes → Scopes → Prop,
    (∀ s t values s', S s t → bindParams s.push d.params values = .ok (some s') →
      ∃ t', bindParams t.push d.params values = .ok (some t') ∧ S' s' t') ∧
    (∀ s t, S' s t → S s.pop t.pop) ∧ Mirrors S' F Q (ev d.body) (ev' d'.body)

namespace Mirrors

variable {α β γ δ : Type} {S S' : Scopes → Scopes → Prop}
  {F : FunctionTable → FunctionTable → Prop}

theorem pure {Q : α → β → Prop} {a : α} {b : β} (h : Q a b) :
    Mirrors S F Q (pure a) (pure b) := by
  intro c d a' c' hlink hrun _
  obtain ⟨rfl, rfl⟩ := run_pure_eq_some.mp hrun
  exact ⟨b, d, run_pure_eq_some.mpr ⟨rfl, rfl⟩, h, hlink⟩

/-- Steps that mirror each other may be put in sequence. -/
theorem bind {P : α → β → Prop} {Q : γ → δ → Prop} {m : Eval α} {m' : Eval β}
    {f : α → Eval γ} {f' : β → Eval δ} (hm : Relates Context.Evolves m)
    (hf : ∀ a, Relates Context.Evolves (f a)) (h : Mirrors S F P m m')
    (h' : ∀ a b, P a b → Mirrors S F Q (f a) (f' b)) :
    Mirrors S F Q (m >>= f) (m' >>= f') := by
  intro c d a2 c2 hlink hrun hquiet
  obtain ⟨a1, c1, h1, h2⟩ := run_bind_eq_some.mp hrun
  obtain ⟨hq1, hq2⟩ := hquiet.split (hm c a1 c1 h1) (hf a1 c1 a2 c2 h2)
  obtain ⟨b1, d1, hd1, hP, hlink1⟩ := h c d a1 c1 hlink h1 hq1
  obtain ⟨b2, d2, hd2, hQ, hlink2⟩ := h' a1 b1 hP c1 d1 a2 c2 hlink1 h2 hq2
  exact ⟨b2, d2, run_bind_eq_some.mpr ⟨b1, d1, hd1, hd2⟩, hQ, hlink2⟩

theorem weaken {P Q : α → β → Prop} {m : Eval α} {m' : Eval β} (h : Mirrors S F P m m')
    (hPQ : ∀ a b, P a b → Q a b) : Mirrors S F Q m m' := by
  intro c d a c' hlink hrun hquiet
  obtain ⟨b, d', hd, hP, hlink'⟩ := h c d a c' hlink hrun hquiet
  exact ⟨b, d', hd, hPQ a b hP, hlink'⟩

/-- After a report no clean run has to be mirrored. -/
theorem report_bind {Q : α → β → Prop} {fault : Fault} {line : Nat} {f : Unit → Eval α}
    {m' : Eval β} (hf : ∀ u, Relates Context.Evolves (f u)) :
    Mirrors S F Q (report fault line >>= f) m' := by
  intro c d a c' _ hrun hquiet
  exact absurd hquiet (Nat.not_le.mpr (size_lt_of_report hf hrun))

/-- A failure never happens in a clean run. -/
theorem settle {line line' : Nat} {result result' : Except Fault Value}
    (h : ∀ v, result = .ok v → result' = .ok v) :
    Mirrors S F BothYield (settle line result) (settle line' result') := by
  cases result with
  | ok v =>
    rw [h v rfl]
    exact Mirrors.pure ⟨v, rfl, rfl⟩
  | error fault => exact report_bind fun _ => lasting_evolves.pure none

/-- A step of its own scope, if opening and closing it keeps the scopes related. -/
theorem inScope {Q : α → β → Prop} {m : Eval α} {m' : Eval β}
    (hopen : ∀ s t, S s t → S' s.push t.push) (hclose : ∀ s t, S' s t → S s.pop t.pop)
    (h : Mirrors S' F Q m m') : Mirrors S F Q (inScope m) (inScope m') := by
  intro c d a c' hlink hrun hquiet
  obtain ⟨_, c1, h1, hrun⟩ := run_bind_eq_some.mp hrun
  obtain ⟨b, c2, h2, hrun⟩ := run_bind_eq_some.mp hrun
  obtain ⟨_, c3, h3, hrun⟩ := run_bind_eq_some.mp hrun
  obtain ⟨rfl, rfl⟩ := run_pure_eq_some.mp hrun
  obtain rfl := run_modify_eq_some.mp h1
  obtain rfl := run_modify_eq_some.mp h3
  obtain ⟨b', d2, hd2, hQ, hlink2⟩ :=
    h _ { d with scopes := d.scopes.push } b c2 (hlink.withScopes (hopen _ _ hlink.scopes)) h2
      hquiet
  refine ⟨b', { d2 with scopes := d2.scopes.pop }, ?_, hQ,
    hlink2.withScopes (hclose _ _ hlink2.scopes)⟩
  refine run_bind_eq_some.mpr ⟨(), _, rfl, ?_⟩
  exact run_bind_eq_some.mpr ⟨b', d2, hd2, rfl⟩

/-- A change of the scopes that succeeds on both sides. -/
theorem update {line line' : Nat} {f f' : Scopes → Change Unit Scopes}
    (h : ∀ s t s', S s t → f s = (.ok (), s') → ∃ t', f' t = (.ok (), t') ∧ S s' t') :
    Mirrors S F (Eq : Option Value → Option Value → Prop)
      (do setScopes line (f (← get).scopes); return none)
      (do setScopes line' (f' (← get).scopes); return none) := by
  intro c d a c' hlink hrun hquiet
  obtain ⟨_, _, h0, hrun⟩ := run_bind_eq_some.mp hrun
  obtain ⟨rfl, rfl⟩ := run_get_eq_some.mp h0
  rcases hf : f c.scopes with ⟨result, s⟩
  rw [hf] at hrun
  cases result with
  | error fault =>
    exact absurd hquiet (Nat.not_le.mpr (size_lt_of_report
      (c := { c with scopes := s }) (fun _ => lasting_evolves.pure none) hrun))
  | ok u =>
    obtain ⟨rfl, rfl⟩ := run_pure_eq_some.mp hrun
    obtain ⟨t, ht, hst⟩ := h _ _ s hlink.scopes hf
    refine ⟨none, { d with scopes := t }, ?_, rfl, hlink.withScopes hst⟩
    refine run_bind_eq_some.mpr ⟨d, d, rfl, ?_⟩
    rw [ht]
    rfl

/-- A function that is registered on both sides. -/
theorem define {line line' : Nat} {f f' : Definition} (hname : f'.name = f.name)
    (havailable : ∀ s t, S s t → s.available f.name = .ok () → t.available f.name = .ok ())
    (hnew : ∀ fs gs, F fs gs → fs.named? f.name = none →
      gs.named? f.name = none ∧ F (⟨f, f.name⟩ :: fs) (⟨f', f.name⟩ :: gs)) :
    Mirrors S F Eq (Eval.define line f) (Eval.define line' f') := by
  intro c d a c' hlink hrun hquiet
  obtain ⟨_, _, h0, hrun⟩ := run_bind_eq_some.mp hrun
  obtain ⟨rfl, rfl⟩ := run_get_eq_some.mp h0
  split at hrun
  · next c₁ hc₁ =>
    obtain ⟨havail, hnone, rfl⟩ := Context.register_eq_ok.mp hc₁
    obtain ⟨_, _, h1, hrun⟩ := run_bind_eq_some.mp hrun
    obtain ⟨rfl, rfl⟩ := run_pure_eq_some.mp hrun
    obtain rfl := run_set_eq_some.mp h1
    obtain ⟨hnone', hF⟩ := hnew _ _ hlink.functions hnone
    refine ⟨none, { d with functions := ⟨f', f.name⟩ :: d.functions }, ?_, rfl,
      { hlink with functions := hF }⟩
    refine run_bind_eq_some.mpr ⟨d, d, rfl, ?_⟩
    have hok : d.register f' = .ok { d with functions := ⟨f', f.name⟩ :: d.functions } := by
      rw [Context.register_eq_ok, hname]
      exact ⟨havailable _ _ hlink.scopes havail, hnone', rfl⟩
    simp only [hok]
    rfl
  · next fault _ =>
    exact absurd hquiet
      (Nat.not_le.mpr (size_lt_of_report (fun _ => lasting_evolves.pure none) hrun))

/-! ## Operands, guards and loops -/

section Evaluator

variable {ev ev' : Evaluator} (hev : ∀ n, Relates Context.Evolves (ev n))

include hev

/-- A value that a clean run needs is there on both sides. -/
theorem required {n n' : Node} {missing missing' : Fault}
    (h : Mirrors S F Eq (ev n) (ev' n')) :
    Mirrors S F BothYield (required ev missing n) (required ev' missing' n') := by
  intro c d a c' hlink hrun hquiet
  obtain ⟨v, rfl, h1⟩ := quiet_required (hev n) hrun hquiet
  obtain ⟨_, d', hd, rfl, hlink'⟩ := h c d (some v) c' hlink h1 hquiet
  exact ⟨some v, d', run_required_some hd, ⟨v, rfl, rfl⟩, hlink'⟩

theorem operand {n n' : Node} (h : Mirrors S F Eq (ev n) (ev' n')) :
    Mirrors S F BothYield (operand ev n) (operand ev' n') :=
  required hev h

theorem combine {left right left' right' : Node} {line line' : Nat}
    {f : Value → Value → Except Fault Value} (hleft : Mirrors S F Eq (ev left) (ev' left'))
    (hright : Mirrors S F Eq (ev right) (ev' right')) :
    Mirrors S F BothYield (combine ev line left right f) (combine ev' line' left' right' f) := by
  have hE := lasting_evolves
  refine bind (hE.operand (hev left)) (fun a => ?_) (operand hev hleft) ?_
  · refine hE.bind (hE.operand (hev right)) fun b => ?_
    cases a <;> cases b <;> first | exact hE.pure none | exact hE.settle line _
  · rintro _ _ ⟨v, rfl, rfl⟩
    refine bind (hE.operand (hev right)) (fun b => ?_) (operand hev hright) ?_
    · cases b <;> first | exact hE.pure none | exact hE.settle line _
    · rintro _ _ ⟨w, rfl, rfl⟩
      exact settle fun _ h => h

theorem transform {n n' : Node} {line line' : Nat} {f : Value → Except Fault Value}
    (h : Mirrors S F Eq (ev n) (ev' n')) :
    Mirrors S F BothYield (transform ev line n f) (transform ev' line' n' f) := by
  have hE := lasting_evolves
  refine bind (hE.operand (hev n)) (fun a => ?_) (operand hev h) ?_
  · cases a with
    | none => exact hE.pure none
    | some a => exact hE.settle line (f a)
  · rintro _ _ ⟨v, rfl, rfl⟩
    exact settle fun _ h => h

theorem guard {n n' : Node} (h : Mirrors S F Eq (ev n) (ev' n')) :
    Mirrors S F Eq (guard ev n) (guard ev' n') := by
  have hE := lasting_evolves
  refine bind (hE.operand (hev n)) (fun a => ?_) (operand hev h) ?_
  · split
    · exact hE.pure _
    · exact hE.bind (hE.report _ n.line) fun _ => hE.pure none
    · exact hE.pure none
  · rintro _ _ ⟨v, rfl, rfl⟩
    cases v with
    | bool b => exact Mirrors.pure rfl
    | int _ => exact report_bind fun _ => hE.pure none
    | float _ => exact report_bind fun _ => hE.pure none
    | str _ => exact report_bind fun _ => hE.pure none

/-- Statements mirror each other one by one. -/
theorem sequence {ns ns' : List Node}
    (h : List.Forall₂ (fun n n' => n'.isComment = n.isComment ∧ Mirrors S F Eq (ev n) (ev' n'))
      ns ns') :
    ∀ last, Mirrors S F Eq (sequence ev last ns) (sequence ev' last ns') := by
  have hE := lasting_evolves
  induction h with
  | nil => exact fun last => Mirrors.pure rfl
  | @cons n n' ns ns' hn _ ih =>
    intro last
    simp only [Eval.sequence, hn.1]
    split
    · exact ih last
    · refine bind (hev n) (hE.sequence hev ns) hn.2 ?_
      rintro a _ rfl
      exact ih a

/-- Loops mirror each other if their guards and turns do. -/
theorem repeatWhile {guardNode guardNode' : Node} {turn turn' : Eval (Option Value)}
    {observed : Bool} (hturn : Relates Context.Evolves turn)
    (hguard : Mirrors S F Eq (ev guardNode) (ev' guardNode'))
    (hbody : Mirrors S F (Agree observed) turn turn') :
    ∀ bound last last', Agree observed last last' →
      Mirrors S F (Agree observed) (repeatWhile ev guardNode turn bound last)
        (repeatWhile ev' guardNode' turn' bound last') := by
  have hE := lasting_evolves
  intro bound
  induction bound with
  | zero =>
    intro last last' _ c d a c' _ hrun _
    cases hrun
  | succ bound ih =>
    intro last last' hlast
    refine bind (hE.guard (hev guardNode)) (fun g => ?_) (guard hev hguard) ?_
    · split
      · exact hE.bind hturn (hE.repeatWhile hev guardNode hturn bound)
      · exact hE.pure last
    · rintro g _ rfl
      split
      · exact bind hturn (hE.repeatWhile hev guardNode hturn bound) hbody ih
      · exact Mirrors.pure hlast

/-! ## Calls -/

/-- Arguments mirror each other one by one, and all have values. -/
theorem operands {ns ns' : List Node}
    (h : List.Forall₂ (fun n n' => Mirrors S F Eq (ev n) (ev' n')) ns ns') :
    Mirrors S F (fun values values' => values = values' ∧ ∀ v ∈ values, v.isSome)
      (operands ev ns) (operands ev' ns') := by
  have hE := lasting_evolves
  induction h with
  | nil => exact Mirrors.pure ⟨rfl, by simp⟩
  | @cons n n' ns ns' hn hns ih =>
    refine bind (hE.operand (hev n)) (fun _ => hE.bind (hE.operands hev ns) fun _ => hE.pure _)
      (operand hev hn) ?_
    rintro _ _ ⟨v, rfl, rfl⟩
    refine bind (hE.operands hev ns) (fun _ => hE.pure _) ih ?_
    rintro values _ ⟨rfl, hsome⟩
    exact Mirrors.pure ⟨rfl, by simpa using hsome⟩

omit hev in
/-- Arguments that all have values are never missing. -/
theorem bindParams_ne_none {s : Scopes} {params : List (String × Ty)}
    {values : List (Option Value)} (h : ∀ v ∈ values, v.isSome) :
    bindParams s params values ≠ .ok none := by
  fun_induction bindParams s params values with
  | case1 s _ _ _ => simp at h
  | case2 s x ty params value values fault hcast => simp
  | case3 s x ty params value values v hcast fault hdefine => simp
  | case4 s x ty params value values v hcast t hdefine ih => exact ih fun v hv => h v (by simp [hv])
  | case5 => simp

omit hev in
/-- Bodies that mirror each other in the scopes of two calls. -/
theorem enter {d d' : Definition} {Q : Option Value → Option Value → Prop} {c₁ c₂ c₁' : Context}
    {s t : Scopes} {a : Option Value} (hclose : ∀ s t, S' s t → S s.pop t.pop)
    (hbody : Mirrors S' F Q (ev d.body) (ev' d'.body)) (hlink : Linked S F c₁ c₂) (hst : S' s t)
    (hrun : (enter ev d s).run c₁ = some (a, c₁')) (hquiet : Quiet c₁ c₁') :
    ∃ b c₂', (enter ev' d' t).run c₂ = some (b, c₂') ∧ Q a b ∧ Linked S F c₁' c₂' := by
  obtain ⟨_, c1, h1, hrun⟩ := run_bind_eq_some.mp hrun
  obtain ⟨b, c2, h2, hrun⟩ := run_bind_eq_some.mp hrun
  obtain ⟨_, c3, h3, hrun⟩ := run_bind_eq_some.mp hrun
  obtain ⟨rfl, rfl⟩ := run_pure_eq_some.mp hrun
  obtain rfl := run_modify_eq_some.mp h1
  obtain rfl := run_modify_eq_some.mp h3
  have hlink1 : Linked S' F { c₁ with scopes := s, callDepth := c₁.callDepth + 1 }
      { c₂ with scopes := t, callDepth := c₂.callDepth + 1 } :=
    { hlink with scopes := hst, callDepth_eq := by simp only [hlink.callDepth_eq] }
  obtain ⟨b', d2, hd2, hQ, hlink2⟩ := hbody _ _ b c2 hlink1 h2 hquiet
  refine ⟨b', { d2 with scopes := d2.scopes.pop, callDepth := d2.callDepth - 1 }, ?_, hQ, ?_⟩
  · refine run_bind_eq_some.mpr ⟨(), _, rfl, ?_⟩
    exact run_bind_eq_some.mpr ⟨b', d2, hd2, rfl⟩
  · exact { hlink2 with
      scopes := hclose _ _ hlink2.scopes, callDepth_eq := by simp only [hlink2.callDepth_eq] }

omit hev in
theorem apply {d d' : Definition} {line line' : Nat} {values : List (Option Value)}
    {Q : Option Value → Option Value → Prop} (hcall : Callable S F Q ev ev' d d')
    (hsome : ∀ v ∈ values, v.isSome) :
    Mirrors S F Q (apply ev line d values) (apply ev' line' d' values) := by
  obtain ⟨hparams, S', hbind, hclose, hbody⟩ := hcall
  intro c₁ c₂ a c₁' hlink hrun hquiet
  obtain ⟨_, _, h0, hrun⟩ := run_bind_eq_some.mp hrun
  obtain ⟨rfl, rfl⟩ := run_get_eq_some.mp h0
  have hfail : ∀ fault, (Eval.settle line (.error fault) : Eval (Option Value)).run c₁
      ≠ some (a, c₁') := by
    intro fault h
    exact absurd hquiet
      (Nat.not_le.mpr (size_lt_of_report (fun _ => lasting_evolves.pure none) h))
  split at hrun
  · exact absurd hrun (hfail _)
  next hlength =>
  split at hrun
  · exact absurd hrun (hfail _)
  next hdepth =>
  split at hrun
  · exact absurd hrun (hfail _)
  · next hmissing => exact absurd hmissing (bindParams_ne_none hsome)
  next s hs =>
  obtain ⟨t, ht, hst⟩ := hbind _ _ values s hlink.scopes hs
  obtain ⟨b, c₂', hrun', hQ, hlink'⟩ := enter hclose hbody hlink hst hrun hquiet
  refine ⟨b, c₂', ?_, hQ, hlink'⟩
  refine run_bind_eq_some.mpr ⟨c₂, c₂, rfl, ?_⟩
  rw [hparams, if_neg hlength, hlink.maxCallDepth_eq, hlink.callDepth_eq, if_neg hdepth, ht]
  exact hrun'

/-- Calls mirror each other if the arguments and the functions do. -/
theorem call {f : String} {line line' : Nat} {args args' : Option Node}
    {Q : Option Value → Option Value → Prop}
    (hargs : List.Forall₂ (fun n n' => Mirrors S F Eq (ev n) (ev' n')) (argsOf args)
      (argsOf args'))
    (hfun : ∀ c₁ c₂ d, Linked S F c₁ c₂ → c₁.function? f = some d →
      ∃ d', c₂.function? f = some d' ∧ Callable S F Q ev ev' d d') :
    Mirrors S F Q (call ev line f args) (call ev' line' f args') := by
  have hE := lasting_evolves
  intro c₁ c₂ a c₁' hlink hrun hquiet
  obtain ⟨_, _, h0, hrun⟩ := run_bind_eq_some.mp hrun
  obtain ⟨rfl, rfl⟩ := run_get_eq_some.mp h0
  cases hf : c₁.function? f with
  | none =>
    simp only [hf] at hrun
    exact absurd hquiet (Nat.not_le.mpr (size_lt_of_report (fun _ => hE.pure none) hrun))
  | some d =>
    simp only [hf] at hrun
    obtain ⟨d', hf', hcall⟩ := hfun c₁ c₂ d hlink hf
    have hmirror : Mirrors S F Q (Eval.operands ev (argsOf args) >>= Eval.apply ev line d)
        (Eval.operands ev' (argsOf args') >>= Eval.apply ev' line' d') := by
      refine bind (hE.operands hev _) (hE.apply hev line d) (operands hev hargs) ?_
      rintro values _ ⟨rfl, hsome⟩
      exact apply hcall hsome
    obtain ⟨b, c₂', hrun', hQ, hlink'⟩ := hmirror c₁ c₂ a c₁' hlink hrun hquiet
    refine ⟨b, c₂', ?_, hQ, hlink'⟩
    refine run_bind_eq_some.mpr ⟨c₂, c₂, rfl, ?_⟩
    simp only [hf']
    exact hrun'

/-! ## Statements -/

theorem branch {guardNode guardNode' body body' : Node} {id id' line line' bound : Nat}
    {observed : Bool} (hopen : ∀ s t, S s t → S' s.push t.push)
    (hclose : ∀ s t, S' s t → S s.pop t.pop)
    (hguard : Mirrors S F Eq (ev guardNode) (ev' guardNode'))
    (hbody : Mirrors S' F (Agree observed) (ev body) (ev' body')) :
    Mirrors S F (Agree observed) (step ev bound ⟨id, line, .branch guardNode body⟩)
      (step ev' bound ⟨id', line', .branch guardNode' body'⟩) := by
  have hE := lasting_evolves
  refine bind (hE.guard (hev guardNode)) (fun g => ?_) (guard hev hguard) ?_
  · split
    · exact hE.inScope (hev body)
    · exact hE.pure none
  · rintro g _ rfl
    split
    · exact inScope hopen hclose hbody
    · exact Mirrors.pure fun _ => rfl

theorem whileLoop {guardNode guardNode' body body' : Node} {id id' line line' bound : Nat}
    {observed : Bool} (hopen : ∀ s t, S s t → S' s.push t.push)
    (hclose : ∀ s t, S' s t → S s.pop t.pop)
    (hguard : Mirrors S' F Eq (ev guardNode) (ev' guardNode'))
    (hbody : Mirrors S' F (Agree observed) (ev body) (ev' body')) :
    Mirrors S F (Agree observed) (step ev bound ⟨id, line, .whileLoop guardNode body⟩)
      (step ev' bound ⟨id', line', .whileLoop guardNode' body'⟩) :=
  inScope hopen hclose
    (repeatWhile hev (hev body) hguard hbody bound none none fun _ => rfl)

theorem forLoop {start start' guardNode guardNode' stepNode stepNode' body body' : Node}
    {id id' line line' bound : Nat} {observed : Bool}
    (hopen : ∀ s t, S s t → S' s.push t.push) (hclose : ∀ s t, S' s t → S s.pop t.pop)
    (hstart : Mirrors S' F Eq (ev start) (ev' start'))
    (hguard : Mirrors S' F Eq (ev guardNode) (ev' guardNode'))
    (hstep : Mirrors S' F Eq (ev stepNode) (ev' stepNode'))
    (hbody : Mirrors S' F (Agree observed) (ev body) (ev' body')) :
    Mirrors S F (Agree observed)
      (step ev bound ⟨id, line, .forLoop start guardNode stepNode body⟩)
      (step ev' bound ⟨id', line', .forLoop start' guardNode' stepNode' body'⟩) := by
  have hE := lasting_evolves
  have hturn : Relates Context.Evolves (do
      let result ← ev body
      let _ ← ev stepNode
      return result) :=
    hE.bind (hev body) fun _ => hE.bind (hev stepNode) fun _ => hE.pure _
  refine inScope hopen hclose (bind (hev start)
    (fun _ => hE.repeatWhile hev guardNode hturn bound none) hstart fun _ _ _ => ?_)
  refine repeatWhile hev hturn hguard ?_ bound none none fun _ => rfl
  refine bind (hev body) (fun _ => hE.bind (hev stepNode) fun _ => hE.pure _) hbody ?_
  intro result result' hresult
  exact bind (hev stepNode) (fun _ => hE.pure _) hstep fun _ _ _ => Mirrors.pure hresult

theorem print {value value' : Node} {id id' line line' bound : Nat}
    (h : Mirrors S F Eq (ev value) (ev' value')) :
    Mirrors S F Eq (step ev bound ⟨id, line, .print value⟩)
      (step ev' bound ⟨id', line', .print value'⟩) := by
  have hE := lasting_evolves
  refine bind (hev value)
    (fun _ => hE.bind (.modify fun c => hE.write c _) fun _ => hE.pure none) h ?_
  rintro result _ rfl c₁ c₂ a c₁' hlink hrun _
  obtain ⟨_, c1, h1, hrun⟩ := run_bind_eq_some.mp hrun
  obtain ⟨rfl, rfl⟩ := run_pure_eq_some.mp hrun
  obtain rfl := run_modify_eq_some.mp h1
  exact ⟨none, _, rfl, rfl, hlink.write _⟩

theorem assign {name name' value value' : Node} {id id' line line' bound : Nat}
    (hname : name'.name? = name.name?) (hvalue : Mirrors S F Eq (ev value) (ev' value'))
    (h : ∀ x, name.name? = some x → ∀ v s t s', S s t → s.assign x v = (.ok (), s') →
      ∃ t', t.assign x v = (.ok (), t') ∧ S s' t') :
    Mirrors S F Eq (step ev bound ⟨id, line, .assign name value⟩)
      (step ev' bound ⟨id', line', .assign name' value'⟩) := by
  have hE := lasting_evolves
  refine bind (hE.operand (hev value)) (fun a => ?_) (operand hev hvalue) ?_
  · split
    · refine Eval.Relates.get_bind fun c b c' hrun => ?_
      obtain ⟨_, c1, h1, hrun⟩ := run_bind_eq_some.mp hrun
      obtain ⟨-, rfl⟩ := run_pure_eq_some.mp hrun
      exact hE.setScopes (Scopes.allOrNothing_assign _ _ _) (fun s hs => hE.assign hs) h1
    · exact hE.pure none
  · rintro _ _ ⟨v, rfl, rfl⟩
    rw [hname]
    cases hx : name.name? with
    | none => exact Mirrors.pure rfl
    | some x => exact update (h x hx v)

omit hev in
theorem declare {name name' ty ty' : Node} {id id' line line' bound : Nat}
    (hname : name'.name? = name.name?) (hty : ∀ t, ty.form = .ty t ↔ ty'.form = .ty t)
    (h : ∀ x, name.name? = some x → ∀ ty s t s', S s t → s.declare x ty = (.ok (), s') →
      ∃ t', t.declare x ty = (.ok (), t') ∧ S s' t') :
    Mirrors S F Eq (step ev bound ⟨id, line, .declare name ty⟩)
      (step ev' bound ⟨id', line', .declare name' ty'⟩) := by
  simp only [Eval.step, hname]
  split
  · next x t hx ht =>
    simp only [hx, (hty t).mp ht]
    exact update (h x hx t)
  · next hno =>
    split
    · next x t hx ht => exact absurd ((hty t).mpr ht) (hno x t hx)
    · exact Mirrors.pure rfl

theorem defineVariable {name name' value value' : Node} {id id' line line' bound : Nat}
    (hname : name'.name? = name.name?) (hvalue : Mirrors S F Eq (ev value) (ev' value'))
    (h : ∀ x, name.name? = some x → ∀ v s t s', S s t → s.define x v = (.ok (), s') →
      ∃ t', t.define x v = (.ok (), t') ∧ S s' t') :
    Mirrors S F Eq (step ev bound ⟨id, line, .define name value⟩)
      (step ev' bound ⟨id', line', .define name' value'⟩) := by
  have hE := lasting_evolves
  refine bind (hE.required (hev value) _) (fun a => ?_) (required hev hvalue) ?_
  · split
    · refine Eval.Relates.get_bind fun c b c' hrun => ?_
      obtain ⟨_, c1, h1, hrun⟩ := run_bind_eq_some.mp hrun
      obtain ⟨-, rfl⟩ := run_pure_eq_some.mp hrun
      exact hE.setScopes (Scopes.allOrNothing_define _ _ _) (fun s hs => hE.define hs) h1
    · exact hE.pure none
  · rintro _ _ ⟨v, rfl, rfl⟩
    rw [hname]
    cases hx : name.name? with
    | none => exact Mirrors.pure rfl
    | some x => exact update (h x hx v)

theorem cast {value value' ty ty' : Node} {id id' line line' bound : Nat}
    (hty : ∀ t, ty.form = .ty t ↔ ty'.form = .ty t)
    (hvalue : Mirrors S F Eq (ev value) (ev' value')) :
    Mirrors S F Eq (step ev bound ⟨id, line, .cast value ty⟩)
      (step ev' bound ⟨id', line', .cast value' ty'⟩) := by
  simp only [Eval.step]
  split
  · next t ht =>
    rw [(hty t).mp ht]
    exact (transform hev hvalue).weaken fun _ _ => BothYield.eq
  · next hno =>
    split
    · next t ht => exact absurd ((hty t).mpr ht) (hno t)
    · exact Mirrors.pure rfl

omit hev in
theorem read {id id' line line' bound : Nat} {x : String}
    (h : ∀ s t, S s t → t.get x = s.get x) :
    Mirrors S F Eq (step ev bound ⟨id, line, .read x⟩) (step ev' bound ⟨id', line', .read x⟩) := by
  intro c d a c' hlink hrun hquiet
  obtain ⟨_, _, h0, hrun⟩ := run_bind_eq_some.mp hrun
  obtain ⟨rfl, rfl⟩ := run_get_eq_some.mp h0
  split at hrun
  · next value hvalue =>
    obtain ⟨rfl, rfl⟩ := run_pure_eq_some.mp hrun
    refine ⟨value, d, run_bind_eq_some.mpr ⟨d, d, rfl, ?_⟩, rfl, hlink⟩
    rw [h _ _ hlink.scopes, hvalue]
    rfl
  · exact absurd hquiet
      (Nat.not_le.mpr (size_lt_of_report (fun _ => lasting_evolves.pure none) hrun))

end Evaluator

/-! ## Nodes that correspond -/

/-- A tree mirrors every clean run of another. The scopes are the same on both
    sides; the bodies of functions are related. -/
abbrev Follow (N : Node → Node → Prop) (m m' : Eval (Option Value)) : Prop :=
  Mirrors Eq (FunctionTable.Rel (Definition.Tied N)) Eq m m'

section Step

variable {N : Node → Node → Prop} (hN : Node.Recognizes N) {ev ev' : Evaluator}
  (hev : ∀ n, Relates Context.Evolves (ev n)) (ih : ∀ n n', N n n' → Follow N (ev n) (ev' n'))

omit hN in
/-- A function is registered with a related body. -/
theorem register {line line' : Nat} {f g : Definition} (hfg : f.Tied N g) :
    Follow N (Eval.define line f) (Eval.define line' g) := by
  refine define hfg.name_eq ?_ ?_
  · rintro s _ rfl h
    exact h
  · intro fs gs h hnone
    have hrel := h.named? f.name
    rw [hnone] at hrel
    refine ⟨?_, .cons ⟨rfl, hfg⟩ h⟩
    generalize gs.named? f.name = found at hrel
    cases hrel
    rfl

include hN hev ih

theorem statements {ns ns' : List Node} (h : List.Forall₂ N ns ns') (last : Option Value) :
    Follow N (Eval.sequence ev last ns) (Eval.sequence ev' last ns') :=
  sequence hev (h.imp fun n n' hn => ⟨hN.isComment_eq hn, ih n n' hn⟩) last

omit hN in
/-- A call of the same function with related arguments. -/
theorem callRelated {f : String} {line line' : Nat} {args args' : Option Node}
    (hargs : List.Forall₂ N (argsOf args) (argsOf args')) :
    Follow N (Eval.call ev line f args) (Eval.call ev' line' f args') := by
  refine call hev (hargs.imp fun n n' hn => ih n n' hn) ?_
  intro c₁ c₂ d hlink hd
  obtain ⟨d', hd', hbody⟩ : ∃ d', c₂.function? f = some d' ∧ d.Tied N d' := by
    have hrel : Option.Rel _ (c₁.function? f) (c₂.function? f) :=
      hlink.functions.named? f
    rw [hd] at hrel
    generalize c₂.function? f = found at hrel
    cases hrel with
    | some h => exact ⟨_, rfl, h⟩
  refine ⟨d', hd', hbody.params_eq, Eq, ?_, ?_, ih _ _ hbody.body⟩
  · rintro s _ values s' rfl hs
    exact ⟨s', hs, rfl⟩
  · rintro s _ rfl
    rfl

/-! Over the same scopes on both sides the rules need no more than their parts. -/

omit hN hev ih in
theorem push_eq (s t : Scopes) (h : s = t) : s.push = t.push := congrArg _ h

omit hN hev ih in
theorem pop_eq (s t : Scopes) (h : s = t) : s.pop = t.pop := congrArg _ h

omit hN hev ih in
/-- The same change of the same scopes. -/
theorem change_eq (f : Scopes → Change Unit Scopes) (s t s' : Scopes) (h : s = t)
    (hs : f s = (.ok (), s')) : ∃ t', f t = (.ok (), t') ∧ s' = t' :=
  ⟨s', h ▸ hs, rfl⟩

variable {id id' line line' bound : Nat}

omit hN in
theorem branchRelated {g g' b b' : Node} (hguard : N g g') (hbody : N b b') :
    Follow N (Eval.step ev bound ⟨id, line, .branch g b⟩)
      (Eval.step ev' bound ⟨id', line', .branch g' b'⟩) :=
  (branch hev push_eq pop_eq (ih _ _ hguard)
    ((ih _ _ hbody).weaken fun _ _ => agree_iff_eq.mpr)).weaken fun _ _ => agree_iff_eq.mp

omit hN in
theorem whileRelated {g g' b b' : Node} (hguard : N g g') (hbody : N b b') :
    Follow N (Eval.step ev bound ⟨id, line, .whileLoop g b⟩)
      (Eval.step ev' bound ⟨id', line', .whileLoop g' b'⟩) :=
  (whileLoop hev push_eq pop_eq (ih _ _ hguard)
    ((ih _ _ hbody).weaken fun _ _ => agree_iff_eq.mpr)).weaken fun _ _ => agree_iff_eq.mp

omit hN in
theorem forRelated {a a' g g' s s' b b' : Node} (hstart : N a a') (hguard : N g g')
    (hstep : N s s') (hbody : N b b') :
    Follow N (Eval.step ev bound ⟨id, line, .forLoop a g s b⟩)
      (Eval.step ev' bound ⟨id', line', .forLoop a' g' s' b'⟩) :=
  (forLoop hev push_eq pop_eq (ih _ _ hstart) (ih _ _ hguard) (ih _ _ hstep)
    ((ih _ _ hbody).weaken fun _ _ => agree_iff_eq.mpr)).weaken fun _ _ => agree_iff_eq.mp

omit hN in
theorem combineRelated {l l' r r' : Node} (hl : N l l') (hr : N r r')
    (f : Value → Value → Except Fault Value) :
    Follow N (Eval.combine ev line l r f) (Eval.combine ev' line' l' r' f) :=
  (combine hev (ih _ _ hl) (ih _ _ hr)).weaken fun _ _ => BothYield.eq

omit hN hev ih in
theorem functionRelated {name name' body body' : Node} {params params' : Option Node}
    (hname : name'.name? = name.name?) (hparams : paramsOf params' = paramsOf params)
    (hbody : N body body') :
    Follow N (Eval.step ev bound ⟨id, line, .function name params body⟩)
      (Eval.step ev' bound ⟨id', line', .function name' params' body'⟩) := by
  simp only [Eval.step, hname]
  split
  · exact register ⟨rfl, hparams, hbody⟩
  · exact Mirrors.pure rfl

omit hN in
theorem callStatement {name name' : Node} {args args' : Option Node}
    (hname : name'.name? = name.name?) (hargs : List.Forall₂ N (argsOf args) (argsOf args')) :
    Follow N (Eval.step ev bound ⟨id, line, .call name args⟩)
      (Eval.step ev' bound ⟨id', line', .call name' args'⟩) := by
  simp only [Eval.step, hname]
  split
  · exact callRelated hev ih hargs
  · exact Mirrors.pure rfl

/-- **Rules applied to nodes that correspond mirror each other**, if related nodes
    do. -/
theorem step {n n' : Node} (h : n.Corresponds N n') :
    Follow N (Eval.step ev bound n) (Eval.step ev' bound n') := by
  cases h with
  | block h =>
    show Follow N (Eval.sequence ev none _) (Eval.sequence ev' none _)
    rw [← sequence_filter ev, ← sequence_filter ev']
    exact statements hN hev ih h none
  | same pairs hchildren hnames =>
  cases pairs with
  | program body => exact ih _ _ (hchildren body (by simp [Form.children]))
  | block ns =>
    refine statements hN hev ih ?_ none
    rw [List.forall₂_map_left_iff, List.forall₂_map_right_iff, List.forall₂_same]
    exact hchildren
  | scope body =>
    exact inScope push_eq pop_eq (ih _ _ (hchildren body (by simp [Form.children])))
  | branch guardNode body =>
    obtain ⟨hguard, hbody⟩ := forall_mem_two.mp hchildren
    exact branchRelated hev ih hguard hbody
  | whileLoop guardNode body =>
    obtain ⟨hguard, hbody⟩ := forall_mem_two.mp hchildren
    exact whileRelated hev ih hguard hbody
  | forLoop start guardNode stepNode body =>
    exact forRelated hev ih (hchildren start (by simp [Form.children]))
      (hchildren guardNode (by simp [Form.children]))
      (hchildren stepNode (by simp [Form.children])) (hchildren body (by simp [Form.children]))
  | relation rel left right =>
    obtain ⟨hleft, hright⟩ := forall_mem_two.mp hchildren
    exact combineRelated hev ih hleft hright _
  | arith op left right =>
    obtain ⟨hleft, hright⟩ := forall_mem_two.mp hchildren
    exact combineRelated hev ih hleft hright _
  | print value => exact print hev (ih _ _ (hchildren value (by simp [Form.children])))
  | assign name value =>
    exact assign hev (hnames name (by simp [Form.names]))
      (ih _ _ (hchildren value (by simp [Form.children]))) fun x _ v =>
        change_eq fun s => s.assign x v
  | declare name ty =>
    exact declare (hnames name (by simp [Form.names]))
      (hN.ty_iff (hchildren ty (by simp [Form.children]))) fun x _ t =>
        change_eq fun s => s.declare x t
  | define name value =>
    exact defineVariable hev (hnames name (by simp [Form.names]))
      (ih _ _ (hchildren value (by simp [Form.children]))) fun x _ v =>
        change_eq fun s => s.define x v
  | cast value ty =>
    exact cast hev (hN.ty_iff (hchildren ty (by simp [Form.children])))
      (ih _ _ (hchildren value (by simp [Form.children])))
  | function name params body =>
    refine functionRelated (hnames name (by simp [Form.names])) ?_
      (hchildren body (by simp [Form.children]))
    cases params with
    | none => rfl
    | some pair => exact hN.paramsOf_eq (hchildren pair (by simp [Form.children]))
  | call name args =>
    refine callStatement hev ih (hnames name (by simp [Form.names])) ?_
    cases args with
    | none => exact .nil
    | some pair => exact hN.argsOf (hchildren pair (by simp [Form.children]))
  | math fn argument =>
    exact (transform hev (ih _ _ (hchildren argument (by simp [Form.children])))).weaken
      fun _ _ => BothYield.eq
  | read x => exact read fun s t h => congrArg (fun s => s.get x) h.symm
  | _ => exact Mirrors.pure rfl

end Step

end Mirrors

end Scriptlet
