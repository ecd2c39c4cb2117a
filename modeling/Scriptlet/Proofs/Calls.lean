import Scriptlet.Proofs.Bound
import Scriptlet.Proofs.Output
import Scriptlet.Proofs.Simulation

/-!
# Calls

The evaluator looks up the function, evaluates the arguments, compares their number with
that of the parameters, asks whether there is room for another call, and then binds one
parameter after the other in a new scope. Any of these can fail, the last one when some
parameters have been bound already, and an absent argument is given up without a report
of its own.

Here all this is said once, without the evaluator: `Accepts` is the condition under which
a call goes through, `Refused` lists what stands in its way, each with its report, and
`Arguments` is the evaluation of the arguments as a relation between contexts.

Results:
* `Arguments.size_lt`: an absent argument has been reported.
* `bindParams_of_converts`, `bindParams_of_unbound`: what binding the parameters comes to.
* `find?_frame`: the scope of a call binds the parameters and nothing else.
* `refused_iff`: a call is refused just if it is not accepted.
* `refused_frame`: what is left of a call that is refused.
* `evaluates_call`: the contract of calls.
-/

namespace Scriptlet

open Eval

/-! ## Arguments -/

/-- Evaluating a node whose value is needed. A missing value is reported here unless a
    report has been added by then. -/
inductive EvaluatesOperand (n : Node) (c : Context) : Option Value → Context → Prop
  | present {v : Value} {c' : Context} : Evaluates n c (some v) c' →
    EvaluatesOperand n c (some v) c'
  | reported {c' : Context} : Evaluates n c none c' →
    c'.diagnostics.size ≠ c.diagnostics.size → EvaluatesOperand n c none c'
  | missing {c' : Context} : Evaluates n c none c' →
    c'.diagnostics.size = c.diagnostics.size →
    EvaluatesOperand n c none (c'.report (.mismatch (.noValue n.name?)) n.line)

/-- Evaluating arguments, each in the context that the one before it leaves. -/
inductive Arguments : List Node → Context → List (Option Value) → Context → Prop
  | nil (c : Context) : Arguments [] c [] c
  | cons {n : Node} {ns : List Node} {c c₁ c' : Context} {value : Option Value}
      {values : List (Option Value)} : EvaluatesOperand n c value c₁ →
    Arguments ns c₁ values c' → Arguments (n :: ns) c (value :: values) c'

theorem evaluatesOperand_iff {n : Node} {c c' : Context} {value : Option Value} :
    EvaluatesOperand n c value c' ↔
      ∃ bound, (operand (eval bound) n).run c = some (value, c') := by
  constructor
  · intro h
    cases h with
    | present h =>
      obtain ⟨bound, h⟩ := h
      exact ⟨bound, run_required_some h⟩
    | reported h hsize =>
      obtain ⟨bound, h⟩ := h
      refine ⟨bound, run_bind_eq_some.mpr ⟨c, c, rfl, run_bind_eq_some.mpr ⟨none, c', h, ?_⟩⟩⟩
      refine run_bind_eq_some.mpr ⟨c', c', rfl, ?_⟩
      rw [if_neg fun h => hsize h.2]
      rfl
    | @missing c' h hsize =>
      obtain ⟨bound, h⟩ := h
      refine ⟨bound, run_bind_eq_some.mpr ⟨c, c, rfl, run_bind_eq_some.mpr ⟨none, c', h, ?_⟩⟩⟩
      refine run_bind_eq_some.mpr ⟨c', c', rfl, ?_⟩
      rw [if_pos ⟨rfl, hsize⟩]
      rfl
  · rintro ⟨bound, h⟩
    obtain ⟨_, _, h0, h⟩ := run_bind_eq_some.mp h
    obtain ⟨rfl, rfl⟩ := run_get_eq_some.mp h0
    obtain ⟨v, c₁, h1, h⟩ := run_bind_eq_some.mp h
    obtain ⟨_, _, h2, h⟩ := run_bind_eq_some.mp h
    obtain ⟨rfl, rfl⟩ := run_get_eq_some.mp h2
    cases v with
    | some v =>
      rw [if_neg (by simp)] at h
      obtain ⟨rfl, rfl⟩ := run_pure_eq_some.mp h
      exact .present ⟨bound, h1⟩
    | none =>
      split at h
      · next hsize =>
        obtain ⟨_, _, h3, h⟩ := run_bind_eq_some.mp h
        obtain rfl := run_modify_eq_some.mp h3
        obtain ⟨rfl, rfl⟩ := run_pure_eq_some.mp h
        exact .missing ⟨bound, h1⟩ hsize.2
      · next hsize =>
        obtain ⟨rfl, rfl⟩ := run_pure_eq_some.mp h
        exact .reported ⟨bound, h1⟩ fun h => hsize ⟨rfl, h⟩

theorem arguments_iff {ns : List Node} {c c' : Context} {values : List (Option Value)} :
    Arguments ns c values c' ↔
      ∃ bound, (operands (eval bound) ns).run c = some (values, c') := by
  constructor
  · intro h
    induction h with
    | nil c => exact ⟨0, rfl⟩
    | cons hn _ ih =>
      obtain ⟨b₁, h1⟩ := evaluatesOperand_iff.mp hn
      obtain ⟨b₂, h2⟩ := ih
      have h1 := Extends.operand (eval_mono (Nat.le_max_left b₁ b₂)) _ _ _ h1
      have h2 := Extends.operands (eval_mono (Nat.le_max_right b₁ b₂)) _ _ _ h2
      refine ⟨max b₁ b₂, run_bind_eq_some.mpr ⟨_, _, h1, run_bind_eq_some.mpr ⟨_, _, h2, ?_⟩⟩⟩
      rfl
  · rintro ⟨bound, h⟩
    induction ns generalizing c values with
    | nil =>
      obtain ⟨rfl, rfl⟩ := run_pure_eq_some.mp h
      exact .nil c
    | cons n ns ih =>
      obtain ⟨v, c₁, h1, h⟩ := run_bind_eq_some.mp h
      obtain ⟨vs, c₂, h2, h⟩ := run_bind_eq_some.mp h
      obtain ⟨rfl, rfl⟩ := run_pure_eq_some.mp h
      exact .cons (evaluatesOperand_iff.mpr ⟨bound, h1⟩) (ih h2)

/-- An operand that is absent has been reported. -/
theorem EvaluatesOperand.size_lt {n : Node} {c c' : Context}
    (h : EvaluatesOperand n c none c') : c.diagnostics.size < c'.diagnostics.size := by
  cases h with
  | reported h hsize =>
    obtain ⟨bound, h⟩ := h
    have hle := (evolves_of_eval h).size_le
    omega
  | missing h hsize =>
    rw [Context.report, size_record]
    omega

section Lasting

variable {R : Context → Context → Prop} {c c' : Context}

theorem EvaluatesOperand.relates (hR : Lasting R) {n : Node} {value : Option Value}
    (h : EvaluatesOperand n c value c') : R c c' := by
  obtain ⟨bound, h⟩ := evaluatesOperand_iff.mp h
  exact hR.operand (hR.relates_eval bound n) _ _ _ h

theorem Arguments.relates (hR : Lasting R) {ns : List Node} {values : List (Option Value)}
    (h : Arguments ns c values c') : R c c' := by
  induction h with
  | nil c => exact hR.refl c
  | cons hn _ ih => exact hR.trans (hn.relates hR) ih

end Lasting

/-- **An absent argument has been reported** by the time all arguments are evaluated. -/
theorem Arguments.size_lt {ns : List Node} {c c' : Context} {values : List (Option Value)}
    (h : Arguments ns c values c') (habsent : none ∈ values) :
    c.diagnostics.size < c'.diagnostics.size := by
  induction h with
  | nil c => cases habsent
  | cons hn hns ih =>
    have hn_le := (hn.relates lasting_evolves).size_le
    have hns_le := (hns.relates lasting_evolves).size_le
    rcases List.mem_cons.mp habsent with rfl | habsent
    · have hlt := hn.size_lt
      omega
    · have hlt := ih habsent
      omega

/-! ## Parameters -/

/-- As many values as there are parameters, each converted to the type of its
    parameter. -/
inductive Converts : List (String × Ty) → List (Option Value) → List Value → Prop
  | nil : Converts [] [] []
  | cons {x : String} {ty : Ty} {a w : Value} {params : List (String × Ty)}
      {values : List (Option Value)} {ws : List Value} : a.cast ty = .ok w →
    Converts params values ws → Converts ((x, ty) :: params) (some a :: values) (w :: ws)

/-- The scope that binds parameters to values, the last one first. -/
def frame (params : List (String × Ty)) (ws : List Value) : Scope :=
  (List.zipWith (fun p w => (p.1, ⟨p.2, some w⟩)) params ws).reverse

/-- The call of a function goes through: its arguments are as many as its parameters and
    can be converted, the parameters can be bound, and there is room for another call. -/
structure Accepts (c : Context) (d : Definition) (values : List (Option Value))
    (ws : List Value) : Prop where
  depth : c.callDepth < c.maxCallDepth
  converts : Converts d.params values ws
  unreserved : ∀ p ∈ d.params, isReserved p.1 = false
  distinct : (d.params.map Prod.fst).Nodup

/-- The first parameter that cannot be bound, when those before it have been bound in a
    scope, and the fault that is reported for it. An absent argument has been reported
    before. -/
inductive Unbound : Scope → List (String × Ty) → List (Option Value) → Option Fault → Prop
  | absent {scope : Scope} {p : String × Ty} {params : List (String × Ty)}
      {values : List (Option Value)} : Unbound scope (p :: params) (none :: values) none
  | conversion {scope : Scope} {x : String} {ty : Ty} {params : List (String × Ty)} {a : Value}
      {values : List (Option Value)} {fault : Fault} : a.cast ty = .error fault →
    Unbound scope ((x, ty) :: params) (some a :: values) (some fault)
  | reserved {scope : Scope} {x : String} {ty : Ty} {params : List (String × Ty)} {a w : Value}
      {values : List (Option Value)} : a.cast ty = .ok w → isReserved x = true →
    Unbound scope ((x, ty) :: params) (some a :: values) (some (.reservedName x))
  | duplicate {scope : Scope} {x : String} {ty : Ty} {params : List (String × Ty)} {a w : Value}
      {values : List (Option Value)} : a.cast ty = .ok w → isReserved x = false →
    (scope.find? x).isSome → Unbound scope ((x, ty) :: params) (some a :: values)
      (some (.alreadyExists x))
  | later {scope : Scope} {x : String} {ty : Ty} {params : List (String × Ty)} {a w : Value}
      {values : List (Option Value)} {fault : Option Fault} : a.cast ty = .ok w →
    isReserved x = false → scope.find? x = none →
    Unbound ((x, ⟨ty, some w⟩) :: scope) params values fault →
    Unbound scope ((x, ty) :: params) (some a :: values) fault

/-- The call of a function does not go through, and the fault that is reported for it. -/
inductive Refused (c : Context) (d : Definition) (values : List (Option Value)) :
    Option Fault → Prop
  | arity : values.length ≠ d.params.length →
    Refused c d values (some (.arity d.name d.params.length values.length))
  | depth : values.length = d.params.length → c.maxCallDepth ≤ c.callDepth →
    Refused c d values (some (.callDepth d.name c.maxCallDepth))
  | unbound {fault : Option Fault} : values.length = d.params.length →
    c.callDepth < c.maxCallDepth → Unbound [] d.params values fault → Refused c d values fault

theorem Converts.length_eq {params : List (String × Ty)} {values : List (Option Value)}
    {ws : List Value} (h : Converts params values ws) : values.length = params.length := by
  induction h with
  | nil => rfl
  | cons _ _ ih => rw [List.length_cons, List.length_cons, ih]

theorem frame_cons (x : String) (ty : Ty) (w : Value) (params : List (String × Ty))
    (ws : List Value) :
    frame ((x, ty) :: params) (w :: ws) = frame params ws ++ [(x, ⟨ty, some w⟩)] := by
  unfold frame
  rw [List.zipWith_cons_cons, List.reverse_cons]

theorem bindParams_of_converts {params : List (String × Ty)} {values : List (Option Value)}
    {ws : List Value} (h : Converts params values ws)
    (hunreserved : ∀ p ∈ params, isReserved p.1 = false)
    (hdistinct : (params.map Prod.fst).Nodup) (s : Scopes)
    (hfresh : ∀ p ∈ params, s.top.find? p.1 = none) :
    bindParams s params values = .ok (some (s.setTop (frame params ws ++ s.top))) := by
  induction h generalizing s with
  | nil =>
    show Except.ok (some s) = .ok (some (s.setTop s.top))
    rw [Scopes.setTop_top]
  | @cons x ty a w params values ws hcast _ ih =>
    rw [List.forall_mem_cons] at hunreserved hfresh
    rw [List.map_cons, List.nodup_cons] at hdistinct
    have hty : w.ty = ty := Value.ty_of_cast hcast
    have hdefine : s.define x w = (.ok (), s.setTop ((x, ⟨ty, some w⟩) :: s.top)) :=
      Scopes.define_eq_ok.mpr ⟨hunreserved.1, hfresh.1, by rw [hty]⟩
    simp only [bindParams, hcast, hdefine, Change.made_ok]
    rw [ih hunreserved.2 hdistinct.2, Scopes.top_setTop, Scopes.setTop_setTop, frame_cons,
      List.append_assoc]
    · rfl
    · intro p hp
      rw [Scopes.top_setTop, Scope.find?_cons, if_neg, hfresh.2 p hp]
      rintro hx
      exact hdistinct.1 (List.mem_map.mpr ⟨p, hp, hx⟩)

theorem bindParams_of_unbound {scope : Scope} {params : List (String × Ty)}
    {values : List (Option Value)} {fault : Option Fault}
    (h : Unbound scope params values fault) (s : Scopes) (hs : s.top = scope) :
    bindParams s params values = fault.elim (.ok none) .error := by
  induction h generalizing s with
  | absent => rfl
  | conversion hcast => simp only [bindParams, hcast, Option.elim_some]
  | reserved hcast hreserved =>
    simp only [bindParams, hcast, Scopes.define_of_reserved hreserved, Change.made_error,
      Option.elim_some]
  | duplicate hcast hreserved hbound =>
    simp only [bindParams, hcast, Scopes.define_of_bound hreserved (hs ▸ hbound),
      Change.made_error, Option.elim_some]
  | @later scope x ty params a w values fault hcast hreserved hfresh _ ih =>
    have hty : w.ty = ty := Value.ty_of_cast hcast
    have hdefine : s.define x w = (.ok (), s.setTop ((x, ⟨ty, some w⟩) :: s.top)) :=
      Scopes.define_eq_ok.mpr ⟨hreserved, hs ▸ hfresh, by rw [hty]⟩
    simp only [bindParams, hcast, hdefine, Change.made_ok]
    exact ih _ (by rw [Scopes.top_setTop, hs])

/-- Either all parameters can be bound or one of them is the first that cannot. -/
theorem converts_or_unbound {params : List (String × Ty)} :
    ∀ {values : List (Option Value)}, values.length = params.length → ∀ scope : Scope,
      (∃ ws, Converts params values ws ∧ (∀ p ∈ params, isReserved p.1 = false) ∧
        (params.map Prod.fst).Nodup ∧ ∀ p ∈ params, scope.find? p.1 = none) ∨
      ∃ fault, Unbound scope params values fault := by
  induction params with
  | nil =>
    intro values hlength scope
    obtain rfl := List.eq_nil_of_length_eq_zero hlength
    exact .inl ⟨[], .nil, nofun, .nil, nofun⟩
  | cons p params ih =>
    obtain ⟨x, ty⟩ := p
    intro values hlength scope
    match values, hlength with
    | none :: values, _ => exact .inr ⟨_, .absent⟩
    | some a :: values, hlength =>
      cases hcast : a.cast ty with
      | error fault => exact .inr ⟨_, .conversion hcast⟩
      | ok w =>
        cases hreserved : isReserved x with
        | true => exact .inr ⟨_, .reserved hcast hreserved⟩
        | false =>
          cases hbound : scope.find? x with
          | some v => exact .inr ⟨_, .duplicate hcast hreserved (by rw [hbound]; rfl)⟩
          | none =>
            rcases ih (Nat.succ.inj hlength) ((x, ⟨ty, some w⟩) :: scope) with
              ⟨ws, hconverts, hunreserved, hdistinct, hfresh⟩ | ⟨fault, hfault⟩
            · -- a later parameter of the same name would find this one
              have hne : ∀ p ∈ params, p.1 ≠ x ∧ scope.find? p.1 = none := by
                intro p hp
                have hp := hfresh p hp
                rw [Scope.find?_cons] at hp
                split at hp
                · cases hp
                · next hne => exact ⟨hne, hp⟩
              refine .inl ⟨w :: ws, .cons hcast hconverts, ?_, ?_, ?_⟩
              · exact List.forall_mem_cons.mpr ⟨hreserved, hunreserved⟩
              · rw [List.map_cons, List.nodup_cons, List.mem_map]
                exact ⟨fun ⟨p, hp, hx⟩ => (hne p hp).1 hx, hdistinct⟩
              · exact List.forall_mem_cons.mpr ⟨hbound, fun p hp => (hne p hp).2⟩
            · exact .inr ⟨fault, .later hcast hreserved hbound hfault⟩

theorem Unbound.none_mem {scope : Scope} {params : List (String × Ty)}
    {values : List (Option Value)} (h : Unbound scope params values none) : none ∈ values := by
  generalize hfault : (none : Option Fault) = fault at h
  induction h with
  | absent => exact List.mem_cons_self
  | later _ _ _ _ ih => exact List.mem_cons_of_mem _ (ih hfault)
  | _ => cases hfault

/-- The scope of a call binds the parameters, each to its value under its type, and
    nothing else. -/
theorem find?_frame {params : List (String × Ty)} {ws : List Value}
    (hdistinct : (params.map Prod.fst).Nodup) (y : String) (v : Variable) :
    (frame params ws).find? y = some v ↔
      ∃ ty w, ((y, ty), w) ∈ params.zip ws ∧ v = ⟨ty, some w⟩ := by
  induction params generalizing ws v with
  | nil => simp [frame, Scope.find?]
  | cons p params ih =>
    obtain ⟨x, ty⟩ := p
    cases ws with
    | nil => simp [frame, Scope.find?]
    | cons w ws =>
      rw [List.map_cons, List.nodup_cons] at hdistinct
      have hfind : (frame ((x, ty) :: params) (w :: ws)).find? y =
          ((frame params ws).find? y).or (if y = x then some ⟨ty, some w⟩ else none) := by
        have hlast : Scope.find? [(x, ⟨ty, some w⟩)] y =
            if y = x then some ⟨ty, some w⟩ else none := Scope.find?_cons x y _ []
        rw [frame_cons, ← hlast]
        exact List.lookup_append
      rw [hfind, List.zip_cons_cons]
      simp only [List.mem_cons, Prod.mk.injEq, or_and_right, exists_or, ← ih hdistinct.2]
      by_cases hx : y = x
      · subst hx
        have hnone : (frame params ws).find? y = none := by
          refine Option.eq_none_iff_forall_ne_some.mpr fun u hu => ?_
          obtain ⟨ty', w', hmem, -⟩ := (ih hdistinct.2 u).mp hu
          exact hdistinct.1 (List.mem_map.mpr ⟨(y, ty'), (List.of_mem_zip hmem).1, rfl⟩)
        simp [hnone, eq_comm]
      · simp [hx]

/-! ## Calls -/

namespace Context

/-- The context in which the body of a function is evaluated. -/
def enter (c : Context) (scope : Scope) : Context :=
  { c with
    scopes := { c.scopes with inner := scope :: c.scopes.inner }
    callDepth := c.callDepth + 1 }

/-- The context after the body of a function. -/
def leave (c : Context) : Context :=
  { c with scopes := c.scopes.pop, callDepth := c.callDepth - 1 }

/-- A context after a call that did not go through. -/
def refuse (c : Context) (fault : Option Fault) (line : Nat) : Context :=
  fault.elim c fun fault => c.report fault line

end Context

section Apply

variable {c c' : Context} {d : Definition} {values : List (Option Value)} {ws : List Value}
  {fault : Option Fault} {line : Nat} {value : Option Value}

theorem run_apply_of_accepts (h : Accepts c d values ws) (ev : Evaluator) :
    (apply ev line d values).run c = some (value, c') ↔
      ∃ c₂, (ev d.body).run (c.enter (frame d.params ws)) = some (value, c₂) ∧ c' = c₂.leave := by
  have hbind : bindParams c.scopes.push d.params values =
      .ok (some (c.scopes.push.setTop (frame d.params ws ++ c.scopes.push.top))) :=
    bindParams_of_converts h.converts h.unreserved h.distinct _ fun _ _ => rfl
  rw [Scopes.top_push, List.append_nil] at hbind
  have happly : (apply ev line d values).run c =
      (enter ev d (c.scopes.push.setTop (frame d.params ws))).run c := by
    show (if values.length ≠ d.params.length then _ else _ : Eval (Option Value)).run c = _
    rw [if_neg (not_not.mpr h.converts.length_eq), if_neg (Nat.not_le.mpr h.depth), hbind]
  rw [happly]
  constructor
  · intro hrun
    obtain ⟨_, c₁, h1, hrun⟩ := run_bind_eq_some.mp hrun
    obtain rfl := run_modify_eq_some.mp h1
    obtain ⟨a, c₂, h2, hrun⟩ := run_bind_eq_some.mp hrun
    obtain ⟨_, c₃, h3, hrun⟩ := run_bind_eq_some.mp hrun
    obtain rfl := run_modify_eq_some.mp h3
    obtain ⟨rfl, rfl⟩ := run_pure_eq_some.mp hrun
    exact ⟨c₂, h2, rfl⟩
  · rintro ⟨c₂, h2, rfl⟩
    refine run_bind_eq_some.mpr ⟨(), _, rfl, run_bind_eq_some.mpr ⟨value, c₂, h2, ?_⟩⟩
    exact run_bind_eq_some.mpr ⟨(), _, rfl, rfl⟩

theorem run_apply_of_refused (h : Refused c d values fault) (ev : Evaluator) :
    (apply ev line d values).run c = some (none, c.refuse fault line) := by
  refine run_bind_eq_some.mpr ⟨c, c, rfl, ?_⟩
  cases h with
  | arity hlength =>
    rw [if_pos hlength]
    rfl
  | depth hlength hdepth =>
    rw [if_neg (not_not.mpr hlength), if_pos hdepth]
    rfl
  | unbound hlength hdepth hunbound =>
    rw [if_neg (not_not.mpr hlength), if_neg (Nat.not_le.mpr hdepth),
      bindParams_of_unbound hunbound c.scopes.push rfl]
    cases fault <;> rfl

/-- A call goes through or it does not. -/
theorem accepts_or_refused (c : Context) (d : Definition) (values : List (Option Value)) :
    (∃ ws, Accepts c d values ws) ∨ ∃ fault, Refused c d values fault := by
  by_cases hlength : values.length = d.params.length
  · rcases Nat.lt_or_ge c.callDepth c.maxCallDepth with hdepth | hdepth
    · rcases converts_or_unbound hlength [] with ⟨ws, h, hunreserved, hdistinct, -⟩ | ⟨fault, h⟩
      · exact .inl ⟨ws, hdepth, h, hunreserved, hdistinct⟩
      · exact .inr ⟨fault, .unbound hlength hdepth h⟩
    · exact .inr ⟨_, .depth hlength hdepth⟩
  · exact .inr ⟨_, .arity hlength⟩

theorem refused_iff : (∃ fault, Refused c d values fault) ↔ ¬ ∃ ws, Accepts c d values ws := by
  constructor
  · rintro ⟨fault, hrefused⟩ ⟨ws, haccepts⟩
    cases hrefused with
    | arity hlength => exact hlength haccepts.converts.length_eq
    | depth _ hdepth => exact absurd haccepts.depth (Nat.not_lt.mpr hdepth)
    | unbound _ _ hunbound =>
      have hok := bindParams_of_converts haccepts.converts haccepts.unreserved haccepts.distinct
        c.scopes.push fun _ _ => rfl
      rw [bindParams_of_unbound hunbound c.scopes.push rfl] at hok
      cases fault <;> cases hok
  · exact (accepts_or_refused c d values).resolve_left

end Apply

section Node

variable {id line id' line' : Nat} {f : String} {args : Option Node} {c c' : Context}
  {value : Option Value}

theorem run_eval_call (bound : Nat) :
    (eval (bound + 1) ⟨id, line, .call ⟨id', line', .binder f⟩ args⟩).run c =
      (match c.function? f with
        | none => settle line (.error (.unknownFunction f))
        | some d => operands (eval bound) (argsOf args) >>= fun values =>
          apply (eval bound) line d values).run c := rfl

theorem evaluates_call_unknown (hnone : c.function? f = none) :
    Evaluates ⟨id, line, .call ⟨id', line', .binder f⟩ args⟩ c value c' ↔
      value = none ∧ c' = c.report (.unknownFunction f) line := by
  constructor
  · rintro ⟨bound, h⟩
    cases bound with
    | zero => cases h
    | succ bound =>
      rw [run_eval_call, hnone] at h
      cases h
      exact ⟨rfl, rfl⟩
  · rintro ⟨rfl, rfl⟩
    refine ⟨1, ?_⟩
    rw [run_eval_call, hnone]
    rfl

/-- A call evaluates its arguments if the function exists. -/
theorem evaluates_call_iff {d : Definition} (hd : c.function? f = some d) :
    Evaluates ⟨id, line, .call ⟨id', line', .binder f⟩ args⟩ c value c' ↔
      ∃ values c₁, Arguments (argsOf args) c values c₁ ∧
        ∃ bound, (apply (eval bound) line d values).run c₁ = some (value, c') := by
  constructor
  · rintro ⟨bound, h⟩
    cases bound with
    | zero => cases h
    | succ bound =>
      rw [run_eval_call, hd] at h
      obtain ⟨values, c₁, h1, h2⟩ := run_bind_eq_some.mp h
      exact ⟨values, c₁, arguments_iff.mpr ⟨bound, h1⟩, bound, h2⟩
  · rintro ⟨values, c₁, hargs, b₂, h2⟩
    obtain ⟨b₁, h1⟩ := arguments_iff.mp hargs
    refine ⟨max b₁ b₂ + 1, ?_⟩
    rw [run_eval_call, hd]
    refine run_bind_eq_some.mpr ⟨values, c₁, ?_, ?_⟩
    · exact Extends.operands (eval_mono (Nat.le_max_left b₁ b₂)) _ _ _ h1
    · exact Extends.apply (eval_mono (Nat.le_max_right b₁ b₂)) _ _ _ _ _ h2

end Node

/-- **Nothing but a report is left of a call that does not go through.** -/
theorem refused_frame {c c₁ : Context} {ns : List Node} {values : List (Option Value)}
    {d : Definition} {fault : Option Fault} (hargs : Arguments ns c values c₁)
    (hrefused : Refused c₁ d values fault) (line : Nat) :
    c.diagnostics.size < (c₁.refuse fault line).diagnostics.size ∧
      (c₁.refuse fault line).scopes = c₁.scopes ∧
      (c₁.refuse fault line).functions = c₁.functions ∧
      (c₁.refuse fault line).callDepth = c₁.callDepth ∧
      (c.echo = false → (c₁.refuse fault line).output = c₁.output) := by
  cases fault with
  | none =>
    cases hrefused with
    | unbound _ _ hunbound =>
      exact ⟨hargs.size_lt hunbound.none_mem, rfl, rfl, rfl, fun _ => rfl⟩
  | some fault =>
    have hle := (hargs.relates lasting_evolves).size_le
    have hsize := size_record c₁ (.runtime fault line)
    refine ⟨?_, c₁.scopes_record _, c₁.functions_record _, c₁.callDepth_record _,
      fun hecho => ?_⟩
    · show c.diagnostics.size < (c₁.record (.runtime fault line)).diagnostics.size
      omega
    · have hecho : c₁.echo = false := hargs.relates (lasting_echo false) hecho
      show (c₁.record (.runtime fault line)).output = c₁.output
      unfold Context.record
      rw [hecho]
      rfl

/-- **The contract of calls.** If no function has the name, this is reported and nothing
    is evaluated. Otherwise the arguments are evaluated from left to right, each in the
    context that the one before it leaves, and then either the body is evaluated, once, one
    call deeper and with one more scope, which binds the parameters to the converted
    arguments and nothing else, or there is no value, and all that has changed since are the
    diagnostics; there is then one more than before the call. -/
theorem evaluates_call (id line id' line' : Nat) (f : String) (args : Option Node)
    (c c' : Context) (value : Option Value) :
    let n : Node := ⟨id, line, .call ⟨id', line', .binder f⟩ args⟩
    (c.function? f = none →
      (Evaluates n c value c' ↔ value = none ∧ c' = c.report (.unknownFunction f) line)) ∧
    ∀ d, c.function? f = some d →
      (Evaluates n c value c' ↔ ∃ values c₁, Arguments (argsOf args) c values c₁ ∧
        ((∃ ws c₂, Accepts c₁ d values ws ∧
            Evaluates d.body (c₁.enter (frame d.params ws)) value c₂ ∧ c' = c₂.leave ∧
            ∀ x v, (frame d.params ws).find? x = some v ↔
              ∃ ty w, ((x, ty), w) ∈ d.params.zip ws ∧ v = ⟨ty, some w⟩) ∨
          (∀ ws, ¬ Accepts c₁ d values ws) ∧ ∃ fault, Refused c₁ d values fault ∧
            value = none ∧ c' = c₁.refuse fault line ∧
            c.diagnostics.size < c'.diagnostics.size ∧ c'.scopes = c₁.scopes ∧
            c'.functions = c₁.functions ∧ c'.callDepth = c₁.callDepth ∧
            (c.echo = false → c'.output = c₁.output))) := by
  intro n
  refine ⟨fun hnone => ?_, fun d hd => ?_⟩
  · exact evaluates_call_unknown hnone
  · rw [evaluates_call_iff hd]
    refine exists₂_congr fun values c₁ => and_congr_right fun hargs => ?_
    constructor
    · rintro ⟨bound, hrun⟩
      rcases accepts_or_refused c₁ d values with ⟨ws, h⟩ | ⟨fault, h⟩
      · obtain ⟨c₂, hbody, rfl⟩ := (run_apply_of_accepts h _).mp hrun
        exact .inl ⟨ws, c₂, h, ⟨bound, hbody⟩, rfl, find?_frame h.distinct⟩
      · have hnot := refused_iff.mp ⟨fault, h⟩
        rw [run_apply_of_refused h] at hrun
        cases hrun
        exact .inr ⟨not_exists.mp hnot, fault, h, rfl, rfl, refused_frame hargs h line⟩
    · rintro (⟨ws, c₂, h, ⟨bound, hbody⟩, rfl, -⟩ | ⟨-, fault, h, rfl, rfl, -⟩)
      · exact ⟨bound, (run_apply_of_accepts h _).mpr ⟨c₂, hbody, rfl⟩⟩
      · exact ⟨0, run_apply_of_refused h _⟩

/-- A string that is converted for a parameter of type `int`, and a name that is not
    declared: the call with it is given up without a report of its own. -/
theorem evaluates_call_of_conversion :
    let twice : Definition :=
      ⟨"twice", [("a", .int)], ⟨0, 1, .arith .add ⟨1, 1, .read "a"⟩ ⟨2, 1, .read "a"⟩⟩⟩
    let c : Context := { Context.initial 128 false true with functions := [⟨twice, "twice"⟩] }
    let calls (argument : Node) : Node :=
      ⟨9, 2, .call ⟨8, 2, .binder "twice"⟩ (some ⟨7, 2, .args [argument]⟩)⟩
    c.function? "twice" = some twice ∧
      Evaluates (calls ⟨6, 2, .str " 12"⟩) c (some (.int 24)) c ∧
      Evaluates (calls ⟨6, 2, .read "x"⟩) c none (c.report (.undeclared "x") 2) := by
  intro twice c calls
  have hname : c.function? "twice" = some twice := rfl
  refine ⟨hname, ?_, ?_⟩
  · refine ((evaluates_call 9 2 8 2 "twice" _ c c _).2 twice hname).mpr
      ⟨[some (.str " 12")], c, .cons (.present ⟨1, rfl⟩) (.nil c),
        .inl ⟨[.int 12], c.enter (frame twice.params [.int 12]), ?_⟩⟩
    refine ⟨⟨by decide, .cons rfl .nil, by decide +kernel, by decide⟩, ⟨2, rfl⟩, rfl, ?_⟩
    exact find?_frame (by decide)
  · refine ((evaluates_call 9 2 8 2 "twice" _ c _ _).2 twice hname).mpr
      ⟨[none], c.report (.undeclared "x") 2,
        .cons (.reported ⟨1, rfl⟩ (by decide)) (.nil _), .inr ⟨?_, none, ?_, rfl, rfl, ?_⟩⟩
    · rintro ws ⟨-, hconverts, -, -⟩
      cases hconverts
    · exact .unbound rfl (by decide) .absent
    · exact ⟨by decide, rfl, rfl, rfl, fun _ => rfl⟩

end Scriptlet
