import Mathlib.Data.List.Nodup
import Scriptlet.Proofs.Evolution
import Scriptlet.Session

/-!
# What holds after every step of a session

Variables keep the type they were declared with: a declaration takes the type of
its first value, an assignment checks it, and a parameter gets a value that was
converted to its type. Reserved names are refused wherever a name is bound, and
a function is only added under a name that no function has. So these properties
survive every move of a running program, in scopes nested as deep as they may
be, and with them every evaluation and every session.

Results:
* `lasting_sound`: no move of a running program makes a sound context unsound.
* `sound_act`: nor does any step of a session.
* `play_invariant`: after every completed step of every session the global scope is
  the only one, no call is open, and the context is sound.
-/

namespace Scriptlet

/-! ## Sound scopes -/

/-- A name that is not reserved, bound to a variable whose value, if it has one,
    is of the declared type. -/
structure Variable.Sound (x : String) (v : Variable) : Prop where
  typed : ∀ value, v.value = some value → value.ty = v.ty
  unreserved : isReserved x = false

namespace Scope

/-- A scope with sound variables only. -/
def Sound (s : Scope) : Prop := ∀ x v, s.find? x = some v → v.Sound x

theorem sound_nil : Sound [] := by
  intro x v h
  cases h

theorem Sound.cons {s : Scope} (hs : s.Sound) {x : String} {v : Variable} (hv : v.Sound x) :
    Sound ((x, v) :: s) := by
  intro y w hw
  rw [find?_cons] at hw
  split at hw
  · next hyx =>
    cases hw
    rw [hyx]
    exact hv
  · exact hs y w hw

/-- Storing a value of the declared type. -/
theorem Sound.store {s : Scope} (hs : s.Sound) {x : String} {v : Variable} {value : Value}
    (hx : s.find? x = some v) (hty : v.ty = value.ty) : (s.store x value).Sound := by
  intro y w hw
  rw [find?_store] at hw
  split at hw
  · next hyx =>
    rw [hyx, hx] at hw
    cases hw
    refine ⟨?_, hyx ▸ (hs x v hx).unreserved⟩
    rintro _ ⟨⟩
    exact hty.symm
  · exact hs y w hw

end Scope

namespace Scopes

/-- Scopes that are all sound. -/
structure Sound (s : Scopes) : Prop where
  inner : ∀ scope ∈ s.inner, scope.Sound
  globals : s.globals.Sound

namespace Sound

variable {s : Scopes}

theorem initial : Scopes.initial.Sound := ⟨by simp [Scopes.initial], Scope.sound_nil⟩

theorem top (hs : s.Sound) : s.top.Sound := by
  unfold Scopes.top
  cases h : s.inner with
  | nil => exact hs.globals
  | cons scope rest => exact hs.inner scope (by simp [h])

theorem setTop (hs : s.Sound) {scope : Scope} (hscope : scope.Sound) : (s.setTop scope).Sound := by
  unfold Scopes.setTop
  split
  · exact ⟨hs.inner, hscope⟩
  · next old rest hinner =>
    refine ⟨List.forall_mem_cons.mpr ⟨hscope, fun t ht => ?_⟩, hs.globals⟩
    exact hs.inner t (by rw [hinner]; exact List.mem_cons_of_mem old ht)

theorem push (hs : s.Sound) : s.push.Sound :=
  ⟨List.forall_mem_cons.mpr ⟨Scope.sound_nil, hs.inner⟩, hs.globals⟩

theorem pop (hs : s.Sound) : s.pop.Sound :=
  ⟨fun scope h => hs.inner scope (List.mem_of_mem_tail h), hs.globals⟩

theorem declare (hs : s.Sound) {s' : Scopes} {x : String} {ty : Ty}
    (h : s.declare x ty = (.ok (), s')) : s'.Sound := by
  obtain ⟨hfree, -, rfl⟩ := declare_eq_ok.mp h
  refine hs.setTop (hs.top.cons ⟨?_, hfree⟩)
  rintro _ ⟨⟩

theorem define (hs : s.Sound) {s' : Scopes} {x : String} {value : Value}
    (h : s.define x value = (.ok (), s')) : s'.Sound := by
  obtain ⟨hfree, -, rfl⟩ := define_eq_ok.mp h
  refine hs.setTop (hs.top.cons ⟨?_, hfree⟩)
  rintro _ ⟨⟩
  rfl

theorem assign (hs : s.Sound) {s' : Scopes} {x : String} {value : Value}
    (h : s.assign x value = (.ok (), s')) : s'.Sound := by
  rcases assign_eq_ok.mp h with ⟨v, hv, hty, rfl⟩ | ⟨-, v, hv, hty, rfl⟩
  · exact hs.setTop (hs.top.store hv hty)
  · exact ⟨hs.inner, hs.globals.store hv hty⟩

/-- The parameters of a call are bound to values of their types. -/
theorem bindParams (hs : s.Sound) {params : List (String × Ty)} {values : List (Option Value)}
    {s' : Scopes} (h : Eval.bindParams s params values = .ok (some s')) : s'.Sound := by
  induction params generalizing s values with
  | nil =>
    cases h
    exact hs
  | cons p params ih =>
    obtain ⟨x, ty⟩ := p
    match values with
    | [] =>
      cases h
      exact hs
    | none :: values => cases h
    | some value :: values =>
      simp only [Eval.bindParams] at h
      split at h
      · cases h
      · split at h
        · cases h
        · next t hdefine => exact ih (hs.define (Change.made_eq_ok.mp hdefine)) h

end Sound

end Scopes

/-! ## Sound contexts -/

/-- A context with sound scopes and with functions under names of their own that are
    not reserved, each name once. -/
structure Context.Sound (c : Context) : Prop where
  scopes : c.scopes.Sound
  named : ∀ e ∈ c.functions, e.name = e.key
  unreserved : ∀ e ∈ c.functions, isReserved e.key = false
  distinct : (c.functions.map Entry.key).Nodup

namespace Context

theorem function?_eq_none {c : Context} {f : String} :
    c.function? f = none ↔ f ∉ c.functions.map Entry.key := by
  simp [function?, FunctionTable.named?]

/-- Where no name occurs twice, each function is found under the name it is kept
    under. -/
theorem function?_key {c : Context} (hc : (c.functions.map Entry.key).Nodup) {e : Entry}
    (he : e ∈ c.functions) : c.function? e.key = some e.toDefinition := by
  cases hfound : c.function? e.key with
  | none => exact absurd (List.mem_map_of_mem he) (function?_eq_none.mp hfound)
  | some d =>
    have hsame : ⟨d, e.key⟩ = e := List.inj_on_of_nodup_map hc (mem_of_function? hfound) he rfl
    rw [← hsame]

namespace Sound

variable {c : Context}

theorem initial (maxCallDepth : Nat) (echo writable : Bool) :
    (Context.initial maxCallDepth echo writable).Sound :=
  ⟨.initial, by simp [Context.initial], by simp [Context.initial], by simp [Context.initial]⟩

theorem setScopes (hc : c.Sound) {s : Scopes} (hs : s.Sound) : { c with scopes := s }.Sound :=
  { hc with scopes := hs }

theorem write (hc : c.Sound) (line : OutputLine) : (c.write line).Sound :=
  { hc with }

theorem record (hc : c.Sound) (d : Diagnostic) : (c.record d).Sound := by
  unfold Context.record
  have hshown : (if c.echo then c.write (.echoed d) else c).Sound := by
    split
    · exact hc.write _
    · exact hc
  exact { hshown with }

theorem register (hc : c.Sound) {c' : Context} {d : Definition} (h : c.register d = .ok c') :
    c'.Sound := by
  obtain ⟨havailable, hnone, rfl⟩ := register_eq_ok.mp h
  have hfree : isReserved d.name = false := by
    unfold Scopes.available at havailable
    split at havailable
    · cases havailable
    · next hfree => simpa using hfree
  refine ⟨hc.scopes, List.forall_mem_cons.mpr ⟨rfl, hc.named⟩,
    List.forall_mem_cons.mpr ⟨hfree, hc.unreserved⟩, ?_⟩
  rw [List.map_cons, List.nodup_cons]
  exact ⟨function?_eq_none.mp hnone, hc.distinct⟩

end Sound

end Context

/-- **No move of a running program makes a sound context unsound.** -/
theorem lasting_sound : Lasting fun c c' => c.Sound → c'.Sound where
  refl _ hc := hc
  trans hab hbc ha := hbc (hab ha)
  record _ d hc := hc.record d
  write _ text hc := hc.write (.printed text)
  declare h hc := hc.setScopes (hc.scopes.declare h)
  define h hc := hc.setScopes (hc.scopes.define h)
  assign h hc := hc.setScopes (hc.scopes.assign h)
  register h hc := hc.register h
  leave h hc := by
    have hc' := h (hc.setScopes hc.scopes.push)
    exact hc'.setScopes hc'.scopes.pop
  returned hs h hc := by
    have hc' := h { hc with scopes := hc.scopes.push.bindParams hs }
    exact { hc' with scopes := hc'.scopes.pop }

/-! ## Sessions -/

/-- A step of a session. Trees and tokens may come from anywhere. -/
inductive Action where
  | tokenize (source : String)
  | parse (source : String)
  | parseTokens (tokens : List Lexed)
  | optimize (n : Node)
  | evaluate (bound : Nat) (n : Node)
  | run (bound : Nat) (source : String)
  | takeDiagnostics

namespace Session

/-- The session after a step, if the step is completed within its bound. -/
def act (s : Session) : Action → Option Session
  | .tokenize source => some (s.tokenize source).2
  | .parse source => some (s.parse source).2
  | .parseTokens tokens => some (s.parseTokens tokens).2
  | .optimize n => some (s.optimize n).2
  | .evaluate bound n => (s.evaluate bound n).map Prod.snd
  | .run bound source => (s.run bound source).map Prod.snd
  | .takeDiagnostics => some s.takeDiagnostics.2

/-- The session after some steps, if all of them are completed. -/
def play (s : Session) : List Action → Option Session
  | [] => some s
  | action :: actions => (s.act action).bind fun s => s.play actions

/-- A session between two steps: the global scope is the only one, no call is
    open, and the context is sound. -/
structure Sound (s : Session) : Prop where
  depth_eq : s.context.scopes.depth = 1
  callDepth_eq : s.context.callDepth = 0
  context : s.context.Sound

theorem sound_start (options : Options) (writable : Bool) : (start options writable).Sound :=
  ⟨rfl, rfl, .initial _ _ _⟩

namespace Sound

variable {s : Session}

theorem recordAll (hs : s.Sound) (errors : List SourceError) : (s.recordAll errors).Sound := by
  induction errors generalizing s with
  | nil => exact hs
  | cons e errors ih =>
    have hfirst := Context.Evolves.record s.context (.source e)
    refine ih (s := { s with context := s.context.record (.source e) }) ⟨?_, ?_, ?_⟩
    · rw [← hs.depth_eq]
      exact congrArg (· + 1) hfirst.scopes.length_eq
    · exact hfirst.callDepth_eq.trans hs.callDepth_eq
    · exact hs.context.record (.source e)

theorem tokenize (hs : s.Sound) (source : String) : (s.tokenize source).2.Sound :=
  hs.recordAll _

theorem parseTokens (hs : s.Sound) (tokens : List Lexed) : (s.parseTokens tokens).2.Sound :=
  have h := hs.recordAll (Scriptlet.parse tokens s.nextId).errors
  ⟨h.depth_eq, h.callDepth_eq, h.context⟩

theorem parse (hs : s.Sound) (source : String) : (s.parse source).2.Sound :=
  (hs.tokenize source).parseTokens _

theorem optimize (hs : s.Sound) (n : Node) : (s.optimize n).2.Sound := by
  unfold Session.optimize
  split
  · exact ⟨hs.depth_eq, hs.callDepth_eq, hs.context⟩
  · exact hs

theorem evaluate (hs : s.Sound) {bound : Nat} {n : Node} {value : Option Value} {s' : Session}
    (h : s.evaluate bound n = some (value, s')) : s'.Sound := by
  obtain ⟨⟨_, c⟩, hrun, hs'⟩ := Option.map_eq_some_iff.mp h
  cases hs'
  have hc := evolves_of_eval hrun
  refine ⟨?_, hc.callDepth_eq.trans hs.callDepth_eq, ?_⟩
  · rw [← hs.depth_eq]
    exact congrArg (· + 1) hc.scopes.length_eq
  · exact lasting_sound.relates_eval bound n s.context value c hrun hs.context

theorem run (hs : s.Sound) {bound : Nat} {source : String} {value : Option Value} {s' : Session}
    (h : s.run bound source = some (value, s')) : s'.Sound :=
  ((hs.parse source).optimize _).evaluate h

theorem takeDiagnostics (hs : s.Sound) : s.takeDiagnostics.2.Sound :=
  ⟨hs.depth_eq, hs.callDepth_eq, { hs.context with }⟩

end Sound

/-- One step. -/
theorem sound_act {s s' : Session} (hs : s.Sound) {action : Action}
    (h : s.act action = some s') : s'.Sound := by
  cases action with
  | tokenize source =>
    cases h
    exact hs.tokenize source
  | parse source =>
    cases h
    exact hs.parse source
  | parseTokens tokens =>
    cases h
    exact hs.parseTokens tokens
  | optimize n =>
    cases h
    exact hs.optimize n
  | evaluate bound n =>
    obtain ⟨⟨value, t⟩, hrun, rfl⟩ := Option.map_eq_some_iff.mp h
    exact hs.evaluate hrun
  | run bound source =>
    obtain ⟨⟨value, t⟩, hrun, rfl⟩ := Option.map_eq_some_iff.mp h
    exact hs.run hrun
  | takeDiagnostics =>
    cases h
    exact hs.takeDiagnostics

/-- All steps. -/
theorem sound_of_play {s s' : Session} (hs : s.Sound) {actions : List Action}
    (h : s.play actions = some s') : s'.Sound := by
  induction actions generalizing s with
  | nil =>
    cases h
    exact hs
  | cons action actions ih =>
    obtain ⟨t, ht, hrest⟩ := Option.bind_eq_some_iff.mp h
    exact ih (sound_act hs ht) hrest

end Session

/-- **The invariant of a session.** After every completed step of every session
    there is one scope and no open call; a variable with a value has a value of
    its declared type; no variable and no function has a reserved name; and each
    function is kept under its own name, where it is found, and under no other. -/
theorem play_invariant {options : Options} {writable : Bool} {actions : List Action} {s : Session}
    (h : (Session.start options writable).play actions = some s) :
    s.context.scopes.depth = 1 ∧ s.context.callDepth = 0 ∧
      (∀ x v value, s.context.scopes.find? x = some v → v.value = some value →
        value.ty = v.ty) ∧
      (∀ x v, s.context.scopes.find? x = some v → isReserved x = false) ∧
      (∀ e ∈ s.context.functions, e.name = e.key ∧ isReserved e.key = false ∧
        s.context.function? e.key = some e.toDefinition) ∧
      ∀ f d, s.context.function? f = some d → d.name = f := by
  have hs : s.Sound := Session.sound_of_play (Session.sound_start options writable) h
  have hfound : ∀ x v, s.context.scopes.find? x = some v → v.Sound x := by
    intro x v hv
    obtain ⟨scope, hscope, hfind⟩ := List.exists_of_findSome?_eq_some hv
    rcases List.mem_append.mp hscope with hinner | hglobal
    · exact hs.context.scopes.inner scope hinner x v hfind
    · rw [List.mem_singleton.mp hglobal] at hfind
      exact hs.context.scopes.globals x v hfind
  refine ⟨hs.depth_eq, hs.callDepth_eq, fun x v value hv => (hfound x v hv).typed value,
    fun x v hv => (hfound x v hv).unreserved, fun e he => ⟨hs.context.named e he,
      hs.context.unreserved e he, Context.function?_key hs.context.distinct he⟩,
    fun f d hd => hs.context.named ⟨d, f⟩ (Context.mem_of_function? hd)⟩

/-- A session with a call that fails in its second parameter, an assignment of
    another type inside a block, a tree that binds a reserved name, a second function
    of the same name, and a source that ends too early. -/
theorem play_invariant_of_failures :
    let source := "function f(a: float, b: int) = { a = a + 1.0; b: int }; x := 1; " ++
      "f(x, \"y\"); { x = 2.5; y := x }"
    let odd : Node := ⟨2, 1, .define ⟨0, 1, .read "Bool"⟩ ⟨1, 1, .int 7⟩⟩
    let actions : List Action :=
      [.run 12 source, .evaluate 3 odd, .run 12 "function f() = { 1 }", .parse "x :=",
        .takeDiagnostics]
    ∃ s, (Session.start {} true).play actions = some s ∧
      s.context.scopes.depth = 1 ∧ s.context.callDepth = 0 ∧
      (∃ v, s.context.scopes.find? "x" = some v ∧ v.value = some (.int 1) ∧ v.ty = .int) ∧
      ∃ d, s.context.function? "f" = some d ∧ d.name = "f" ∧ isReserved d.name = false := by
  intro source odd actions
  have hends : ((Session.start {} true).play actions).map (fun s =>
      ((s.context.scopes.find? "x").map Variable.value, (s.context.function? "f").isSome)) =
        some (some (some (.int 1)), true) := by decide +kernel
  obtain ⟨s, hplay, hs⟩ := Option.map_eq_some_iff.mp hends
  simp only [Prod.mk.injEq, Option.map_eq_some_iff] at hs
  obtain ⟨⟨v, hv, hvalue⟩, hf⟩ := hs
  obtain ⟨d, hd⟩ := Option.isSome_iff_exists.mp hf
  obtain ⟨hdepth, hcalls, htyped, -, hfunctions, -⟩ := play_invariant hplay
  obtain ⟨hname, hfree, -⟩ := hfunctions ⟨d, "f"⟩ (Context.mem_of_function? hd)
  exact ⟨s, hplay, hdepth, hcalls, ⟨v, hv, hvalue, (htyped "x" v _ hv hvalue).symm⟩,
    d, hd, hname, by rw [hname]; exact hfree⟩

end Scriptlet
