import Scriptlet.Eval

/-!
# Laws of scopes

What binding and storing do to a scope, seen through `Scope.find?`, and what the
operations on nested scopes do to the innermost and to the global scope. Later
proofs use these laws and do not look into the lists behind a scope.

An operation leaves scopes whether it succeeds or fails. That the scopes left by one
that fails are those it started from is proved here: none of them writes before the
last check is passed.

Results:
* `Scope.find?_store`, `Scope.find?_cons`: a scope after an assignment, and after
  a declaration.
* `Scopes.declare_eq_ok`, `Scopes.define_eq_ok`, `Scopes.assign_eq_ok`: when the
  operations succeed, and what they leave.
* `Scopes.allOrNothing_declare`, `Scopes.allOrNothing_define`,
  `Scopes.allOrNothing_assign`: what they leave when they fail.
* `Eval.bindParams_frame`: binding parameters changes the innermost scope only.
-/

namespace Scriptlet

/-- A change that fails leaves the state that it started from. -/
def Change.AllOrNothing {ρ σ : Type} (change : Change ρ σ) (s : σ) : Prop :=
  ∀ fault, change.1 = .error fault → change.2 = s

@[simp] theorem Change.made_ok {ρ σ : Type} (result : ρ) (s : σ) :
    Change.made (.ok result, s) = .ok s := rfl

@[simp] theorem Change.made_error {ρ σ : Type} (fault : Fault) (s : σ) :
    Change.made ((.error fault, s) : Change ρ σ) = .error fault := rfl

theorem Change.made_eq_ok {σ : Type} {change : Change Unit σ} {s : σ} :
    change.made = .ok s ↔ change = (.ok (), s) := by
  obtain ⟨result, t⟩ := change
  cases result with
  | ok _ => simp
  | error fault => simp

namespace Scope

/-! ## One scope -/

/-- The names of a scope with their types, without the values. -/
def signature (s : Scope) : List (String × Ty) := s.map fun b => (b.1, b.2.ty)

theorem find?_cons (x y : String) (v : Variable) (s : Scope) :
    find? ((x, v) :: s) y = if y = x then some v else find? s y := by
  unfold find?
  rw [List.lookup_cons]
  by_cases h : y = x
  · subst h; simp
  · have : (y == x) = false := by simpa using h
    simp [this, h]

/-- A value stored under a bound name is all that changes. -/
theorem find?_store (s : Scope) (x y : String) (value : Value) :
    (s.store x value).find? y =
      if y = x then (s.find? y).map fun v => { v with value := some value } else s.find? y := by
  induction s with
  | nil => by_cases h : y = x <;> simp [store, find?, h]
  | cons b s ih =>
    obtain ⟨z, v⟩ := b
    have hstore : store ((z, v) :: s) x value =
        (z, if z = x then { v with value := some value } else v) :: store s x value := by
      by_cases h : z = x <;> simp [store, h]
    rw [hstore, find?_cons, find?_cons, ih]
    by_cases h1 : y = z
    · subst h1
      by_cases h2 : y = x <;> simp [h2]
    · simp [h1]

theorem signature_store (s : Scope) (x : String) (value : Value) :
    (s.store x value).signature = s.signature := by
  unfold signature store
  rw [List.map_map]
  apply List.map_congr_left
  intro b _
  dsimp only [Function.comp]
  split <;> rfl

theorem bind_eq_ok {s s' : Scope} {x : String} {v : Variable} :
    s.bind x v = (.ok (), s') ↔ isReserved x = false ∧ s.find? x = none ∧ s' = (x, v) :: s := by
  unfold bind
  split
  · next h => simp [h]
  · split
    · next h1 h2 =>
      have hne : s.find? x ≠ none := by simpa [Option.isSome_iff_ne_none] using h2
      simp [hne]
    · next h1 h2 =>
      have hnone : s.find? x = none := by simpa using h2
      simp [h1, hnone, eq_comm]

theorem bind_of_reserved {x : String} (h : isReserved x = true) (s : Scope) (v : Variable) :
    s.bind x v = (.error (.reservedName x), s) := by
  rw [bind, if_pos h]

theorem bind_of_bound {s : Scope} {x : String} (h : isReserved x = false)
    (hbound : (s.find? x).isSome) (v : Variable) :
    s.bind x v = (.error (.alreadyExists x), s) := by
  rw [bind, if_neg (by simp [h]), if_pos hbound]

theorem allOrNothing_bind (s : Scope) (x : String) (v : Variable) :
    (s.bind x v).AllOrNothing s := by
  intro fault h
  unfold bind at h ⊢
  split
  · rfl
  · next hname =>
    rw [if_neg hname] at h
    split
    · rfl
    · next hfree =>
      rw [if_neg hfree] at h
      cases h

section Assign

variable {s : Scope} {x : String} {v : Variable} {value : Value}

theorem assign_of_none (h : s.find? x = none) : s.assign x value = (.ok false, s) := by
  rw [assign, h]

theorem assign_of_some (h : s.find? x = some v) (hty : v.ty = value.ty) :
    s.assign x value = (.ok true, s.store x value) := by
  rw [assign, h]
  exact if_pos hty

theorem assign_of_ne (h : s.find? x = some v) (hty : v.ty ≠ value.ty) :
    s.assign x value = (.error (.mismatch (.assignment value x v.ty)), s) := by
  rw [assign, h]
  exact if_neg hty

end Assign

end Scope

namespace Scopes

/-! ## Nested scopes -/

@[simp] theorem top_push (s : Scopes) : s.push.top = [] := rfl

@[simp] theorem inner_pop (s : Scopes) : s.pop.inner = s.inner.tail := rfl

@[simp] theorem globals_pop (s : Scopes) : s.pop.globals = s.globals := rfl

@[simp] theorem top_setTop (s : Scopes) (t : Scope) : (s.setTop t).top = t := by
  unfold setTop top
  split <;> simp_all

theorem setTop_top (s : Scopes) : s.setTop s.top = s := by
  obtain ⟨inner, globals⟩ := s
  cases inner <;> rfl

theorem setTop_setTop (s : Scopes) (t u : Scope) : (s.setTop t).setTop u = s.setTop u := by
  obtain ⟨inner, globals⟩ := s
  cases inner <;> rfl

@[simp] theorem length_inner_setTop (s : Scopes) (t : Scope) :
    (s.setTop t).inner.length = s.inner.length := by
  unfold setTop
  split <;> simp_all

@[simp] theorem tail_inner_setTop (s : Scopes) (t : Scope) :
    (s.setTop t).inner.tail = s.inner.tail := by
  unfold setTop
  split <;> simp_all

theorem inner_setTop_ne_nil {s : Scopes} (h : s.inner ≠ []) (t : Scope) :
    (s.setTop t).inner ≠ [] := by
  rw [← List.length_pos_iff, length_inner_setTop]
  exact List.length_pos_iff.mpr h

/-- Inside another scope the global scope is not the innermost one. -/
theorem globals_setTop {s : Scopes} (h : s.inner ≠ []) (t : Scope) :
    (s.setTop t).globals = s.globals := by
  unfold setTop
  split <;> simp_all

theorem globals_setTop_nil {s : Scopes} (h : s.inner = []) (t : Scope) :
    (s.setTop t).globals = t := by
  simp [setTop, h]

theorem top_of_nil {s : Scopes} (h : s.inner = []) : s.top = s.globals := by
  simp [top, h]

variable {s s' : Scopes} {x : String} {ty : Ty} {v : Variable} {value : Value}

theorem onTop_bind_eq_ok :
    s.onTop (s.top.bind x v) = (.ok (), s') ↔
      isReserved x = false ∧ s.top.find? x = none ∧ s' = s.setTop ((x, v) :: s.top) := by
  constructor
  · intro h
    rcases hbind : s.top.bind x v with ⟨result, scope⟩
    rw [hbind] at h
    obtain ⟨rfl, rfl⟩ := Prod.mk.inj h
    obtain ⟨hname, hfree, rfl⟩ := Scope.bind_eq_ok.mp hbind
    exact ⟨hname, hfree, rfl⟩
  · rintro ⟨hname, hfree, rfl⟩
    rw [onTop, Scope.bind_eq_ok.mpr ⟨hname, hfree, rfl⟩]

theorem allOrNothing_onTop_bind (s : Scopes) (x : String) (v : Variable) :
    (s.onTop (s.top.bind x v)).AllOrNothing s := by
  intro fault h
  have hsame : (s.top.bind x v).2 = s.top := Scope.allOrNothing_bind s.top x v fault h
  rw [onTop, hsame, setTop_top]

theorem declare_eq_ok :
    s.declare x ty = (.ok (), s') ↔
      isReserved x = false ∧ s.top.find? x = none ∧ s' = s.setTop ((x, ⟨ty, none⟩) :: s.top) :=
  onTop_bind_eq_ok

theorem allOrNothing_declare (s : Scopes) (x : String) (ty : Ty) :
    (s.declare x ty).AllOrNothing s :=
  allOrNothing_onTop_bind s x _

theorem define_eq_ok :
    s.define x value = (.ok (), s') ↔
      isReserved x = false ∧ s.top.find? x = none ∧
        s' = s.setTop ((x, ⟨value.ty, some value⟩) :: s.top) :=
  onTop_bind_eq_ok

theorem allOrNothing_define (s : Scopes) (x : String) (value : Value) :
    (s.define x value).AllOrNothing s :=
  allOrNothing_onTop_bind s x _

theorem define_of_reserved (h : isReserved x = true) (s : Scopes) (value : Value) :
    s.define x value = (.error (.reservedName x), s) := by
  rw [define, Scope.bind_of_reserved h, onTop, setTop_top]

theorem define_of_bound (h : isReserved x = false) (hbound : (s.top.find? x).isSome)
    (value : Value) : s.define x value = (.error (.alreadyExists x), s) := by
  rw [define, Scope.bind_of_bound h hbound, onTop, setTop_top]

/-! ## Assignments

An assignment goes to the innermost scope if it binds the name, and else to the
global one. -/

theorem assign_of_top (h : s.top.find? x = some v) (hty : v.ty = value.ty) :
    s.assign x value = (.ok (), s.setTop (s.top.store x value)) := by
  rw [assign, Scope.assign_of_some h hty, onTop]

theorem assign_of_top_ne (h : s.top.find? x = some v) (hty : v.ty ≠ value.ty) :
    s.assign x value = (.error (.mismatch (.assignment value x v.ty)), s) := by
  rw [assign, Scope.assign_of_ne h hty, onTop, setTop_top]

section Globals

variable (htop : s.top.find? x = none)

include htop

theorem assign_of_globals (h : s.globals.find? x = some v) (hty : v.ty = value.ty) :
    s.assign x value = (.ok (), { s with globals := s.globals.store x value }) := by
  rw [assign, Scope.assign_of_none htop, onTop, setTop_top]
  simp only [Scope.assign_of_some h hty, onGlobals]

theorem assign_of_globals_ne (h : s.globals.find? x = some v) (hty : v.ty ≠ value.ty) :
    s.assign x value = (.error (.mismatch (.assignment value x v.ty)), s) := by
  rw [assign, Scope.assign_of_none htop, onTop, setTop_top]
  simp only [Scope.assign_of_ne h hty, onGlobals]

theorem assign_of_none (h : s.globals.find? x = none) :
    s.assign x value = (.error (.undeclared x), s) := by
  rw [assign, Scope.assign_of_none htop, onTop, setTop_top]
  simp only [Scope.assign_of_none h, onGlobals]

end Globals

theorem assign_eq_ok :
    s.assign x value = (.ok (), s') ↔
      (∃ v, s.top.find? x = some v ∧ v.ty = value.ty ∧ s' = s.setTop (s.top.store x value)) ∨
      (s.top.find? x = none ∧ ∃ v, s.globals.find? x = some v ∧ v.ty = value.ty ∧
        s' = { s with globals := s.globals.store x value }) := by
  cases htop : s.top.find? x with
  | some v =>
    by_cases hty : v.ty = value.ty
    · rw [assign_of_top htop hty]
      simp [hty, eq_comm]
    · rw [assign_of_top_ne htop hty]
      simp [hty]
  | none =>
    cases hglob : s.globals.find? x with
    | none =>
      rw [assign_of_none htop hglob]
      simp
    | some v =>
      by_cases hty : v.ty = value.ty
      · rw [assign_of_globals htop hglob hty]
        simp [hty, eq_comm]
      · rw [assign_of_globals_ne htop hglob hty]
        simp [hty]

theorem allOrNothing_assign (s : Scopes) (x : String) (value : Value) :
    (s.assign x value).AllOrNothing s := by
  intro fault hfault
  cases htop : s.top.find? x with
  | some v =>
    by_cases hty : v.ty = value.ty
    · rw [assign_of_top htop hty] at hfault
      cases hfault
    · rw [assign_of_top_ne htop hty]
  | none =>
    cases hglob : s.globals.find? x with
    | none => rw [assign_of_none htop hglob]
    | some v =>
      by_cases hty : v.ty = value.ty
      · rw [assign_of_globals htop hglob hty] at hfault
        cases hfault
      · rw [assign_of_globals_ne htop hglob hty]

end Scopes

/-! ## Parameters -/

/-- Binding parameters changes the innermost scope only. -/
theorem Eval.bindParams_frame {params : List (String × Ty)} :
    ∀ {values : List (Option Value)} {s s' : Scopes}, s.inner ≠ [] →
      bindParams s params values = .ok (some s') →
      s'.inner ≠ [] ∧ s'.inner.tail = s.inner.tail ∧ s'.globals = s.globals := by
  induction params with
  | nil =>
    intro values s s' hs h
    obtain rfl : s = s' := by simpa [bindParams] using h
    exact ⟨hs, rfl, rfl⟩
  | cons p params ih =>
    obtain ⟨x, ty⟩ := p
    intro values s s' hs h
    match values with
    | [] =>
      obtain rfl : s = s' := by simpa [bindParams] using h
      exact ⟨hs, rfl, rfl⟩
    | none :: values => simp [bindParams] at h
    | some value :: values =>
      simp only [bindParams] at h
      split at h
      · cases h
      · split at h
        · cases h
        · next t hdef =>
          obtain ⟨-, -, rfl⟩ := Scopes.define_eq_ok.mp (Change.made_eq_ok.mp hdef)
          obtain ⟨h1, h2, h3⟩ := ih (Scopes.inner_setTop_ne_nil hs _) h
          refine ⟨h1, ?_, ?_⟩
          · rw [h2, Scopes.tail_inner_setTop]
          · rw [h3, Scopes.globals_setTop hs]

end Scriptlet
