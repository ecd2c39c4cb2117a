import Mathlib.Data.Nat.Find
import Scriptlet.Proofs.Evolution

/-!
# Where names are written and read

Reads and writes resolve a name differently. A read goes from the innermost scope
outwards to the first scope that binds the name. An assignment goes to the
innermost scope if that one binds the name, or else to the global one, and never to
a scope in between; so a read need not see what was just assigned.

Nested scopes are looked at here as a function of a position, counted from the
innermost scope, and a name: `at?`. The innermost scope is at position `0` and the
global one at `depth - 1`, which is the same position if there is but one scope. A
write changes this function at one argument.

Results:
* `Rebinds.find?_eq`: what a read finds after a write.
* `assign_of_target`, `assign_of_no_target`: where an assignment goes and when it
  succeeds.
* `get_of_assign`: what a read gives after an assignment.
* `declares_bind`: declarations add a name to the innermost scope.
* `allOrNothing_update`: a change that fails leaves the scopes as they were.
* `writes_resolve`: all of this together.
-/

namespace Scriptlet

namespace Scopes

/-! ## Scopes by position -/

/-- What the scope at a position, counted from the innermost one, binds a name to. -/
def at? (s : Scopes) (i : Nat) (x : String) : Option Variable :=
  s.toList[i]?.bind fun scope => scope.find? x

variable {s s' : Scopes} {x y : String} {i j : Nat} {v : Variable}

theorem at?_zero (s : Scopes) (x : String) : s.at? 0 x = s.top.find? x := by
  obtain ⟨inner, globals⟩ := s
  cases inner <;> rfl

theorem at?_last (s : Scopes) (x : String) : s.at? (s.depth - 1) x = s.globals.find? x := by
  have hlast : s.toList[s.inner.length]? = some s.globals := by simp [toList]
  unfold at? depth
  rw [Nat.add_sub_cancel, hlast]
  rfl

theorem at?_setTop (s : Scopes) (scope : Scope) (i : Nat) (x : String) :
    (s.setTop scope).at? i x = if i = 0 then scope.find? x else s.at? i x := by
  obtain ⟨inner, globals⟩ := s
  cases i with
  | zero => cases inner <;> rfl
  | succ i => cases inner <;> rfl

theorem at?_setGlobals (s : Scopes) (scope : Scope) (i : Nat) (x : String) :
    { s with globals := scope }.at? i x =
      if i = s.depth - 1 then scope.find? x else s.at? i x := by
  unfold at? toList depth
  rw [Nat.add_sub_cancel]
  split
  · next h => simp [h]
  · next h =>
    rcases Nat.lt_or_gt_of_ne h with hlt | hgt
    · rw [List.getElem?_append_left hlt, List.getElem?_append_left hlt]
    · rw [List.getElem?_eq_none (by simp; omega), List.getElem?_eq_none (by simp; omega)]

/-- A read finds the first scope that binds the name. -/
theorem find?_of_least (h : s.at? i x = some v) (hless : ∀ j < i, s.at? j x = none) :
    s.find? x = some v := by
  obtain ⟨scope, hscope, hv⟩ := Option.bind_eq_some_iff.mp h
  obtain ⟨hi, hget⟩ := List.getElem?_eq_some_iff.mp hscope
  refine List.findSome?_eq_some_iff.mpr ⟨s.toList.take i, scope, s.toList.drop (i + 1), ?_, hv, ?_⟩
  · rw [← hget, ← List.drop_eq_getElem_cons hi, List.take_append_drop]
  · intro t ht
    obtain ⟨j, hj, rfl⟩ := List.mem_take_iff_getElem.mp ht
    have hnone := hless j (by omega)
    unfold at? at hnone
    rwa [List.getElem?_eq_getElem (by omega)] at hnone

/-- A read depends only on the scopes up to one that binds the name. -/
theorem find?_congr (hbound : (s.at? i x).isSome) (hsame : ∀ j ≤ i, s'.at? j x = s.at? j x) :
    s'.find? x = s.find? x := by
  have hexists : ∃ j, (s.at? j x).isSome := ⟨i, hbound⟩
  obtain ⟨w, hw⟩ := Option.isSome_iff_exists.mp (Nat.find_spec hexists)
  have hle : Nat.find hexists ≤ i := Nat.find_min' hexists hbound
  have hless : ∀ j < Nat.find hexists, s.at? j x = none := by
    intro j hj
    simpa using Nat.find_min hexists hj
  rw [find?_of_least hw hless]
  refine find?_of_least ((hsame _ hle).trans hw) fun j hj => ?_
  rw [hsame j (by omega)]
  exact hless j hj

/-! ## Writes -/

/-- The second scopes are the first ones but for one name, which the scope at
    position `i` binds to `v`. -/
structure Rebinds (s : Scopes) (i : Nat) (x : String) (v : Variable) (s' : Scopes) : Prop where
  depth_eq : s'.depth = s.depth
  here : s'.at? i x = some v
  elsewhere : ∀ j y, j ≠ i ∨ y ≠ x → s'.at? j y = s.at? j y

theorem depth_setTop (s : Scopes) (scope : Scope) : (s.setTop scope).depth = s.depth := by
  unfold depth
  rw [length_inner_setTop]

theorem rebinds_setTop {scope : Scope} (hx : scope.find? x = some v)
    (hother : ∀ y, y ≠ x → scope.find? y = s.top.find? y) :
    s.Rebinds 0 x v (s.setTop scope) where
  depth_eq := depth_setTop s scope
  here := by rw [at?_setTop, if_pos rfl, hx]
  elsewhere j y hjy := by
    rw [at?_setTop]
    split
    · next hj =>
      subst hj
      rw [hother y (hjy.resolve_left fun h => h rfl), at?_zero]
    · rfl

theorem rebinds_setGlobals {scope : Scope} (hx : scope.find? x = some v)
    (hother : ∀ y, y ≠ x → scope.find? y = s.globals.find? y) :
    s.Rebinds (s.depth - 1) x v { s with globals := scope } where
  depth_eq := rfl
  here := by rw [at?_setGlobals, if_pos rfl, hx]
  elsewhere j y hjy := by
    rw [at?_setGlobals]
    split
    · next hj =>
      subst hj
      rw [hother y (hjy.resolve_left fun h => h rfl), at?_last]
    · rfl

/-- After a write a read finds what was written, unless a scope further in binds the
    name; then it finds what it found before. -/
theorem Rebinds.find?_eq (h : s.Rebinds i x v s') :
    ((∀ j < i, s.at? j x = none) → s'.find? x = some v) ∧
      ∀ j < i, (s.at? j x).isSome → s'.find? x = s.find? x := by
  constructor
  · intro hless
    refine find?_of_least h.here fun j hj => ?_
    rw [h.elsewhere j x (.inl (Nat.ne_of_lt hj))]
    exact hless j hj
  · intro j hj hbound
    exact find?_congr hbound fun k hk => h.elsewhere k x (.inl (by omega))

/-! ## Assignments -/

/-- The position of the scope that an assignment goes to: the innermost one if it
    binds the name, or else the global one if that does. -/
def target? (s : Scopes) (x : String) : Option Nat :=
  if (s.at? 0 x).isSome then some 0
  else if (s.at? (s.depth - 1) x).isSome then some (s.depth - 1)
  else none

theorem target?_eq_some (h : s.target? x = some i) :
    i = 0 ∧ (s.at? 0 x).isSome ∨
      i = s.depth - 1 ∧ s.at? 0 x = none ∧ (s.at? (s.depth - 1) x).isSome := by
  unfold target? at h
  split at h
  · next htop =>
    cases h
    exact .inl ⟨rfl, htop⟩
  · next htop =>
    split at h
    · next hlast =>
      cases h
      exact .inr ⟨rfl, by simpa using htop, hlast⟩
    · cases h

theorem target?_eq_none (h : s.target? x = none) :
    s.at? 0 x = none ∧ s.at? (s.depth - 1) x = none := by
  unfold target? at h
  split at h
  · cases h
  · next htop =>
    split at h
    · cases h
    · next hlast => exact ⟨by simpa using htop, by simpa using hlast⟩

theorem assign_of_no_target (h : s.target? x = none) (value : Value) :
    s.assign x value = (.error (.undeclared x), s) := by
  obtain ⟨htop, hlast⟩ := target?_eq_none h
  rw [at?_zero] at htop
  rw [at?_last] at hlast
  exact assign_of_none htop hlast

/-- An assignment succeeds if and only if the variable it goes to was declared with
    the type of the value; then this variable is all that changes, and else nothing
    does. -/
theorem assign_of_target (hi : s.target? x = some i) (hv : s.at? i x = some v) (value : Value) :
    (v.ty = value.ty →
        ∃ s', s.assign x value = (.ok (), s') ∧ s.Rebinds i x ⟨v.ty, some value⟩ s') ∧
      (v.ty ≠ value.ty →
        s.assign x value = (.error (.mismatch (.assignment value x v.ty)), s)) := by
  rcases target?_eq_some hi with ⟨rfl, -⟩ | ⟨rfl, htop, -⟩
  · rw [at?_zero] at hv
    constructor
    · intro hty
      refine ⟨_, assign_of_top hv hty, rebinds_setTop ?_ fun y hy => ?_⟩
      · simp [Scope.find?_store, hv]
      · simp [Scope.find?_store, hy]
    · intro hty
      exact assign_of_top_ne hv hty
  · rw [at?_zero] at htop
    rw [at?_last] at hv
    constructor
    · intro hty
      refine ⟨_, assign_of_globals htop hv hty, rebinds_setGlobals ?_ fun y hy => ?_⟩
      · simp [Scope.find?_store, hv]
      · simp [Scope.find?_store, hy]
    · intro hty
      exact assign_of_globals_ne htop hv hty

/-- A scope between the innermost and the global one binds the name. -/
def BoundBetween (s : Scopes) (x : String) : Prop :=
  ∃ j, 0 < j ∧ j < s.depth - 1 ∧ (s.at? j x).isSome

theorem rebinds_of_assign {value : Value} (h : s.assign x value = (.ok (), s')) :
    ∃ i v, s.target? x = some i ∧ s.at? i x = some v ∧ v.ty = value.ty ∧
      s.Rebinds i x ⟨v.ty, some value⟩ s' := by
  cases hi : s.target? x with
  | none =>
    rw [assign_of_no_target hi] at h
    cases h
  | some i =>
    have hbound : (s.at? i x).isSome := by
      rcases target?_eq_some hi with ⟨rfl, htop⟩ | ⟨rfl, -, hlast⟩
      · exact htop
      · exact hlast
    obtain ⟨v, hv⟩ := Option.isSome_iff_exists.mp hbound
    obtain ⟨hok, herror⟩ := assign_of_target hi hv value
    by_cases hty : v.ty = value.ty
    · obtain ⟨t, ht, hwrite⟩ := hok hty
      rw [h] at ht
      cases ht
      exact ⟨i, v, rfl, hv, hty, hwrite⟩
    · rw [herror hty] at h
      cases h

theorem get_of_find? (h : s.find? x = some v) : s.get x = .ok v.value := by
  unfold get
  rw [h]

/-- A read after an assignment sees the value, unless the innermost scope lacks the
    name and a scope between that one and the global one binds it. -/
theorem get_of_assign {value : Value} (h : s.assign x value = (.ok (), s')) :
    (s.at? 0 x = none ∧ s.BoundBetween x → s'.get x = s.get x) ∧
      (¬ (s.at? 0 x = none ∧ s.BoundBetween x) → s'.get x = .ok (some value)) := by
  obtain ⟨i, v, hi, -, -, hwrite⟩ := rebinds_of_assign h
  obtain ⟨hseen, hhidden⟩ := hwrite.find?_eq
  rcases target?_eq_some hi with ⟨rfl, hbound⟩ | ⟨rfl, htop, -⟩
  · constructor
    · rintro ⟨htop, -⟩
      rw [htop] at hbound
      cases hbound
    · intro _
      exact get_of_find? (hseen fun j hj => absurd hj (Nat.not_lt_zero j))
  · constructor
    · rintro ⟨-, j, -, hj, hbound⟩
      unfold get
      rw [hhidden j hj hbound]
    · intro hnot
      refine get_of_find? (hseen fun j hj => ?_)
      rcases Nat.eq_zero_or_pos j with rfl | hpos
      · exact htop
      · cases hbound : s.at? j x with
        | none => rfl
        | some w => exact absurd ⟨htop, j, hpos, hj, by rw [hbound]; rfl⟩ hnot

/-! ## Declarations -/

/-- What binding a new name in the innermost scope may come to: it is refused if the
    name is reserved or taken there, and then nothing changes; otherwise nothing else
    does. -/
inductive Declares (s : Scopes) (x : String) (v : Variable) : Change Unit Scopes → Prop
  | reserved (hname : isReserved x = true) : Declares s x v (.error (.reservedName x), s)
  | taken (hname : isReserved x = false) (hbound : (s.at? 0 x).isSome) :
    Declares s x v (.error (.alreadyExists x), s)
  | added (hname : isReserved x = false) (hfree : s.at? 0 x = none) {s' : Scopes}
    (hwrite : s.Rebinds 0 x v s') : Declares s x v (.ok (), s')

theorem declares_bind (s : Scopes) (x : String) (v : Variable) :
    s.Declares x v (s.onTop (s.top.bind x v)) := by
  cases hname : isReserved x with
  | true =>
    rw [Scope.bind_of_reserved hname, onTop, setTop_top]
    exact .reserved hname
  | false =>
    cases hfree : s.top.find? x with
    | some w =>
      rw [Scope.bind_of_bound hname (by rw [hfree]; rfl), onTop, setTop_top]
      exact .taken hname (by rw [at?_zero, hfree]; rfl)
    | none =>
      rw [onTop_bind_eq_ok.mpr ⟨hname, hfree, rfl⟩]
      refine .added hname (by rw [at?_zero, hfree]) (rebinds_setTop ?_ fun y hy => ?_)
      · simp [Scope.find?_cons]
      · simp [Scope.find?_cons, hy]

/-! ## Failures -/

/-- A change that a program makes to its variables. -/
inductive Update where
  | declare (ty : Ty)
  | define (value : Value)
  | assign (value : Value)

/-- The scopes after a change under a name, made or refused. -/
def update (s : Scopes) (x : String) : Update → Change Unit Scopes
  | .declare ty => s.declare x ty
  | .define value => s.define x value
  | .assign value => s.assign x value

theorem allOrNothing_update (s : Scopes) (x : String) (u : Update) :
    (s.update x u).AllOrNothing s := by
  cases u with
  | declare ty => exact allOrNothing_declare s x ty
  | define value => exact allOrNothing_define s x value
  | assign value => exact allOrNothing_assign s x value

/-- **Writes go to the innermost or the global scope, reads to the first that binds the
    name.** Whatever the scopes, an assignment changes only the variable that the
    innermost scope binds the name to, or, if that scope lacks the name, only the
    variable that the global scope binds it to; if neither has the name it fails,
    whatever the scopes in between bind. It succeeds exactly if that variable was
    declared with the type of the value. Afterwards a read gives the value, unless the
    innermost scope lacks the name and a scope in between binds it; then it gives what
    it gave before. Declarations only add the name to the innermost scope. If any of
    the three fails, it leaves the scopes as they were, and a running program reports
    why and goes on with them. -/
theorem writes_resolve (s : Scopes) (x : String) (value : Value) :
    (s.target? x = none → s.assign x value = (.error (.undeclared x), s)) ∧
      (∀ i v, s.target? x = some i → s.at? i x = some v →
        (v.ty = value.ty →
          ∃ s', s.assign x value = (.ok (), s') ∧ s.Rebinds i x ⟨v.ty, some value⟩ s') ∧
        (v.ty ≠ value.ty →
          s.assign x value = (.error (.mismatch (.assignment value x v.ty)), s))) ∧
      (∀ s', s.assign x value = (.ok (), s') →
        (s.at? 0 x = none ∧ s.BoundBetween x → s'.get x = s.get x) ∧
        (¬ (s.at? 0 x = none ∧ s.BoundBetween x) → s'.get x = .ok (some value))) ∧
      (∀ ty, s.Declares x ⟨ty, none⟩ (s.declare x ty)) ∧
      s.Declares x ⟨value.ty, some value⟩ (s.define x value) ∧
      ∀ u fault, (s.update x u).1 = .error fault → (s.update x u).2 = s ∧
        ∀ c : Context, c.scopes = s → ∀ line,
          (Eval.setScopes line (c.scopes.update x u)).run c = some ((), c.report fault line) ∧
          (c.report fault line).scopes = s := by
  refine ⟨fun h => assign_of_no_target h value, fun i v hi hv => assign_of_target hi hv value,
    fun s' h => get_of_assign h, fun ty => declares_bind s x ⟨ty, none⟩,
    declares_bind s x ⟨value.ty, some value⟩, ?_⟩
  refine fun u fault h => ⟨allOrNothing_update s x u fault h, ?_⟩
  rintro c rfl line
  exact ⟨Eval.run_setScopes_error (allOrNothing_update _ x u) h, c.scopes_record _⟩

/-- A value that is assigned to a global variable and not read back. -/
example :
    let s : Scopes :=
      ⟨[[], [("x", ⟨.int, some (.int 2)⟩)]], [("x", ⟨.int, some (.int 1)⟩)]⟩
    ((s.assign "x" (.int 3)).2.globals, ((s.assign "x" (.int 3)).2.get "x").toOption) =
      ([("x", ⟨.int, some (.int 3)⟩)], some (some (.int 2))) := by
  decide

end Scopes

end Scriptlet
