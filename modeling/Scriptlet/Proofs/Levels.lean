import Scriptlet.Proofs.Simulation

/-!
# Scopes that differ by dropped bindings

A program and the program without its dead code run on scopes that are alike
level by level. Where a declaration was dropped, the second program lacks a
name; where an assignment was dropped, it has an older value. A level says of
which names that may be so: a lost name may be missing, and only a live one is
sure to have the same value.

Results:
* `Related.get_eq`: names that are live and not lost at any level read the same.
* `Related.declare`, `Related.define`, `Related.assign`: what both programs do.
* `Related.declare_left`, `Related.define_left`, `Related.assign_left`: what only
  the first one does.
-/

namespace Scriptlet

/-! ## One level -/

/-- What may differ between two scopes. -/
structure Level where
  /-- names with the same value in both -/
  live : String → Prop
  /-- names that the second scope may lack -/
  lost : String → Prop

namespace Level

/-- Nothing differs. -/
def exact : Level := ⟨fun _ => True, fun _ => False⟩

/-- A name is as good at the second scope as at the first. -/
def Carries (l : Level) (x : String) : Prop := l.live x ∧ ¬ l.lost x

theorem carries_exact (x : String) : exact.Carries x := ⟨trivial, id⟩

/-- The second scope is the first one up to what the level allows. -/
structure Relates (l : Level) (a b : Scope) : Prop where
  back : ∀ x w, b.find? x = some w →
    ∃ v, a.find? x = some v ∧ v.ty = w.ty ∧ (l.live x → v.value = w.value)
  forth : ∀ x v, a.find? x = some v → ¬ l.lost x → ∃ w, b.find? x = some w

namespace Relates

variable {l : Level} {a b : Scope} {x : String}

theorem nil (l : Level) : l.Relates [] [] where
  back x w h := by cases h
  forth x v h := by cases h

theorem find?_eq_none (h : l.Relates a b) (hx : a.find? x = none) : b.find? x = none := by
  cases hb : b.find? x with
  | none => rfl
  | some w =>
    obtain ⟨v, hv, -⟩ := h.back x w hb
    cases hx.symm.trans hv

/-- A name that the level carries is bound to the same variable. -/
theorem find?_eq (h : l.Relates a b) (hx : l.Carries x) : b.find? x = a.find? x := by
  cases ha : a.find? x with
  | none => exact h.find?_eq_none ha
  | some v =>
    obtain ⟨w, hw⟩ := h.forth x v ha hx.2
    obtain ⟨v', hv', hty, hvalue⟩ := h.back x w hw
    obtain rfl : v = v' := Option.some.inj (ha.symm.trans hv')
    rw [hw]
    obtain ⟨ty, value⟩ := v
    obtain ⟨ty', value'⟩ := w
    simp only at hty hvalue
    rw [hty, hvalue hx.1]

/-- Both scopes bind a new name. -/
theorem cons (h : l.Relates a b) (v : Variable) : l.Relates ((x, v) :: a) ((x, v) :: b) where
  back y w hw := by
    rw [Scope.find?_cons] at hw ⊢
    split at hw
    · next hy =>
      cases hw
      exact ⟨v, by simp [hy], rfl, fun _ => rfl⟩
    · next hy =>
      simp only [hy, if_false]
      exact h.back y w hw
  forth y w hw hlost := by
    rw [Scope.find?_cons] at hw ⊢
    split at hw
    · next hy => exact ⟨v, by simp [hy]⟩
    · next hy =>
      simp only [hy, if_false]
      exact h.forth y w hw hlost

/-- Only the first scope binds a new name. -/
theorem cons_left (h : l.Relates a b) (hx : a.find? x = none) (hlost : l.lost x) (v : Variable) :
    l.Relates ((x, v) :: a) b where
  back y w hw := by
    have hne : y ≠ x := by
      rintro rfl
      cases (h.find?_eq_none hx).symm.trans hw
    rw [Scope.find?_cons, if_neg hne]
    exact h.back y w hw
  forth y w hw hy := by
    have hne : y ≠ x := by
      rintro rfl
      exact hy hlost
    rw [Scope.find?_cons, if_neg hne] at hw
    exact h.forth y w hw hy

/-- Both scopes store a value. -/
theorem store (h : l.Relates a b) (value : Value) :
    l.Relates (a.store x value) (b.store x value) where
  back y w hw := by
    rw [Scope.find?_store] at hw ⊢
    split at hw
    · next hy =>
      subst hy
      obtain ⟨w', hw', rfl⟩ := Option.map_eq_some_iff.mp hw
      obtain ⟨v, hv, hty, -⟩ := h.back y w' hw'
      exact ⟨{ v with value := some value }, by simp [hv], hty, fun _ => rfl⟩
    · next hy =>
      simp only [hy, if_false]
      exact h.back y w hw
  forth y v hv hlost := by
    rw [Scope.find?_store] at hv ⊢
    split at hv
    · next hy =>
      subst hy
      obtain ⟨v', hv', -⟩ := Option.map_eq_some_iff.mp hv
      obtain ⟨w, hw⟩ := h.forth y v' hv' hlost
      exact ⟨{ w with value := some value }, by simp [hw]⟩
    · next hy =>
      simp only [hy, if_false]
      exact h.forth y v hv hlost

/-- Only the first scope stores a value. -/
theorem store_left (h : l.Relates a b) (hx : ¬ l.live x) (value : Value) :
    l.Relates (a.store x value) b where
  back y w hw := by
    obtain ⟨v, hv, hty, hvalue⟩ := h.back y w hw
    rw [Scope.find?_store]
    by_cases hy : y = x
    · subst hy
      exact ⟨{ v with value := some value }, by simp [hv], hty, fun hlive => absurd hlive hx⟩
    · exact ⟨v, by simp [hy, hv], hty, hvalue⟩
  forth y v hv hlost := by
    rw [Scope.find?_store] at hv
    split at hv
    · obtain ⟨v', hv', -⟩ := Option.map_eq_some_iff.mp hv
      exact h.forth y v' hv' hlost
    · exact h.forth y v hv hlost

end Relates

end Level

/-! ## All levels -/

/-- Inner scopes that are alike level by level. -/
inductive Stacked : List Level → List Scope → List Scope → Prop
  | nil : Stacked [] [] []
  | cons {l : Level} {ls : List Level} {a b : Scope} {as bs : List Scope} :
    l.Relates a b → Stacked ls as bs → Stacked (l :: ls) (a :: as) (b :: bs)

/-- Scopes that are alike level by level; `g` is the level of the global scope,
    and the innermost level comes first. -/
structure Related (g : Level) (ls : List Level) (s t : Scopes) : Prop where
  inner : Stacked ls s.inner t.inner
  globals : g.Relates s.globals t.globals

namespace Related

variable {g l : Level} {ls : List Level} {s t s' : Scopes} {x : String}

theorem initial (g : Level) : Related g [] .initial .initial := ⟨.nil, .nil g⟩

/-- The innermost scopes are alike at the innermost level. -/
theorem top (h : Related g ls s t) : (ls.headD g).Relates s.top t.top := by
  obtain ⟨inner, globals⟩ := h
  unfold Scopes.top
  generalize s.inner = as at *
  generalize t.inner = bs at *
  cases inner with
  | nil => exact globals
  | cons hl _ => exact hl

theorem push (h : Related g ls s t) (l : Level) : Related g (l :: ls) s.push t.push :=
  ⟨.cons (.nil l) h.inner, h.globals⟩

theorem pop (h : Related g (l :: ls) s t) : Related g ls s.pop t.pop := by
  obtain ⟨inner, globals⟩ := h
  refine ⟨?_, globals⟩
  rw [Scopes.inner_pop, Scopes.inner_pop]
  generalize s.inner = as at *
  generalize t.inner = bs at *
  cases inner with
  | cons _ hrest => exact hrest

/-- Both innermost scopes change. -/
theorem setTop (h : Related g ls s t) {a b : Scope} (hab : (ls.headD g).Relates a b) :
    Related g ls (s.setTop a) (t.setTop b) := by
  obtain ⟨as, ag⟩ := s
  obtain ⟨bs, bg⟩ := t
  obtain ⟨inner, globals⟩ := h
  cases inner with
  | nil => exact ⟨.nil, hab⟩
  | cons _ hrest => exact ⟨.cons hab hrest, globals⟩

/-- Only the first innermost scope changes. -/
theorem setTop_left (h : Related g ls s t) {a : Scope} (hab : (ls.headD g).Relates a t.top) :
    Related g ls (s.setTop a) t := by
  obtain ⟨as, ag⟩ := s
  obtain ⟨bs, bg⟩ := t
  obtain ⟨inner, globals⟩ := h
  cases inner with
  | nil => exact ⟨.nil, hab⟩
  | cons _ hrest => exact ⟨.cons hab hrest, globals⟩

/-- A name that every level carries is found to be the same variable. -/
theorem find?_eq (h : Related g ls s t) (hx : ∀ l ∈ g :: ls, l.Carries x) :
    t.find? x = s.find? x := by
  obtain ⟨inner, globals⟩ := h
  unfold Scopes.find? Scopes.toList
  generalize s.inner = as at *
  generalize t.inner = bs at *
  induction inner with
  | nil => simp [globals.find?_eq (hx g (by simp))]
  | @cons l ls a b as bs hl _ ih =>
    have hrest := ih fun l hl => hx l (by
      rcases List.mem_cons.mp hl with rfl | hl
      · simp
      · simp [hl])
    simp only [List.cons_append, List.findSome?_cons, hl.find?_eq (hx l (by simp)), hrest]

/-- A name that every level carries reads the same. -/
theorem get_eq (h : Related g ls s t) (hx : ∀ l ∈ g :: ls, l.Carries x) : t.get x = s.get x := by
  unfold Scopes.get
  rw [h.find?_eq hx]

/-- A name that the first scopes do not bind is not bound in the second. -/
theorem find?_eq_none (h : Related g ls s t) (hx : s.find? x = none) : t.find? x = none := by
  obtain ⟨inner, globals⟩ := h
  unfold Scopes.find? Scopes.toList at hx ⊢
  generalize s.inner = as at *
  generalize t.inner = bs at *
  induction inner with
  | nil =>
    simp only [List.nil_append, List.findSome?_cons, List.findSome?_nil] at hx ⊢
    cases ha : s.globals.find? x with
    | some v => simp [ha] at hx
    | none => simp [globals.find?_eq_none ha]
  | @cons l ls a b as bs hl _ ih =>
    simp only [List.cons_append, List.findSome?_cons] at hx ⊢
    cases ha : a.find? x with
    | some v => simp [ha] at hx
    | none =>
      simp only [ha] at hx
      simp only [hl.find?_eq_none ha]
      exact ih hx

theorem available (h : Related g ls s t) (hx : s.available x = .ok ()) :
    t.available x = .ok () := by
  unfold Scopes.available at hx ⊢
  split at hx
  · cases hx
  · next hreserved =>
    split at hx
    · cases hx
    · next hnone =>
      have hs : s.find? x = none := by simpa using hnone
      simp [hreserved, h.find?_eq_none hs]

/-! ## Changes -/

theorem declare (h : Related g ls s t) {ty : Ty} (hs : s.declare x ty = (.ok (), s')) :
    ∃ t', t.declare x ty = (.ok (), t') ∧ Related g ls s' t' := by
  obtain ⟨hname, hnone, rfl⟩ := Scopes.declare_eq_ok.mp hs
  exact ⟨_, Scopes.declare_eq_ok.mpr ⟨hname, h.top.find?_eq_none hnone, rfl⟩,
    h.setTop (h.top.cons _)⟩

theorem define (h : Related g ls s t) {value : Value} (hs : s.define x value = (.ok (), s')) :
    ∃ t', t.define x value = (.ok (), t') ∧ Related g ls s' t' := by
  obtain ⟨hname, hnone, rfl⟩ := Scopes.define_eq_ok.mp hs
  exact ⟨_, Scopes.define_eq_ok.mpr ⟨hname, h.top.find?_eq_none hnone, rfl⟩,
    h.setTop (h.top.cons _)⟩

/-- An assignment to a name that is lost neither in the innermost nor in the
    global scope. -/
theorem assign (h : Related g ls s t) {value : Value} (htop : ¬ (ls.headD g).lost x)
    (hglobal : ¬ g.lost x) (hs : s.assign x value = (.ok (), s')) :
    ∃ t', t.assign x value = (.ok (), t') ∧ Related g ls s' t' := by
  rcases Scopes.assign_eq_ok.mp hs with ⟨v, hv, hty, rfl⟩ | ⟨hnone, v, hv, hty, rfl⟩
  · obtain ⟨w, hw⟩ := h.top.forth x v hv htop
    obtain ⟨v', hv', hty', -⟩ := h.top.back x w hw
    obtain rfl : v = v' := Option.some.inj (hv.symm.trans hv')
    exact ⟨_, Scopes.assign_eq_ok.mpr (.inl ⟨w, hw, hty' ▸ hty, rfl⟩), h.setTop (h.top.store value)⟩
  · obtain ⟨w, hw⟩ := h.globals.forth x v hv hglobal
    obtain ⟨v', hv', hty', -⟩ := h.globals.back x w hw
    obtain rfl : v = v' := Option.some.inj (hv.symm.trans hv')
    exact ⟨_, Scopes.assign_eq_ok.mpr (.inr ⟨h.top.find?_eq_none hnone, w, hw, hty' ▸ hty, rfl⟩),
      h.inner, h.globals.store value⟩

/-- A declaration that only the first program makes. -/
theorem declare_left (h : Related g ls s t) {ty : Ty} (hlost : (ls.headD g).lost x)
    (hs : s.declare x ty = (.ok (), s')) : Related g ls s' t := by
  obtain ⟨-, hnone, rfl⟩ := Scopes.declare_eq_ok.mp hs
  exact h.setTop_left (h.top.cons_left hnone hlost _)

theorem define_left (h : Related g ls s t) {value : Value} (hlost : (ls.headD g).lost x)
    (hs : s.define x value = (.ok (), s')) : Related g ls s' t := by
  obtain ⟨-, hnone, rfl⟩ := Scopes.define_eq_ok.mp hs
  exact h.setTop_left (h.top.cons_left hnone hlost _)

/-- An assignment that only the first program makes, to a variable that is not
    live. -/
theorem assign_left (h : Related g ls s t) {value : Value}
    (htop : s.top.find? x ≠ none → ¬ (ls.headD g).live x)
    (hglobal : s.top.find? x = none → ¬ g.live x) (hs : s.assign x value = (.ok (), s')) :
    Related g ls s' t := by
  rcases Scopes.assign_eq_ok.mp hs with ⟨v, hv, -, rfl⟩ | ⟨hnone, v, hv, -, rfl⟩
  · exact h.setTop_left (h.top.store_left (htop (by simp [hv])) value)
  · exact ⟨h.inner, h.globals.store_left (hglobal hnone) value⟩

/-- Parameters that both programs bind. -/
theorem bindParams (h : Related g ls s t) {params : List (String × Ty)}
    {values : List (Option Value)} (hs : Eval.bindParams s params values = .ok (some s')) :
    ∃ t', Eval.bindParams t params values = .ok (some t') ∧ Related g ls s' t' := by
  fun_induction Eval.bindParams s params values generalizing t with
  | case1 => cases hs
  | case2 => cases hs
  | case3 => cases hs
  | case4 s x ty params value values v hcast s₁ hdefine ih =>
    obtain ⟨t₁, ht₁, h₁⟩ := h.define (Change.made_eq_ok.mp hdefine)
    obtain ⟨t', ht', h'⟩ := ih h₁ hs
    exact ⟨t', by simp only [Eval.bindParams, hcast, ht₁, Change.made_ok, ht'], h'⟩
  | case5 s params values hmissing hbound =>
    cases hs
    exact ⟨t, by rw [Eval.bindParams] <;> assumption, h⟩

end Related

end Scriptlet
