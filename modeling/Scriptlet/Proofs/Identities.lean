import Scriptlet.Proofs.Doubles
import Scriptlet.Proofs.NormalForm

/-!
# Identities of values

Simplification replaces operators between a variable and a literal by
identities such as `x * 1 = x`. Not all of them hold of all values: `x * 0.0` is
`-0.0` where `x` is negative, `x + 0.0` is `0.0` where `x` is `-0.0`, and a power
of integers is computed in floats and rounded. The others are laws.

Results:
* `result_left_of_isLaw`, `result_right_of_isLaw`: a law gives what the operator
  gives, whatever the variable holds.
* `isExact_eq`: whether an operator keeps its value depends on the identity that
  applies, and not on the ids that are free.
-/

namespace Scriptlet.Optimize

/-! ## Laws -/

/-- The number one of the kind of a number. -/
def oneOf : Value → Value
  | .float _ => .float 1
  | _ => .int 1

/-- What an identity comes to for the values of its variable and its literal. -/
def Identity.result (identity : Identity) (operand literal : Value) : Except Fault Value :=
  match identity with
  | .operand => .ok operand
  | .literal => .ok literal
  | .one => .ok (oneOf literal)
  | .double => Value.apply .add operand operand
  | .square => Value.apply .mul operand operand
  | .halve => Value.apply .mul operand (.float 0.5)

/-- Whether an identity holds of all values of its variable. Powers go through
    floats; of floats, zeros have signs. -/
def Identity.isLaw (identity : Identity) (op : Arith) (literal : Value) : Bool :=
  match op, literal with
  | .pow, _ => false
  | _, .int _ => true
  | .mul, .float _ => identity ≠ .literal
  | .div, .float _ => true
  | _, _ => false

theorem isNumeral_int {n : Node} {i : Int64} (h : literalValue? n = some (.int i)) {k : Nat} :
    isNumeral n k = true ↔ i.toInt = k := by
  obtain ⟨id, line, form⟩ := n
  cases form <;> cases h
  simp [isNumeral]

theorem isNumeral_float {n : Node} {y : Float} (h : literalValue? n = some (.float y)) {k : Nat} :
    isNumeral n k = (y == Float.ofNat k) := by
  obtain ⟨id, line, form⟩ := n
  cases form <;> cases h
  rfl

theorem eq_one_of_isNumeral {n : Node} {y : Float} (h : literalValue? n = some (.float y))
    (hn : isNumeral n 1 = true) : y = 1 := by
  rw [isNumeral_float h] at hn
  exact Double.eq_of_beq Double.unpack_one hn

theorem eq_two_of_isNumeral {n : Node} {y : Float} (h : literalValue? n = some (.float y))
    (hn : isNumeral n 2 = true) : y = 2 := by
  rw [isNumeral_float h] at hn
  exact Double.eq_of_beq Double.unpack_two hn

/-- The identities for `literal op x`. -/
inductive LeftIdentity (literal : Node) : Arith → Identity → Prop
  | addZero (h : isNumeral literal 0 = true) : LeftIdentity literal .add .operand
  | mulZero (h : isNumeral literal 0 = true) : LeftIdentity literal .mul .literal
  | mulOne (h : isNumeral literal 1 = true) : LeftIdentity literal .mul .operand
  | mulTwo (h : isNumeral literal 2 = true) : LeftIdentity literal .mul .double

theorem leftIdentity_of_eq_some {op : Arith} {literal : Node} {identity : Identity}
    (h : leftIdentity? op literal = some identity) : LeftIdentity literal op identity := by
  unfold leftIdentity? at h
  split at h
  · split at h
    · next hzero => cases h; exact .addZero hzero
    · cases h
  · split at h
    · next hzero => cases h; exact .mulZero hzero
    · split at h
      · next hone => cases h; exact .mulOne hone
      · split at h
        · next htwo => cases h; exact .mulTwo htwo
        · cases h
  · cases h

/-- The identities for `x op literal`, powers apart. -/
inductive RightIdentity (literal : Node) : Arith → Identity → Prop
  | mirrored {op : Arith} {identity : Identity} (h : LeftIdentity literal op identity) :
    RightIdentity literal op identity
  | subZero (h : isNumeral literal 0 = true) : RightIdentity literal .sub .operand
  | divOne (h : isFloatNumeral literal 1 = true) : RightIdentity literal .div .operand
  | divTwo (h : isFloatNumeral literal 2 = true) : RightIdentity literal .div .halve

theorem rightIdentity_of_eq_some {op : Arith} {literal : Node} {identity : Identity}
    (h : rightIdentity? op literal = some identity) (hop : op ≠ .pow) :
    RightIdentity literal op identity := by
  cases op with
  | add => exact .mirrored (leftIdentity_of_eq_some h)
  | mul => exact .mirrored (leftIdentity_of_eq_some h)
  | sub =>
    simp only [rightIdentity?] at h
    split at h
    · next hzero => cases h; exact .subZero hzero
    · cases h
  | div =>
    simp only [rightIdentity?] at h
    split at h
    · next hone => cases h; exact .divOne hone
    · split at h
      · next htwo => cases h; exact .divTwo htwo
      · cases h
  | pow => exact absurd rfl hop

theorem inWord_eq_ok {op : Arith} {a b : Int64} {result : Option Int64} {v : Value} :
    Value.inWord op a b result = .ok v ↔ ∃ n, result = some n ∧ v = .int n := by
  cases result <;> simp [Value.inWord, eq_comm]

/-- The identities for an integer literal on the left are laws. -/
theorem result_left_int {op : Arith} {literal : Node} {identity : Identity} {i j : Int64}
    {v : Value} (h : LeftIdentity literal op identity)
    (hl : literalValue? literal = some (.int i)) (hv : Value.applyInt op i j = .ok v) :
    identity.result (.int j) (.int i) = .ok v := by
  cases h with
  | addZero h =>
    have hi : i.toInt = 0 := (isNumeral_int hl).mp h
    obtain ⟨n, hn, rfl⟩ := inWord_eq_ok.mp hv
    rw [hi, Int.zero_add, word?_toInt] at hn
    cases hn
    rfl
  | mulZero h =>
    have hi : i.toInt = 0 := (isNumeral_int hl).mp h
    obtain ⟨n, hn, rfl⟩ := inWord_eq_ok.mp hv
    rw [hi, Int.zero_mul, ← hi, word?_toInt] at hn
    cases hn
    rfl
  | mulOne h =>
    have hi : i.toInt = 1 := (isNumeral_int hl).mp h
    obtain ⟨n, hn, rfl⟩ := inWord_eq_ok.mp hv
    rw [hi, Int.one_mul, word?_toInt] at hn
    cases hn
    rfl
  | mulTwo h =>
    have hi : i.toInt = 2 := (isNumeral_int hl).mp h
    obtain ⟨n, hn, rfl⟩ := inWord_eq_ok.mp hv
    rw [hi, Int.two_mul] at hn
    exact inWord_eq_ok.mpr ⟨n, hn, rfl⟩

theorem LeftIdentity.applyInt_comm {op : Arith} {literal : Node} {identity : Identity}
    {i j : Int64} {v : Value} (h : LeftIdentity literal op identity)
    (hv : Value.applyInt op j i = .ok v) : Value.applyInt op i j = .ok v := by
  have hsum : j.toInt + i.toInt = i.toInt + j.toInt := Int.add_comm _ _
  have hproduct : j.toInt * i.toInt = i.toInt * j.toInt := Int.mul_comm _ _
  cases h with
  | addZero => exact inWord_eq_ok.mpr (hsum ▸ inWord_eq_ok.mp hv)
  | mulZero => exact inWord_eq_ok.mpr (hproduct ▸ inWord_eq_ok.mp hv)
  | mulOne => exact inWord_eq_ok.mpr (hproduct ▸ inWord_eq_ok.mp hv)
  | mulTwo => exact inWord_eq_ok.mpr (hproduct ▸ inWord_eq_ok.mp hv)

/-- The identities for an integer literal on the right are laws, powers apart. -/
theorem result_right_int {op : Arith} {literal : Node} {identity : Identity} {i j : Int64}
    {v : Value} (h : RightIdentity literal op identity)
    (hl : literalValue? literal = some (.int i)) (hv : Value.applyInt op j i = .ok v) :
    identity.result (.int j) (.int i) = .ok v := by
  have hfloat : ∀ k, isFloatNumeral literal k = false := by
    obtain ⟨id, line, form⟩ := literal
    cases form <;> cases hl
    exact fun _ => rfl
  cases h with
  | mirrored h => exact result_left_int h hl (h.applyInt_comm hv)
  | subZero h =>
    have hi : i.toInt = 0 := (isNumeral_int hl).mp h
    obtain ⟨n, hn, rfl⟩ := inWord_eq_ok.mp hv
    rw [hi, Int.sub_zero, word?_toInt] at hn
    cases hn
    rfl
  | divOne h =>
    rw [hfloat] at h
    cases h
  | divTwo h =>
    rw [hfloat] at h
    cases h

/-- Of the identities for a float literal on the left, those for the factors one
    and two are laws. -/
theorem result_left_float {op : Arith} {literal : Node} {identity : Identity} {y z : Float}
    (h : LeftIdentity literal op identity) (hl : literalValue? literal = some (.float y))
    (hlaw : identity.isLaw op (.float y) = true) :
    identity.result (.float z) (.float y) = (Value.applyFloat op y z).map .float := by
  cases h with
  | addZero => cases hlaw
  | mulZero => cases hlaw
  | mulOne h =>
    have hproduct : y * z = z := by rw [eq_one_of_isNumeral hl h, Double.one_mul]
    show Except.ok (Value.float z) = .ok (.float (y * z))
    rw [hproduct]
  | mulTwo h =>
    have hproduct : y * z = z + z := by rw [eq_two_of_isNumeral hl h, Double.two_mul]
    show Except.ok (Value.float (z + z)) = .ok (.float (y * z))
    rw [hproduct]

/-- Of the identities for a float literal on the right, those for the factors and
    the divisors one and two are laws. -/
theorem result_right_float {op : Arith} {literal : Node} {identity : Identity} {y z : Float}
    (h : RightIdentity literal op identity) (hl : literalValue? literal = some (.float y))
    (hlaw : identity.isLaw op (.float y) = true) :
    identity.result (.float z) (.float y) = (Value.applyFloat op z y).map .float := by
  have hnumeral : ∀ k, isFloatNumeral literal k = isNumeral literal k := by
    obtain ⟨id, line, form⟩ := literal
    cases form <;> cases hl
    exact fun _ => rfl
  cases h with
  | mirrored h =>
    rw [result_left_float h hl hlaw]
    cases h with
    | addZero => cases hlaw
    | mulZero => cases hlaw
    | mulOne => simp only [Value.applyFloat, Double.mul_comm y z]
    | mulTwo => simp only [Value.applyFloat, Double.mul_comm y z]
  | subZero => cases hlaw
  | divOne h =>
    have hquotient : z / y = z := by
      rw [eq_one_of_isNumeral hl (hnumeral 1 ▸ h), Double.div_one]
    have hnonzero : (y == 0) = false := by
      rw [eq_one_of_isNumeral hl (hnumeral 1 ▸ h)]
      rfl
    show Except.ok (Value.float z) = _
    simp only [Value.applyFloat, hnonzero, hquotient]
    rfl
  | divTwo h =>
    have hquotient : z / y = z * 0.5 := by
      rw [eq_two_of_isNumeral hl (hnumeral 2 ▸ h), Double.div_two]
    have hnonzero : (y == 0) = false := by
      rw [eq_two_of_isNumeral hl (hnumeral 2 ▸ h)]
      rfl
    show Except.ok (Value.float (z * 0.5)) = _
    simp only [Value.applyFloat, hnonzero, hquotient]
    rfl

theorem isNumber_literal {n : Node} {l : Value} (h : literalValue? n = some l) :
    (∃ i, l = .int i) ∨ ∃ y, l = .float y := by
  obtain ⟨id, line, form⟩ := n
  cases form <;> cases h
  · exact .inl ⟨_, rfl⟩
  · exact .inr ⟨_, rfl⟩

/-- **A law gives what the operator gives**, for a literal on the left. -/
theorem result_left_of_isLaw {op : Arith} {literal : Node} {identity : Identity} {x l v : Value}
    (h : leftIdentity? op literal = some identity) (hl : literalValue? literal = some l)
    (hlaw : identity.isLaw op l = true) (hv : Value.apply op l x = .ok v) :
    identity.result x l = .ok v := by
  have hleft := leftIdentity_of_eq_some h
  rcases isNumber_literal hl with ⟨i, rfl⟩ | ⟨y, rfl⟩
  · cases x with
    | int j => exact result_left_int hleft hl hv
    | float _ => cases hv
    | str _ => cases hv
    | bool _ => cases hv
  · cases x with
    | float z => exact (result_left_float hleft hl hlaw).trans hv
    | int _ => cases hv
    | str _ => cases hv
    | bool _ => cases hv

/-- **A law gives what the operator gives**, for a literal on the right. -/
theorem result_right_of_isLaw {op : Arith} {literal : Node} {identity : Identity} {x l v : Value}
    (h : rightIdentity? op literal = some identity) (hl : literalValue? literal = some l)
    (hlaw : identity.isLaw op l = true) (hv : Value.apply op x l = .ok v) :
    identity.result x l = .ok v := by
  have hop : op ≠ .pow := by
    rintro rfl
    cases hlaw
  have hright := rightIdentity_of_eq_some h hop
  rcases isNumber_literal hl with ⟨i, rfl⟩ | ⟨y, rfl⟩
  · cases x with
    | int j => exact result_right_int hright hl hv
    | float _ => cases hv
    | str _ => cases hv
    | bool _ => cases hv
  · cases x with
    | float z => exact (result_right_float hright hl hlaw).trans hv
    | int _ => cases hv
    | str _ => cases hv
    | bool _ => cases hv

/-! ## Operands of simplified operators -/

/-- A simplified tree, with new ids from zero on. -/
def simplified (n : Node) : Node := ((simplify n).run 0).1

/-- The form of a number or of a variable that is read. -/
def atom? (n : Node) : Option (Form Node) :=
  if n.isNumber ∨ isRead n then some n.form else none

/-- What an identity depends on: the forms of its variable and of its literal. -/
def Match.key (m : Match) : Identity × Form Node × Form Node :=
  (m.identity, m.operand.form, m.literal.form)

theorem isNumber_congr {n n' : Node} (h : n.form = n'.form) : n.isNumber = n'.isNumber := by
  unfold Node.isNumber
  rw [h]

theorem isRead_congr {n n' : Node} (h : n.form = n'.form) : isRead n = isRead n' := by
  unfold isRead
  rw [h]

theorem atom?_congr {n n' : Node} (h : n.form = n'.form) : atom? n = atom? n' := by
  unfold atom?
  rw [isNumber_congr h, isRead_congr h, h]

theorem form_eq_of_atom? {n : Node} {form : Form Node} (h : atom? n = some form) :
    n.form = form := by
  unfold atom? at h
  split at h
  · exact Option.some.inj h
  · cases h

theorem match?_key {op : Arith} {left left' right right' : Node} (hl : left.form = left'.form)
    (hr : right.form = right'.form) :
    (match? op left right).map Match.key = (match? op left' right').map Match.key := by
  have hleft : leftIdentity? op left = leftIdentity? op left' := by
    unfold leftIdentity? isNumeral
    rw [hl]
  have hright : rightIdentity? op right = rightIdentity? op right' := by
    unfold rightIdentity? isNumeral isFloatNumeral
    rw [hr]
  unfold match?
  rw [isNumber_congr hl, isNumber_congr hr, isRead_congr hl, isRead_congr hr, hleft, hright]
  split
  · simp [Option.map_map, Function.comp_def, Match.key, hl, hr]
  · split
    · simp [Option.map_map, Function.comp_def, Match.key, hl, hr]
    · rfl

theorem literalValue?_eq_none {n : Node} (h : n.isNumber = false) : literalValue? n = none := by
  obtain ⟨id, line, form⟩ := n
  cases form <;> first | rfl | cases h

theorem foldLiterals?_congr {op : Arith} {left left' right right' : Node}
    (hl : left.form = left'.form) (hr : right.form = right'.form) :
    foldLiterals? op left right = foldLiterals? op left' right' := by
  unfold foldLiterals? literalValue?
  rw [hl, hr]

theorem isNumber_of_atom?_eq_none {n : Node} (h : atom? n = none) :
    n.isNumber = false ∧ isRead n = false := by
  unfold atom? at h
  split at h
  · cases h
  · next hno => simpa using hno

/-- No identity applies to an operand that is neither a number nor a variable. -/
theorem match?_of_atom?_eq_none {op : Arith} {left right : Node}
    (h : atom? left = none ∨ atom? right = none) : match? op left right = none := by
  unfold match?
  rcases h with h | h
  · simp [isNumber_of_atom?_eq_none h]
  · simp [isNumber_of_atom?_eq_none h]

/-- An operand that is neither a number nor a variable leaves the operator
    alone. -/
theorem simplifyArith_of_atom?_eq_none {id line : Nat} {op : Arith} {left right : Node}
    (h : atom? left = none ∨ atom? right = none) :
    simplifyArith id line op left right = pure ⟨id, line, .arith op left right⟩ := by
  have hfold : foldLiterals? op left right = none := by
    unfold foldLiterals?
    rcases h with h | h
    · simp [literalValue?_eq_none (isNumber_of_atom?_eq_none h).1]
    · simp [literalValue?_eq_none (isNumber_of_atom?_eq_none h).1]
  simp only [simplifyArith, hfold, match?_of_atom?_eq_none h]

/-- What an identity makes of an operator is a number or a variable depending on
    its key only. -/
theorem atom?_applyIdentity {m m' : Match} (h : m.key = m'.key) (line line' k k' : Nat) :
    atom? ((applyIdentity line m).run k).1 = atom? ((applyIdentity line' m').run k').1 := by
  obtain ⟨identity, operand, literal⟩ := m
  obtain ⟨identity', operand', literal'⟩ := m'
  simp only [Match.key, Prod.mk.injEq] at h
  obtain ⟨rfl, hoperand, hliteral⟩ := h
  cases identity with
  | operand => exact atom?_congr hoperand
  | literal => exact atom?_congr hliteral
  | one =>
    refine atom?_congr ?_
    show oneLike literal = oneLike literal'
    unfold oneLike
    rw [hliteral]
  | double => rfl
  | square => rfl
  | halve => rfl

/-- Whether a simplified operator is a number or a variable, and which, depends on
    the same of its operands only. -/
theorem atom?_simplifyArith {op : Arith} {left left' right right' : Node}
    (hl : atom? left = atom? left') (hr : atom? right = atom? right')
    (id id' line line' k k' : Nat) :
    atom? ((simplifyArith id line op left right).run k).1 =
      atom? ((simplifyArith id' line' op left' right').run k').1 := by
  cases hleft : atom? left with
  | none =>
    rw [simplifyArith_of_atom?_eq_none (.inl hleft),
      simplifyArith_of_atom?_eq_none (.inl (hl ▸ hleft))]
    rfl
  | some f =>
    cases hright : atom? right with
    | none =>
      rw [simplifyArith_of_atom?_eq_none (.inr hright),
        simplifyArith_of_atom?_eq_none (.inr (hr ▸ hright))]
      rfl
    | some g =>
      have hlform : left.form = left'.form :=
        (form_eq_of_atom? hleft).trans (form_eq_of_atom? (hl ▸ hleft)).symm
      have hrform : right.form = right'.form :=
        (form_eq_of_atom? hright).trans (form_eq_of_atom? (hr ▸ hright)).symm
      have hkey : (match? op left right).map Match.key = (match? op left' right').map Match.key :=
        match?_key hlform hrform
      unfold simplifyArith
      rw [foldLiterals?_congr hlform hrform]
      split
      · exact atom?_congr rfl
      · cases hm : match? op left right with
        | none =>
          rw [hm] at hkey
          have hm' : match? op left' right' = none := by simpa using hkey.symm
          simp only [hm']
          rfl
        | some m =>
          rw [hm] at hkey
          obtain ⟨m', hm', hkey'⟩ := Option.map_eq_some_iff.mp hkey.symm
          simp only [hm']
          exact atom?_applyIdentity hkey'.symm line line' k k'

/-- Whether a simplified tree is a number or a variable, and which, does not
    depend on the ids that are free. -/
theorem atom?_simplify (n : Node) (k k' : Nat) :
    atom? ((simplify n).run k).1 = atom? ((simplify n).run k').1 := by
  induction n using Node.induction generalizing k k' with
  | h n ih =>
    obtain ⟨id, line, form⟩ := n
    cases form with
    | arith op left right =>
      simp only [simplify]
      exact atom?_simplifyArith (ih left (by simp [Node.children, Form.children]) _ _)
        (ih right (by simp [Node.children, Form.children]) _ _) _ _ _ _ _ _
    | _ => rfl

/-! ## Exact identities -/

/-- Whether an identity gives the value of its operator: a law does, and otherwise
    the values of the variable and of the literal decide. -/
def Identity.gives (identity : Identity) (op : Arith) (operand literal value : Value) : Bool :=
  identity.isLaw op literal || identity.result operand literal = .ok value

/-- Whether simplification keeps the value of `left op right` where the operands
    have these values. -/
def isExact (op : Arith) (left right : Node) (a b : Value) : Bool :=
  match Value.apply op a b, match? op (simplified left) (simplified right) with
  | .ok value, some m =>
    if (simplified left).isNumber then m.identity.gives op b a value
    else m.identity.gives op a b value
  | _, _ => true

/-- A tree and what simplification makes of it, whatever ids were free. -/
def Rewritten (n n' : Node) : Prop := ∃ k, n' = ((simplify n).run k).1

theorem Rewritten.atom?_eq {n n' : Node} (h : Rewritten n n') : atom? n' = atom? (simplified n) := by
  obtain ⟨k, rfl⟩ := h
  exact atom?_simplify n k 0

theorem Rewritten.form_eq {n n' : Node} (h : Rewritten n n') (hatom : atom? n' ≠ none) :
    n'.form = (simplified n).form := by
  obtain ⟨form, hform⟩ := Option.ne_none_iff_exists'.mp hatom
  rw [form_eq_of_atom? hform, form_eq_of_atom? (h.atom?_eq ▸ hform)]

/-- Which identity applies does not depend on the ids that were free. -/
theorem Rewritten.match?_key {op : Arith} {left left' right right' : Node}
    (hleft : Rewritten left left') (hright : Rewritten right right') :
    (match? op left' right').map Match.key =
      (match? op (simplified left) (simplified right)).map Match.key := by
  by_cases hatom : atom? left' = none ∨ atom? right' = none
  · rw [match?_of_atom?_eq_none hatom]
    rw [hleft.atom?_eq, hright.atom?_eq] at hatom
    rw [match?_of_atom?_eq_none hatom]
  · rw [not_or] at hatom
    exact Optimize.match?_key (hleft.form_eq hatom.1) (hright.form_eq hatom.2)

/-- Whether an operator keeps its value depends on the identity that applies. -/
theorem isExact_eq {op : Arith} {left left' right right' : Node} {a b v : Value} {m : Match}
    (hleft : Rewritten left left') (hright : Rewritten right right')
    (hm : match? op left' right' = some m) (hv : Value.apply op a b = .ok v) :
    isExact op left right a b =
      if left'.isNumber then m.identity.gives op b a v else m.identity.gives op a b v := by
  have hkey : (match? op left' right').map Match.key = _ := hleft.match?_key hright
  rw [hm] at hkey
  obtain ⟨m₀, hm₀, hkey₀⟩ := Option.map_eq_some_iff.mp hkey.symm
  have hidentity : m₀.identity = m.identity := congrArg Prod.fst hkey₀
  have hatom : atom? left' ≠ none := by
    intro hnone
    rw [match?_of_atom?_eq_none (.inl hnone)] at hm
    cases hm
  unfold isExact
  rw [hv, hm₀, ← isNumber_congr (hleft.form_eq hatom)]
  simp only [hidentity]

/-- An operator to which no identity applies keeps its value. -/
theorem isExact_of_match?_eq_none {op : Arith} {left left' right right' : Node}
    (hleft : Rewritten left left') (hright : Rewritten right right')
    (hm : match? op left' right' = none) (a b : Value) : isExact op left right a b = true := by
  have hkey : (match? op left' right').map Match.key = _ := hleft.match?_key hright
  rw [hm] at hkey
  have hnone : match? op (simplified left) (simplified right) = none := by simpa using hkey.symm
  unfold isExact
  rw [hnone]
  split
  · next hsome => cases hsome
  · rfl

theorem gives_iff {op : Arith} {identity : Identity} {x l v : Value}
    (h : identity.isLaw op l = true → identity.result x l = .ok v) :
    identity.gives op x l v = true ↔ identity.result x l = .ok v := by
  unfold Identity.gives
  rw [Bool.or_eq_true, decide_eq_true_iff]
  constructor
  · rintro (hlaw | hresult)
    · exact h hlaw
    · exact hresult
  · exact .inr

/-- A folded operator is the literal of its value. -/
theorem literalValue?_of_foldLiterals? {op : Arith} {left right : Node} {form : Form Node}
    (h : foldLiterals? op left right = some form) (id line : Nat) :
    ∃ a b v, literalValue? left = some a ∧ literalValue? right = some b ∧
      Value.apply op a b = .ok v ∧ literalValue? ⟨id, line, form⟩ = some v := by
  unfold foldLiterals? at h
  split at h
  · next a b ha hb =>
    split at h
    · next v hv =>
      refine ⟨a, b, v, ha, hb, hv, ?_⟩
      cases v with
      | int i => cases h; rfl
      | float x =>
        simp only [literalForm?] at h
        split at h
        · cases h; rfl
        · cases h
      | str _ => cases h
      | bool _ => cases h
    · cases h
  · cases h

/-- No identity applies between two numbers. -/
theorem match?_of_literals {op : Arith} {left right : Node} {a b : Value}
    (ha : literalValue? left = some a) (hb : literalValue? right = some b) :
    match? op left right = none := by
  have hread : ∀ {n v}, literalValue? n = some v → isRead n = false := by
    rintro ⟨_, _, form⟩ v hn
    cases form <;> first | rfl | cases hn
  unfold match?
  simp [hread ha, hread hb]

theorem exists_literalValue? {n : Node} (h : n.isNumber = true) :
    ∃ v, literalValue? n = some v := by
  obtain ⟨id, line, form⟩ := n
  cases form <;> first | cases h; done | exact ⟨_, rfl⟩

theorem atom?_ne_none_of_literalValue? {n : Node} {v : Value} (h : literalValue? n = some v) :
    atom? n ≠ none := by
  obtain ⟨id, line, form⟩ := n
  cases form <;> first | cases h; done | simp [atom?, Node.isNumber]

end Scriptlet.Optimize
