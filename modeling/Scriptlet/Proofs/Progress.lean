import Scriptlet.Proofs.Outcome

/-!
# Parsers move on

Every error pays for itself with a token. A parser that fails has either read nothing
and recorded nothing, or recorded fewer errors than it read tokens: the brace before
a block is not charged to any error in the block. A block goes on after an error
behind the tokens the statement has read, or, if there are none, behind the token it
could not start with. That token does not close the block, since a block ends there
before it looks for a statement.

The errors themselves are those at the places where the parser stood, so they are
recorded from left to right, and the end of the tokens once.

So the parser never runs out of rules that may be entered: twelve for each token
ahead, and those it takes to come down to a primary, are enough. A larger bound
changes nothing.

Results:
* `affords_resume`: what going on after an error costs.
* `Progress.all`: every rule comes to something if the bound is large enough, and moves
  on.
* `outcome_mono`: a larger bound keeps every outcome.
* `parse_eq_of_run`: a parsed program holds what its outermost block comes to under any
  bound.
-/

namespace Scriptlet.Parser

variable {α β : Type}

/-! ## Where errors are found -/

/-- The error at a position among some tokens. The end comes after the last one. -/
def errorAt (tokens : List Lexed) (position : Nat) : SourceError :=
  match tokens[position]? with
  | some t => .unexpectedToken t.token t.line
  | none => .unexpectedEnd ((tokens.getLast?.map Lexed.line).getD 1)

theorem errorAt_of_lt {tokens : List Lexed} {p : Nat} (hp : p < tokens.length) :
    errorAt tokens p = .unexpectedToken tokens[p].token tokens[p].line := by
  unfold errorAt
  rw [List.getElem?_eq_getElem hp]

theorem errorAt_of_le {tokens : List Lexed} {p : Nat} (hp : tokens.length ≤ p) :
    errorAt tokens p = .unexpectedEnd ((tokens.getLast?.map Lexed.line).getD 1) := by
  unfold errorAt
  rw [List.getElem?_eq_none hp]

/-- The errors were found from left to right, none of them ahead, and the end at most
    once. -/
structure Trail (tokens : List Lexed) (s : State) : Prop where
  ahead : s.ahead <:+ tokens
  endLine : s.endLine = (tokens.getLast?.map Lexed.line).getD 1
  errors : ∃ positions : List Nat, s.errors.toList = positions.map (errorAt tokens) ∧
    positions.Pairwise (fun p q => p ≤ q ∧ p < tokens.length) ∧
    ∀ p ∈ positions, p + s.ahead.length ≤ tokens.length

/-- Where no position but the last one may be that of the end, the end is the last. -/
theorem getLast?_eq_of_pairwise {n p : Nat} {positions : List Nat}
    (h : positions.Pairwise fun p q => p ≤ q ∧ p < n) (hmem : p ∈ positions) (hp : n ≤ p) :
    positions.getLast? = some p := by
  obtain ⟨before, after, rfl⟩ := List.append_of_mem hmem
  cases after with
  | nil => simp
  | cons q after =>
    have hlt := (List.pairwise_cons.mp (List.pairwise_append.mp h).2.1).1 q List.mem_cons_self
    omega

namespace Trail

variable {tokens : List Lexed} {s : State}

theorem start (tokens : List Lexed) (firstId : Nat) : Trail tokens (start tokens firstId) :=
  ⟨List.suffix_refl _, rfl, [], rfl, .nil, nofun⟩

theorem drop (h : Trail tokens s) {ahead : List Lexed} (hahead : ahead <:+ s.ahead) :
    Trail tokens { s with ahead := ahead } := by
  obtain ⟨positions, herrors, hsorted, hpositions⟩ := h.errors
  refine ⟨hahead.trans h.ahead, h.endLine, positions, herrors, hsorted, fun p hp => ?_⟩
  exact Nat.le_trans (Nat.add_le_add_left hahead.length_le p) (hpositions p hp)

theorem here_eq (h : Trail tokens s) :
    here s = errorAt tokens (tokens.length - s.ahead.length) := by
  obtain ⟨before, rfl⟩ := h.ahead
  unfold here errorAt
  rw [List.length_append, Nat.add_sub_cancel, List.getElem?_append_right (Nat.le_refl _),
    Nat.sub_self]
  cases hahead : s.ahead with
  | nil => simp [h.endLine, hahead]
  | cons t rest => rfl

/-- An error that is recorded is found where the parser has come to. -/
theorem record (h : Trail tokens s) :
    Trail tokens { s with errors := recorded (here s) s.errors } := by
  obtain ⟨positions, herrors, hsorted, hpositions⟩ := h.errors
  refine ⟨h.ahead, h.endLine, ?_⟩
  dsimp only
  rw [toList_recorded]
  split
  · exact ⟨positions, herrors, hsorted, hpositions⟩
  · next hagain =>
    have hle := h.ahead.length_le
    refine ⟨positions ++ [tokens.length - s.ahead.length], ?_, ?_, ?_⟩
    · rw [herrors, h.here_eq, List.map_append, List.map_singleton]
    · refine List.pairwise_append.mpr ⟨hsorted, List.pairwise_singleton _ _, ?_⟩
      intro p hp q hq
      obtain rfl := List.mem_singleton.mp hq
      have hpos := hpositions p hp
      refine ⟨by omega, Nat.not_le.mp fun hend => ?_⟩
      -- the end was found before, and nothing since then
      have hlast := getLast?_eq_of_pairwise hsorted hp hend
      have hnil : s.ahead = [] := List.eq_nil_of_length_eq_zero (by omega)
      refine hagain s.endLine ((tokens.getLast?.map Lexed.line).getD 1) ?_ ?_
      · unfold here
        rw [hnil]
      · rw [herrors, List.getLast?_map, hlast, Option.map_some, errorAt_of_le hend]
    · intro p hp
      rcases List.mem_append.mp hp with hp | hp
      · exact hpositions p hp
      · rw [List.mem_singleton.mp hp]
        omega

end Trail

/-! ## Progress -/

/-- A step of a parser. Either nothing was read, or fewer errors were recorded than
    tokens read. -/
structure Moves (tokens : List Lexed) (s t : State) : Prop where
  trail : Trail tokens s → Trail tokens t
  spent : t.ahead = s.ahead ∧ t.errors = s.errors ∨ t.ahead.length < s.ahead.length ∧
    t.errors.size + t.ahead.length < s.errors.size + s.ahead.length

/-- A step of a block. Not more errors were recorded than tokens read. -/
structure Affords (tokens : List Lexed) (s t : State) : Prop where
  trail : Trail tokens s → Trail tokens t
  length : t.ahead.length ≤ s.ahead.length
  spent : t.errors.size + t.ahead.length ≤ s.errors.size + s.ahead.length

namespace Moves

variable {tokens : List Lexed} {s t u : State}

theorem refl (tokens : List Lexed) (s : State) : Moves tokens s s := ⟨id, .inl ⟨rfl, rfl⟩⟩

theorem fresh (tokens : List Lexed) (s : State) (id : Nat) :
    Moves tokens s { s with nextId := id } :=
  ⟨fun h => ⟨h.ahead, h.endLine, h.errors⟩, .inl ⟨rfl, rfl⟩⟩

theorem drop {x : Lexed} {tail : List Lexed} (hs : s.ahead = x :: tail) :
    Moves tokens s { s with ahead := tail } := by
  refine ⟨fun h => h.drop (hs ▸ List.suffix_cons x tail), .inr ?_⟩
  simp [hs]

theorem affords (h : Moves tokens s t) : Affords tokens s t := by
  rcases h.spent with ⟨hahead, herrors⟩ | ⟨hlength, hspent⟩
  · exact ⟨h.trail, Nat.le_of_eq (by rw [hahead]), Nat.le_of_eq (by rw [hahead, herrors])⟩
  · exact ⟨h.trail, Nat.le_of_lt hlength, Nat.le_of_lt hspent⟩

theorem trans (h : Moves tokens s t) (h' : Moves tokens t u) : Moves tokens s u := by
  refine ⟨h'.trail ∘ h.trail, ?_⟩
  rcases h.spent with ⟨hahead, herrors⟩ | ⟨hlength, hspent⟩
  · rw [← hahead, ← herrors]
    exact h'.spent
  · have hlength' := h'.affords.length
    have hspent' := h'.affords.spent
    exact .inr ⟨by omega, by omega⟩

/-- A token that was read pays for a block after it. -/
theorem trans_affords (h : Moves tokens s t) (hlength : t.ahead.length < s.ahead.length)
    (h' : Affords tokens t u) : Moves tokens s u := by
  refine ⟨h'.trail ∘ h.trail, .inr ?_⟩
  rcases h.spent with ⟨hahead, -⟩ | ⟨-, hspent⟩
  · rw [hahead] at hlength
    exact absurd hlength (Nat.lt_irrefl _)
  · have hlength' := h'.length
    have hspent' := h'.spent
    omega

end Moves

theorem Affords.refl (tokens : List Lexed) (s : State) : Affords tokens s s :=
  (Moves.refl tokens s).affords

theorem Affords.trans {tokens : List Lexed} {s t u : State} (h : Affords tokens s t)
    (h' : Affords tokens t u) : Affords tokens s u :=
  ⟨h'.trail ∘ h.trail, Nat.le_trans h'.length h.length, Nat.le_trans h'.spent h.spent⟩

theorem size_recorded_le (e : SourceError) (errors : Array SourceError) :
    (recorded e errors).size ≤ errors.size + 1 := by
  unfold recorded
  split <;> simp

/-- **Going on after an error always takes a token.** If the statement has read
    nothing, the token that is dropped pays for the error. -/
theorem affords_resume {tokens : List Lexed} {nested : Bool} {s u : State} {x : Lexed}
    {tail : List Lexed} (hs : s.ahead = x :: tail)
    (hopen : ¬ (nested ∧ x.token = .sign .closeBrace)) (h : Moves tokens s u) :
    Affords tokens s (resume nested s.ahead.length (here u) u) ∧
      (resume nested s.ahead.length (here u) u).ahead.length < s.ahead.length := by
  have hsize := size_recorded_le (here u) u.errors
  have htrail : Trail tokens s → Trail tokens { u with errors := recorded (here u) u.errors } :=
    fun hs => (h.trail hs).record
  unfold resume
  rcases h.spent with ⟨hahead, herrors⟩ | ⟨hlength, hspent⟩
  · have hdrop : u.ahead.length = s.ahead.length ∧
        ¬ (nested ∧ u.ahead.head?.map Lexed.token = some (.sign .closeBrace)) := by
      simpa [hahead, hs] using hopen
    have htail : u.ahead.tail = tail := by rw [hahead, hs, List.tail_cons]
    have hsuffix : tail <:+ u.ahead := htail ▸ List.tail_suffix u.ahead
    have hlength : tail.length + 1 = s.ahead.length := by rw [hs, List.length_cons]
    simp only [if_pos hdrop, htail]
    rw [herrors] at hsize ⊢
    exact ⟨⟨fun hs' => herrors ▸ (htrail hs').drop hsuffix, by dsimp only; omega,
      by dsimp only; omega⟩, by omega⟩
  · have hkeep : ¬ (u.ahead.length = s.ahead.length ∧
        ¬ (nested ∧ u.ahead.head?.map Lexed.token = some (.sign .closeBrace))) :=
      fun hdrop => Nat.ne_of_lt hlength hdrop.1
    simp only [if_neg hkeep]
    exact ⟨⟨htrail, Nat.le_of_lt hlength, by dsimp only; omega⟩, hlength⟩

/-! ## Parsers that move on -/

/-- What a parser comes to. A result is found with fewer than `most` tokens left; an
    error is that at the place the parser has come to. -/
inductive Comes (tokens : List Lexed) (most : Nat) (s : State) :
    Option (Except SourceError α × State) → Prop
  | ok {a : α} {t : State} : Moves tokens s t → t.ahead.length < most →
      Comes tokens most s (some (.ok a, t))
  | error {t : State} : Moves tokens s t → Comes tokens most s (some (.error (here t), t))

namespace Comes

variable {tokens : List Lexed} {most least : Nat} {s t : State}
  {r : Option (Except SourceError α × State)}

theorem mono (h : Comes tokens least s r) (hmost : least ≤ most) : Comes tokens most s r := by
  cases h with
  | ok hmoves hlength => exact .ok hmoves (Nat.lt_of_lt_of_le hlength hmost)
  | error hmoves => exact .error hmoves

theorem after (h : Comes tokens most t r) (hst : Moves tokens s t) : Comes tokens most s r := by
  cases h with
  | ok hmoves hlength => exact .ok (hst.trans hmoves) hlength
  | error hmoves => exact .error (hst.trans hmoves)

end Comes

/-- A parser that moves on. -/
def Steady (tokens : List Lexed) (most : Nat) (s : State) (p : Parser α) : Prop :=
  Comes tokens most s (outcome p s)

namespace Steady

variable {tokens : List Lexed} {most least : Nat} {s : State} {p : Parser α}

theorem pure {a : α} (hs : s.ahead.length < most) : Steady tokens most s (pure a) :=
  .ok (.refl tokens s) hs

theorem unexpected : Steady tokens most s (unexpected : Parser α) := by
  unfold Steady
  rw [outcome_unexpected]
  exact .error (.refl tokens s)

theorem mono (h : Steady tokens least s p) (hmost : least ≤ most) : Steady tokens most s p :=
  Comes.mono h hmost

theorem bind {m : Parser β} {f : β → Parser α} (hm : Steady tokens least s m)
    (hf : ∀ b t, t.ahead.length < least → Steady tokens most t (f b)) :
    Steady tokens most s (m >>= f) := by
  unfold Steady at hm ⊢
  generalize hr : outcome m s = r at hm
  cases hm with
  | @ok b t hmoves hlength =>
    rw [outcome_bind_ok hr]
    exact (hf b t hlength).after hmoves
  | error hmoves =>
    rw [outcome_bind_error hr]
    exact .error hmoves

theorem take {accept? : Token → Option α} :
    Steady tokens s.ahead.length s (take accept?) := by
  unfold Steady
  cases haccept : s.ahead.head?.bind fun t => accept? t.token with
  | none =>
    rw [outcome_take_none haccept]
    exact unexpected
  | some a =>
    obtain ⟨x, hx, ha⟩ := Option.bind_eq_some_iff.mp haccept
    obtain ⟨tail, hahead⟩ := List.head?_eq_some_iff.mp hx
    rw [outcome_take_some hahead ha]
    exact .ok (.drop hahead) (by simp [hahead])

theorem sign (sg : Sign) : Steady tokens s.ahead.length s (sign sg) :=
  bind take fun _ _ ht => pure ht

theorem get_bind {f : State → Parser α} (h : Steady tokens most s (f s)) :
    Steady tokens most s (get >>= f) := h

theorem peek_bind {f : Option Lexed → Parser α} (h : Steady tokens most s (f s.ahead.head?)) :
    Steady tokens most s (liftM peek >>= f) := h

theorem sees_bind {sg : Sign} {f : Bool → Parser α}
    (htrue : s.ahead.head?.map Lexed.token = some (.sign sg) → Steady tokens most s (f true))
    (hfalse : Steady tokens most s (f false)) :
    Steady tokens most s (liftM (sees sg) >>= f) := by
  unfold Steady
  rw [outcome_sees_bind]
  by_cases hs : s.ahead.head?.map Lexed.token = some (.sign sg)
  · rw [decide_eq_true hs]
    exact htrue hs
  · rw [decide_eq_false hs]
    exact hfalse

/-- Taking the token that is known to come next. -/
theorem advance_bind {x : Lexed} {tail : List Lexed} {f : Unit → Parser α}
    (hs : s.ahead = x :: tail)
    (hf : ∀ t, t.ahead = tail → t.ahead.length + 1 = s.ahead.length → Steady tokens most t (f ())) :
    Steady tokens most s (liftM advance >>= f) := by
  unfold Steady
  rw [outcome_advance_bind, hs, List.tail_cons]
  exact (hf { s with ahead := tail } rfl (by rw [hs]; rfl)).after (.drop hs)

theorem node {line : Nat} {form : Form Node} (hs : s.ahead.length < most) :
    Steady tokens most s (liftM (Parser.node line form)) :=
  .ok (.fresh tokens s _) hs

theorem node_bind {line : Nat} {form : Form Node} {f : Node → Parser α}
    (hf : ∀ n t, t.ahead.length = s.ahead.length → Steady tokens most t (f n)) :
    Steady tokens most s (liftM (Parser.node line form) >>= f) :=
  (hf ⟨s.nextId, line, form⟩ { s with nextId := s.nextId + 1 } rfl).after (.fresh tokens s _)

theorem typedName : Steady tokens s.ahead.length s typedName := by
  refine bind take fun _ t ht => ?_
  refine bind (sign .colon) fun _ t ht => ?_
  refine bind take fun _ t ht => ?_
  refine node_bind fun _ t ht => ?_
  exact node_bind fun _ t ht => pure (by omega)

theorem moreParams {fuel : Nat} (hfuel : s.ahead.length < fuel) :
    Steady tokens s.ahead.length s (moreParams fuel) := by
  induction fuel generalizing s with
  | zero => omega
  | succ fuel ih =>
    rw [Parser.moreParams]
    refine sees_bind (fun hcomma => ?_) ?_
    · obtain ⟨x, tail, hahead, -⟩ := exists_of_head? hcomma
      refine advance_bind hahead fun t _ ht => ?_
      refine bind typedName fun _ t ht => ?_
      exact bind (ih (by omega)) fun _ t ht => pure (by omega)
    · exact bind (sign .closeParen) fun _ t ht => pure ht

theorem paramList {fuel : Nat} (hfuel : s.ahead.length < fuel) :
    Steady tokens s.ahead.length s (paramList fuel) := by
  refine bind (sign .openParen) fun _ t ht => ?_
  refine sees_bind (fun hclose => ?_) ?_
  · obtain ⟨x, tail, hahead, -⟩ := exists_of_head? hclose
    exact advance_bind hahead fun t _ ht => pure (by omega)
  · refine bind typedName fun _ t ht => ?_
    refine bind (moreParams (by omega)) fun _ t ht => ?_
    exact node_bind fun _ t ht => pure (by omega)

end Steady

/-! ## The rules -/

/-- A rule moves on if enough rules may be entered. -/
def Suffices (tokens : List Lexed) (rank slack fuel : Nat) (p : Parser α) : Prop :=
  ∀ s length, s.ahead.length = length → 12 * length + rank ≤ fuel →
    Steady tokens (length + slack) s p

/-- The use of a rule in another one. -/
theorem Suffices.at {tokens : List Lexed} {rank slack fuel most : Nat} {p : Parser α} {s : State}
    (h : Suffices tokens rank slack fuel p) (hfuel : 12 * s.ahead.length + rank ≤ fuel)
    (hmost : s.ahead.length + slack ≤ most) : Steady tokens most s p :=
  (h s _ rfl hfuel).mono hmost

/-- A block comes to something, and affords its errors. -/
def Closes (tokens : List Lexed) (s : State) (r : Option (α × State)) : Prop :=
  ∃ a t, r = some (a, t) ∧ Affords tokens s t

/-- A block after a token that is read. -/
theorem Steady.bind_block {γ : Type} {tokens : List Lexed} {most : Nat} {s : State}
    {m : Parser β} {b : Step γ} {f : γ → Parser α} (hm : Steady tokens s.ahead.length s m)
    (hb : ∀ t, t.ahead.length < s.ahead.length → Closes tokens t (b.run t))
    (hf : ∀ c t, t.ahead.length < s.ahead.length → Steady tokens most t (f c)) :
    Steady tokens most s (m >>= fun _ => liftM b >>= f) := by
  unfold Steady at hm ⊢
  generalize hr : outcome m s = r at hm
  cases hm with
  | @ok _ t hmoves hlength =>
    obtain ⟨c, u, hrun, haffords⟩ := hb t hlength
    have hblock : outcome (liftM b) t = some (.ok c, u) := outcome_lift_eq_some.mpr ⟨c, hrun, rfl⟩
    rw [outcome_bind_ok hr, outcome_bind_ok hblock]
    exact (hf c u (Nat.lt_of_le_of_lt haffords.length hlength)).after
      (hmoves.trans_affords hlength haffords)
  | error hmoves =>
    rw [outcome_bind_error hr]
    exact .error hmoves

/-- Every rule moves on. -/
def Progress (tokens : List Lexed) (fuel : Nat) : Rule → Prop
  | .statement => Suffices tokens 9 0 fuel (statement fuel)
  | .parenthesized => Suffices tokens 1 0 fuel (parenthesized fuel)
  | .braced => Suffices tokens 1 0 fuel (braced fuel)
  | .block nested => ∀ s, 12 * s.ahead.length + 11 ≤ fuel →
      Closes tokens s ((block nested fuel).run s)
  | .statements nested => ∀ s, 12 * s.ahead.length + 10 ≤ fuel →
      Closes tokens s ((statements nested fuel).run s)
  | .operand level => Suffices tokens (operandDepth level) 0 fuel (operand fuel level)
  | .operators level left => Suffices tokens 1 1 fuel (operators fuel level left)
  | .tighter level => Suffices tokens (tighterDepth level) 0 fuel (tighter fuel level)
  | .power => Suffices tokens 2 0 fuel (power fuel)
  | .primary => Suffices tokens 1 0 fuel (primary fuel)
  | .moreArgs => Suffices tokens 1 0 fuel (moreArgs fuel)

namespace Progress

section Succ

variable {tokens : List Lexed} {fuel : Nat} (h : ∀ r, Progress tokens fuel r)

include h

theorem parenthesized_succ :
    Suffices tokens 1 0 (fuel + 1) (Parser.parenthesized (fuel + 1)) := by
  intro s length hlength hfuel
  rw [Parser.parenthesized]
  refine .bind (.sign .openParen) fun _ t ht => ?_
  refine .bind ((h .statement).at (by omega) (Nat.le_refl _)) fun _ t ht => ?_
  exact .bind (.sign .closeParen) fun _ t ht => .pure (by omega)

theorem tighter_succ (level : Level) :
    Suffices tokens (tighterDepth level) 0 (fuel + 1) (Parser.tighter (fuel + 1) level) := by
  intro s length hlength hfuel
  cases level with
  | relation => exact h (.operand .sum) s length hlength (Nat.le_of_succ_le_succ hfuel)
  | sum => exact h (.operand .product) s length hlength (Nat.le_of_succ_le_succ hfuel)
  | product => exact h .power s length hlength (Nat.le_of_succ_le_succ hfuel)

theorem operand_succ (level : Level) :
    Suffices tokens (operandDepth level) 0 (fuel + 1) (Parser.operand (fuel + 1) level) := by
  intro s length hlength hfuel
  have hdepth : operandDepth level = tighterDepth level + 1 := by cases level <;> rfl
  rw [Parser.operand]
  refine .bind ((h (.tighter level)).at (by omega) (Nat.le_refl _)) fun left t ht => ?_
  exact (h (.operators level left)).at (by omega) (by omega)

theorem operators_succ (level : Level) (left : Node) :
    Suffices tokens 1 1 (fuel + 1) (Parser.operators (fuel + 1) level left) := by
  intro s length hlength hfuel
  have hdepth : tighterDepth level ≤ 7 := by cases level <;> decide
  rw [Parser.operators]
  refine .peek_bind ?_
  cases hahead : s.ahead with
  | nil => exact .pure (by omega)
  | cons x tail =>
    simp only [List.head?_cons]
    cases level.operator? x.token with
    | none => exact .pure (by omega)
    | some form =>
      refine .advance_bind hahead fun t _ ht => ?_
      refine .bind ((h (.tighter level)).at (by omega) (Nat.le_refl _)) fun _ t ht => ?_
      refine .node_bind fun m t ht => ?_
      exact (h (.operators level m)).at (by omega) (by omega)

theorem power_succ : Suffices tokens 2 0 (fuel + 1) (Parser.power (fuel + 1)) := by
  intro s length hlength hfuel
  rw [Parser.power]
  refine .bind ((h .primary).at (by omega) (Nat.le_refl _)) fun _ t ht => ?_
  refine .peek_bind ?_
  split
  · next line hcaret =>
    obtain ⟨tail, hahead⟩ := List.head?_eq_some_iff.mp hcaret
    refine .advance_bind hahead fun t _ ht => ?_
    refine .bind ((h .power).at (by omega) (Nat.le_refl _)) fun _ t ht => ?_
    exact .node (by omega)
  · exact .pure (by omega)

theorem expression {s : State} (hfuel : 12 * s.ahead.length + 8 ≤ fuel) :
    Steady tokens s.ahead.length s (Parser.operand fuel .relation) :=
  (h (.operand .relation)).at hfuel (Nat.le_refl _)

theorem moreArgs_succ : Suffices tokens 1 0 (fuel + 1) (Parser.moreArgs (fuel + 1)) := by
  intro s length hlength hfuel
  rw [Parser.moreArgs]
  refine .sees_bind (fun hcomma => ?_) ?_
  · obtain ⟨x, tail, hahead, -⟩ := exists_of_head? hcomma
    refine .advance_bind hahead fun t _ ht => ?_
    refine .bind (expression h (by omega)) fun _ t ht => ?_
    refine .bind ((h .moreArgs).at (by omega) (Nat.le_refl _)) fun _ t ht => ?_
    exact .pure (by omega)
  · exact .bind (.sign .closeParen) fun _ t ht => .pure (by omega)

theorem primary_succ : Suffices tokens 1 0 (fuel + 1) (Parser.primary (fuel + 1)) := by
  intro s length hlength hfuel
  rw [Parser.primary]
  refine .get_bind ?_
  split
  · next hahead =>
    refine .advance_bind hahead fun t hahead ht => ?_
    refine .advance_bind hahead fun t _ ht => ?_
    refine .node_bind fun _ t ht => ?_
    refine .sees_bind (fun hclose => ?_) ?_
    · obtain ⟨x, tail, hahead, -⟩ := exists_of_head? hclose
      exact .advance_bind hahead fun t _ ht => .node (by omega)
    · refine .bind (expression h (by omega)) fun _ t ht => ?_
      refine .bind ((h .moreArgs).at (by omega) (Nat.le_refl _)) fun _ t ht => ?_
      exact .node_bind fun _ t ht => .node (by omega)
  · next hahead => exact .advance_bind hahead fun t _ ht => .node (by omega)
  · next hahead =>
    refine .advance_bind hahead fun t _ ht => ?_
    refine .bind (.sign .openParen) fun _ t ht => ?_
    refine .bind (expression h (by omega)) fun _ t ht => ?_
    exact .bind (.sign .closeParen) fun _ t ht => .node (by omega)
  · next hahead =>
    refine .advance_bind hahead fun t _ ht => ?_
    refine .bind (.sign .openParen) fun _ t ht => ?_
    refine .bind ((h .statement).at (by omega) (Nat.le_refl _)) fun _ t ht => ?_
    refine .bind (.sign .comma) fun _ t ht => ?_
    refine .bind .take fun _ t ht => ?_
    refine .bind (.sign .closeParen) fun _ t ht => ?_
    exact .node_bind fun _ t ht => .node (by omega)
  · next hahead =>
    refine .advance_bind hahead fun t _ ht => ?_
    refine .bind (expression h (by omega)) fun _ t ht => ?_
    exact .bind (.sign .closeParen) fun _ t ht => .pure (by omega)
  · next hahead =>
    split
    · exact .advance_bind hahead fun t _ ht => .node (by omega)
    · exact .unexpected
  · exact .unexpected

theorem braced_succ : Suffices tokens 1 0 (fuel + 1) (Parser.braced (fuel + 1)) := by
  intro s length hlength hfuel
  rw [Parser.braced]
  refine .bind_block (.sign .openBrace) (fun t ht => ?_) fun _ t ht => ?_
  · exact h (.block true) t (by omega)
  · exact .bind (.sign .closeBrace) fun _ t ht => .pure (by omega)

theorem block_succ (nested : Bool) (s : State) (hfuel : 12 * s.ahead.length + 11 ≤ fuel + 1) :
    Closes tokens s ((Parser.block nested (fuel + 1)).run s) := by
  obtain ⟨ns, t, hrun, haffords⟩ := h (.statements nested) s (by omega)
  exact ⟨_, _, run_block hrun, haffords.trans (Moves.fresh tokens _ _).affords⟩

theorem statements_succ (nested : Bool) (s : State)
    (hfuel : 12 * s.ahead.length + 10 ≤ fuel + 1) :
    Closes tokens s ((Parser.statements nested (fuel + 1)).run s) := by
  have hrest := h (.statements nested)
  cases hahead : s.ahead with
  | nil => exact ⟨_, s, run_statements_nil nested fuel hahead, .refl tokens s⟩
  | cons x tail =>
    by_cases hclose : nested = true ∧ x.token = .sign .closeBrace
    · obtain ⟨rfl, hx⟩ := hclose
      exact ⟨_, s, run_statements_closed fuel hahead hx, .refl tokens s⟩
    have hlength : tail.length + 1 = s.ahead.length := by rw [hahead]; rfl
    by_cases hsep : x.token = .sign .semicolon
    · obtain ⟨ns, t, hrun, haffords⟩ := hrest { s with ahead := tail } (by dsimp only; omega)
      rw [run_statements_separator hahead hsep]
      exact ⟨ns, t, hrun, (Moves.drop hahead).affords.trans haffords⟩
    have hcomes := h .statement s _ rfl (by omega)
    unfold Steady at hcomes
    generalize hr : outcome (Parser.statement fuel) s = r at hcomes
    cases hcomes with
    | @ok n u hmoves hless =>
      obtain ⟨ns, t, hrun, haffords⟩ := hrest u (by omega)
      rw [run_statements_ok hahead hclose hsep hr, hrun]
      exact ⟨_, t, rfl, hmoves.affords.trans haffords⟩
    | @error u hmoves =>
      obtain ⟨hresume, hless⟩ := affords_resume hahead hclose hmoves
      obtain ⟨ns, t, hrun, haffords⟩ :=
        hrest (resume nested s.ahead.length (here u) u) (by omega)
      rw [run_statements_error hahead hclose hsep hr]
      exact ⟨ns, t, hrun, hresume.trans haffords⟩

theorem statement_succ : Suffices tokens 9 0 (fuel + 1) (Parser.statement (fuel + 1)) := by
  intro s length hlength hfuel
  rw [Parser.statement]
  refine .get_bind ?_
  split
  · exact .unexpected
  · refine .bind ((h .braced).at (by omega) (Nat.le_refl _)) fun _ t ht => ?_
    exact .node (by omega)
  · next hahead => exact .advance_bind hahead fun t _ ht => .node (by omega)
  · next hahead =>
    refine .advance_bind hahead fun t _ ht => ?_
    refine .bind ((h .parenthesized).at (by omega) (Nat.le_refl _)) fun _ t ht => ?_
    exact .node (by omega)
  iterate 2
    · next hahead =>
      refine .advance_bind hahead fun t _ ht => ?_
      refine .bind ((h .parenthesized).at (by omega) (Nat.le_refl _)) fun _ t ht => ?_
      refine .bind ((h .braced).at (by omega) (Nat.le_refl _)) fun _ t ht => ?_
      exact .node (by omega)
  · next hahead =>
    refine .advance_bind hahead fun t _ ht => ?_
    refine .bind (.sign .openParen) fun _ t ht => ?_
    refine .bind ((h .statement).at (by omega) (Nat.le_refl _)) fun _ t ht => ?_
    refine .bind (.sign .semicolon) fun _ t ht => ?_
    refine .bind ((h .statement).at (by omega) (Nat.le_refl _)) fun _ t ht => ?_
    refine .bind (.sign .semicolon) fun _ t ht => ?_
    refine .bind ((h .statement).at (by omega) (Nat.le_refl _)) fun _ t ht => ?_
    refine .bind (.sign .closeParen) fun _ t ht => ?_
    refine .bind ((h .braced).at (by omega) (Nat.le_refl _)) fun _ t ht => ?_
    exact .node (by omega)
  · next hahead =>
    refine .advance_bind hahead fun t _ ht => ?_
    refine .bind .take fun _ t ht => ?_
    refine .node_bind fun _ t ht => ?_
    refine .bind (.paramList (by omega)) fun _ t ht => ?_
    refine .bind (.sign .equals) fun _ t ht => ?_
    refine .bind ((h .braced).at (by omega) (Nat.le_refl _)) fun _ t ht => ?_
    exact .node (by omega)
  iterate 2
    · next hahead =>
      refine .advance_bind hahead fun t hahead ht => ?_
      refine .advance_bind hahead fun t _ ht => ?_
      refine .node_bind fun _ t ht => ?_
      refine .bind ((h .statement).at (by omega) (Nat.le_refl _)) fun _ t ht => ?_
      exact .node (by omega)
  · exact .bind .typedName fun _ t ht => .node (by omega)
  · exact (expression h (by omega)).mono (by omega)

end Succ

theorem zero (tokens : List Lexed) (r : Rule) : Progress tokens 0 r := by
  cases r with
  | operand level | tighter level =>
    intro s length hlength hfuel
    cases level <;> simp [operandDepth, tighterDepth] at hfuel
  | block nested | statements nested =>
    intro s hfuel
    omega
  | _ =>
    intro s length hlength hfuel
    omega

/-- **Every rule moves on**, if its bound is large enough. -/
theorem all (tokens : List Lexed) (fuel : Nat) (r : Rule) : Progress tokens fuel r := by
  induction fuel, r using Rule.induction with
  | exhausted r => exact zero tokens r
  | statement fuel h => exact statement_succ h
  | parenthesized fuel h => exact parenthesized_succ h
  | braced fuel h => exact braced_succ h
  | block fuel nested h => exact block_succ h nested
  | statements fuel nested h => exact statements_succ h nested
  | operand fuel level h => exact operand_succ h level
  | operators fuel level left h => exact operators_succ h level left
  | tighter fuel level h => exact tighter_succ h level
  | power fuel h => exact power_succ h
  | primary fuel h => exact primary_succ h
  | moreArgs fuel h => exact moreArgs_succ h

end Progress

/-! ## Larger bounds -/

/-- Wherever the first parser comes to something, so does the second one. -/
def Extends (p p' : Parser α) : Prop := ∀ s r, outcome p s = some r → outcome p' s = some r

namespace Extends

theorem refl (p : Parser α) : Extends p p := fun _ _ h => h

theorem exhausted (p : Parser α) : Extends exhausted p := nofun

theorem bind {p p' : Parser α} {f f' : α → Parser β} (hp : Extends p p')
    (hf : ∀ a, Extends (f a) (f' a)) : Extends (p >>= f) (p' >>= f') := by
  rintro s ⟨r, u⟩ h
  rcases outcome_bind_eq_some.mp h with ⟨a, t, hfirst, hsecond⟩ | ⟨e, hfirst, rfl⟩
  · rw [outcome_bind_ok (hp s _ hfirst)]
    exact hf a t _ hsecond
  · exact outcome_bind_error (hp s _ hfirst)

/-- The same step before two parsers. -/
theorem after (p : Parser α) {f f' : α → Parser β} (hf : ∀ a, Extends (f a) (f' a)) :
    Extends (p >>= f) (p >>= f') := bind (refl p) hf

theorem moreParams {fuel fuel' : Nat} (h : fuel ≤ fuel') :
    Extends (moreParams fuel) (moreParams fuel') := by
  induction fuel generalizing fuel' with
  | zero => exact exhausted _
  | succ fuel ih =>
    obtain ⟨fuel', rfl⟩ := Nat.exists_eq_add_of_le' (show 1 ≤ fuel' by omega)
    rw [Parser.moreParams, Parser.moreParams]
    refine after _ fun comma => ?_
    split
    · exact after _ fun _ => after _ fun pair => bind (ih (by omega)) fun _ => refl _
    · exact refl _

theorem paramList {fuel fuel' : Nat} (h : fuel ≤ fuel') :
    Extends (paramList fuel) (paramList fuel') := by
  refine after _ fun line => after _ fun close => ?_
  split
  · exact refl _
  · exact after _ fun pair => bind (moreParams h) fun _ => refl _

theorem of_run {p p' : Step α} (h : ∀ s r, p.run s = some r → p'.run s = some r) :
    Extends (liftM p) (liftM p') := by
  rintro s ⟨r, t⟩ hlift
  obtain ⟨a, hrun, rfl⟩ := outcome_lift_eq_some.mp hlift
  exact outcome_lift_eq_some.mpr ⟨a, h s _ hrun, rfl⟩

theorem run {p p' : Step α} (h : Extends (liftM p) (liftM p')) {s t : State} {a : α}
    (hrun : p.run s = some (a, t)) : p'.run s = some (a, t) := by
  obtain ⟨_, hrun', ⟨⟩⟩ := outcome_lift_eq_some.mp
    (h s (.ok a, t) (outcome_lift_eq_some.mpr ⟨a, hrun, rfl⟩))
  exact hrun'

section Rules

variable {fuel fuel' : Nat} (hle : fuel ≤ fuel')
  (h : ∀ r : Rule, Extends (r.parser fuel) (r.parser fuel'))

include h

theorem statements (nested : Bool) : Extends (liftM (Parser.statements nested (fuel + 1)))
    (liftM (Parser.statements nested (fuel' + 1))) := by
  have hrest {s t : State} {ns : List Node} :
      (Parser.statements nested fuel).run s = some (ns, t) →
        (Parser.statements nested fuel').run s = some (ns, t) := (h (.statements nested)).run
  refine of_run ?_
  rintro s ⟨ns, t⟩ hrun
  refine Passes.run_eq ?_
  cases passes_of_run_statements hrun with
  | nil hs => exact .nil hs
  | closed hs hnested ht => exact .closed hs hnested ht
  | separator hs hsep hrun => exact .separator hs hsep (hrest hrun)
  | next hs hopen hsep hn hrun => exact .next hs hopen hsep (h .statement s _ hn) (hrest hrun)
  | failed hs hopen hsep he hrun => exact .failed hs hopen hsep (h .statement s _ he) (hrest hrun)

theorem block (nested : Bool) : Extends (liftM (Parser.block nested (fuel + 1)))
    (liftM (Parser.block nested (fuel' + 1))) := by
  refine of_run fun s r hrun => ?_
  obtain ⟨ns, t, hrun, hb, ht⟩ := exists_of_run_block hrun
  rw [run_block ((h (.statements nested)).run hrun), ← hb, ← ht]

theorem operators (level : Level) (left : Node) :
    Extends (Parser.operators (fuel + 1) level left) (Parser.operators (fuel' + 1) level left) := by
  rw [Parser.operators, Parser.operators]
  refine after _ fun next => ?_
  split
  · exact refl _
  · split
    · exact refl _
    · refine after _ fun _ => bind (h (.tighter level)) fun right => after _ fun left => ?_
      exact h (.operators level left)

theorem power : Extends (Parser.power (fuel + 1)) (Parser.power (fuel' + 1)) := by
  rw [Parser.power, Parser.power]
  refine bind (h .primary) fun base => after _ fun next => ?_
  split
  · exact after _ fun _ => bind (h .power) fun exponent => refl _
  · exact refl _

theorem primary : Extends (Parser.primary (fuel + 1)) (Parser.primary (fuel' + 1)) := by
  rw [Parser.primary, Parser.primary]
  refine after _ fun s => ?_
  split
  · refine after _ fun _ => after _ fun _ => after _ fun _ => after _ fun close => ?_
    split
    · exact refl _
    · exact bind (h (.operand .relation)) fun _ => bind (h .moreArgs) fun _ => refl _
  · exact refl _
  · exact after _ fun _ => after _ fun _ => bind (h (.operand .relation)) fun _ => refl _
  · exact after _ fun _ => after _ fun _ => bind (h .statement) fun _ => refl _
  · exact after _ fun _ => bind (h (.operand .relation)) fun _ => refl _
  · exact refl _
  · exact refl _

theorem moreArgs : Extends (Parser.moreArgs (fuel + 1)) (Parser.moreArgs (fuel' + 1)) := by
  rw [Parser.moreArgs, Parser.moreArgs]
  refine after _ fun comma => ?_
  split
  · refine after _ fun _ => bind (h (.operand .relation)) fun _ => ?_
    exact bind (h .moreArgs) fun _ => refl _
  · exact refl _

include hle

theorem statement : Extends (Parser.statement (fuel + 1)) (Parser.statement (fuel' + 1)) := by
  have hstatement : Extends (Parser.statement fuel) (Parser.statement fuel') := h .statement
  have hparenthesized : Extends (Parser.parenthesized fuel) (Parser.parenthesized fuel') :=
    h .parenthesized
  have hbraced : Extends (Parser.braced fuel) (Parser.braced fuel') := h .braced
  rw [Parser.statement, Parser.statement]
  refine after _ fun s => ?_
  split
  · exact refl _
  · exact bind hbraced fun _ => refl _
  · exact refl _
  · exact after _ fun _ => bind hparenthesized fun _ => refl _
  iterate 2
    · exact after _ fun _ => bind hparenthesized fun _ => bind hbraced fun _ => refl _
  · refine after _ fun _ => after _ fun _ => bind hstatement fun _ => after _ fun _ => ?_
    refine bind hstatement fun _ => after _ fun _ => bind hstatement fun _ => after _ fun _ => ?_
    exact bind hbraced fun _ => refl _
  · refine after _ fun _ => after _ fun _ => after _ fun _ => bind (paramList hle) fun _ => ?_
    exact after _ fun _ => bind hbraced fun _ => refl _
  iterate 2
    · exact after _ fun _ => after _ fun _ => after _ fun _ => bind hstatement fun _ => refl _
  · exact refl _
  · exact h (.operand .relation)

end Rules

/-- One rule more may be entered. -/
theorem succ (fuel : Nat) (r : Rule) : Extends (r.parser fuel) (r.parser (fuel + 1)) := by
  induction fuel, r using Rule.induction with
  | exhausted r =>
    rw [r.parser_zero]
    exact exhausted _
  | statement fuel h => exact statement (Nat.le_succ fuel) h
  | parenthesized fuel h => exact after _ fun _ => bind (h .statement) fun _ => refl _
  | braced fuel h => exact after _ fun _ => bind (h (.block true)) fun _ => refl _
  | block fuel nested h => exact block h nested
  | statements fuel nested h => exact statements h nested
  | operand fuel level h => exact bind (h (.tighter level)) fun left => h (.operators level left)
  | operators fuel level left h => exact operators h level left
  | tighter fuel level h =>
    cases level with
    | relation => exact h (.operand .sum)
    | sum => exact h (.operand .product)
    | product => exact h .power
  | power fuel h => exact power h
  | primary fuel h => exact primary h
  | moreArgs fuel h => exact moreArgs h

end Extends

/-- **A larger bound keeps every outcome.** -/
theorem outcome_mono {fuel fuel' : Nat} (h : fuel ≤ fuel') (r : Rule) :
    Extends (r.parser fuel) (r.parser fuel') := by
  induction h with
  | refl => exact .refl _
  | step _ ih => exact fun s result hrun => Extends.succ _ r s result (ih s result hrun)

/-- Two blocks that come to something do so under one bound. -/
theorem exists_common_bound {nested : Bool} {fuel fuel' : Nat} {s s' t t' : State}
    {ns ns' : List Node} (h : (statements nested fuel).run s = some (ns, t))
    (h' : (statements nested fuel').run s' = some (ns', t')) :
    ∃ most, (statements nested most).run s = some (ns, t) ∧
      (statements nested most).run s' = some (ns', t') :=
  ⟨max fuel fuel', (outcome_mono (Nat.le_max_left fuel fuel') (.statements nested)).run h,
    (outcome_mono (Nat.le_max_right fuel fuel') (.statements nested)).run h'⟩

/-- Blocks come to the same under all bounds that are large enough. -/
theorem run_statements_unique {nested : Bool} {fuel fuel' : Nat} {s t t' : State}
    {ns ns' : List Node} (h : (statements nested fuel).run s = some (ns, t))
    (h' : (statements nested fuel').run s = some (ns', t')) : ns = ns' ∧ t = t' := by
  obtain ⟨most, hmost, hmost'⟩ := exists_common_bound h h'
  cases hmost.symm.trans hmost'
  exact ⟨rfl, rfl⟩

/-! ## Programs -/

/-- **A block comes to something** under some bound. -/
theorem exists_run_statements (nested : Bool) (s : State) :
    ∃ fuel ns t, (statements nested fuel).run s = some (ns, t) := by
  obtain ⟨ns, t, hrun, -⟩ :=
    Progress.all s.ahead (12 * s.ahead.length + 10) (.statements nested) s (Nat.le_refl _)
  exact ⟨_, ns, t, hrun⟩

/-- A parsed program holds what its outermost block comes to, under any bound. -/
theorem parse_eq_of_run {tokens : List Lexed} {firstId fuel : Nat} {ns : List Node} {t : State}
    (h : (statements false fuel).run (start tokens firstId) = some (ns, t)) :
    parse tokens firstId = ⟨⟨t.nextId + 1, 1, .program ⟨t.nextId,
      ((tokens.head?.map Lexed.line).getD 1), .block ns⟩⟩, t.errors.toList, t.nextId + 2⟩ := by
  obtain ⟨ns', t', hrun, -⟩ := Progress.all tokens (12 * tokens.length + 11) (.statements false)
    (start tokens firstId) (Nat.le_succ _)
  obtain ⟨rfl, rfl⟩ := run_statements_unique hrun h
  exact parse_eq (run_block hrun)

end Scriptlet.Parser
