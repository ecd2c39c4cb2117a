import Mathlib.Data.List.Perm.Basic
import Scriptlet.Proofs.Shape

/-!
# The ids of parsed trees

A parser gives a node its id when the node is finished, so after those of its
children. In a parsed tree the ids grow in postorder. Ids are lost with the
statements that are dropped after an error, and only with them: without errors
the ids of the tree are all that were drawn.

What is known of the trees that a rule has finished so far is one list of nodes:
a rule adds trees at its end, and a new node takes its children off the end and
puts itself there. `Parser.Numbering` follows that list through a rule.

Results:
* `Node.postorder_perm`: postorder lists the nodes of a tree.
* `Parser.Numbered.all`: each rule of the grammar numbers what it yields.
* `parse_postorder`: the ids of a parsed tree, with and without errors.
-/

namespace Scriptlet

namespace Node

/-! ## Postorder -/

/-- All nodes of a tree, each after its children. -/
def postorder (n : Node) : List Node :=
  (n.children.attach.flatMap fun m => postorder m.1) ++ [n]
termination_by n.size
decreasing_by exact size_lt_of_mem_children m.2

theorem postorder_eq (n : Node) : n.postorder = n.children.flatMap postorder ++ [n] := by
  rw [postorder, List.flatMap_subtype, List.unattach_attach]
  exact fun _ _ => rfl

/-- **Postorder lists the nodes of a tree**, as preorder does. -/
theorem postorder_perm (n : Node) : n.postorder.Perm n.preorder := by
  induction n using Node.induction with
  | h n ih =>
    rw [postorder_eq, preorder_eq]
    refine List.perm_append_comm.trans (List.Perm.cons n ?_)
    exact List.Perm.flatMap_left n.children fun m hm => ih m hm

/-- The ids of some trees, each in postorder. -/
def postIds (ns : List Node) : List Nat := (ns.flatMap postorder).map Node.id

theorem postIds_append (ms ns : List Node) : postIds (ms ++ ns) = postIds ms ++ postIds ns := by
  simp [postIds]

theorem postIds_node (id line : Nat) (form : Form Node) :
    postIds [⟨id, line, form⟩] = postIds form.children ++ [id] := by
  simp [postIds, postorder_eq ⟨id, line, form⟩, children]

theorem length_postIds (n : Node) : (postIds [n]).length = n.size := by
  simp [postIds, size, n.postorder_perm.length_eq]

end Node

namespace Parser

open Node

variable {α β : Type}

/-! ## Ids drawn between two states -/

/-- Ids were drawn, and no error was forgotten. -/
structure Draws (s t : State) : Prop where
  le : s.nextId ≤ t.nextId
  errors : t.errors = #[] → s.errors = #[]

/-- Ids were drawn for the nodes of some trees in postorder. Unless an error was
    found there were no others. -/
structure Numbers (s t : State) (ns : List Node) : Prop extends Draws s t where
  sublist : (postIds ns).Sublist (List.range' s.nextId (t.nextId - s.nextId))
  complete : t.errors = #[] → postIds ns = List.range' s.nextId (t.nextId - s.nextId)

theorem range'_append_range' {i j k : Nat} (hij : i ≤ j) (hjk : j ≤ k) :
    List.range' i (j - i) ++ List.range' j (k - j) = List.range' i (k - i) := by
  have hsplit := List.range'_append_1 (s := i) (m := j - i) (n := k - j)
  rwa [Nat.add_sub_cancel' hij, Nat.add_comm, Nat.sub_add_sub_cancel hjk hij] at hsplit

theorem Draws.trans {s t u : State} (h : Draws s t) (h' : Draws t u) : Draws s u :=
  ⟨Nat.le_trans h.le h'.le, fun hu => h.errors (h'.errors hu)⟩

namespace Numbers

variable {s t u : State} {ms ns : List Node}

theorem refl (s : State) : Numbers s s [] where
  le := Nat.le_refl _
  errors := id
  sublist := List.nil_sublist _
  complete _ := by simp [postIds]

/-- Only the ids and the errors of the states matter. -/
theorem congr (h : Numbers s t ns) {s' t' : State} (hs : s'.nextId = s.nextId)
    (hs' : s'.errors = s.errors) (ht : t'.nextId = t.nextId) (ht' : t'.errors = t.errors) :
    Numbers s' t' ns := by
  obtain ⟨⟨hle, herrors⟩, hsublist, hcomplete⟩ := h
  rw [← hs, ← ht] at hle hsublist hcomplete
  rw [← hs', ← ht'] at herrors
  rw [← ht'] at hcomplete
  exact ⟨⟨hle, herrors⟩, hsublist, hcomplete⟩

theorem append (h : Numbers s t ms) (h' : Numbers t u ns) : Numbers s u (ms ++ ns) where
  toDraws := h.toDraws.trans h'.toDraws
  sublist := by
    rw [postIds_append, ← range'_append_range' h.le h'.le]
    exact h.sublist.append h'.sublist
  complete hu := by
    rw [postIds_append, ← range'_append_range' h.le h'.le, h.complete (h'.errors hu),
      h'.complete hu]

/-- A new node comes after its children. -/
theorem node (front : List Node) {line : Nat} {form : Form Node}
    (h : Numbers s t (front ++ form.children)) :
    Numbers s { t with nextId := t.nextId + 1 } (front ++ [⟨t.nextId, line, form⟩]) := by
  have hids : postIds (front ++ [⟨t.nextId, line, form⟩]) =
      postIds (front ++ form.children) ++ [t.nextId] := by
    rw [postIds_append, postIds_node, postIds_append, List.append_assoc]
  have hrange : List.range' s.nextId (t.nextId + 1 - s.nextId) =
      List.range' s.nextId (t.nextId - s.nextId) ++ [t.nextId] := by
    rw [← range'_append_range' h.le (Nat.le_succ t.nextId), Nat.succ_sub (Nat.le_refl _),
      Nat.sub_self]
    rfl
  refine ⟨⟨Nat.le_succ_of_le h.le, h.errors⟩, ?_, fun ht => ?_⟩
  · rw [hids, hrange]
    exact h.sublist.append_right _
  · rw [hids, hrange, h.complete ht]

/-- The ids that were drawn before an error are lost. -/
theorem lost (h : Draws s t) (hid : u.nextId = t.nextId) (herrors : u.errors ≠ #[]) :
    Numbers s u [] where
  le := hid ▸ h.le
  errors hu := absurd hu herrors
  sublist := List.nil_sublist _
  complete hu := absurd hu herrors

end Numbers

/-! ## Parsers that number what they yield -/

/-- A parser has numbered the trees `after` of its result since the state `s`, unless it
    has come to nothing or failed. -/
inductive Concludes (s : State) (after : α → List Node) :
    Option (Except SourceError α × State) → Prop
  | exhausted : Concludes s after none
  | ok {a : α} {t : State} : Numbers s t (after a) → Concludes s after (some (.ok a, t))
  | error {e : SourceError} {t : State} : Draws s t → Concludes s after (some (.error e, t))

/-- A parser that finds the trees `before` numbered leaves the trees `after` of its
    result numbered. -/
def Numbering (before : List Node) (after : α → List Node) (p : Parser α) : Prop :=
  ∀ s t, Numbers s t before → Concludes s after (outcome p t)

/-- A parser that draws no ids and records no errors. -/
def Still (p : Parser α) : Prop :=
  ∀ s r t, outcome p s = some (r, t) → t.nextId = s.nextId ∧ t.errors = s.errors

namespace Still

theorem advance : Still (liftM Parser.advance) := by
  rintro s _ t ⟨⟩
  exact ⟨rfl, rfl⟩

theorem peek : Still (liftM Parser.peek) := by
  rintro s _ t ⟨⟩
  exact ⟨rfl, rfl⟩

theorem sees (sg : Sign) : Still (liftM (Parser.sees sg)) := by
  rintro s _ t ⟨⟩
  exact ⟨rfl, rfl⟩

theorem get : Still (get : Parser State) := by
  rintro s _ t ⟨⟩
  exact ⟨rfl, rfl⟩

theorem unexpected : Still (unexpected : Parser α) := by
  intro s r t h
  rw [outcome_unexpected] at h
  cases h
  exact ⟨rfl, rfl⟩

theorem take (accept? : Token → Option α) : Still (take accept?) := by
  intro s r t h
  cases ha : s.ahead.head?.bind fun t => accept? t.token with
  | none =>
    rw [outcome_take_none ha] at h
    exact unexpected s r t h
  | some a =>
    obtain ⟨x, hx, ha⟩ := Option.bind_eq_some_iff.mp ha
    obtain ⟨rest, hs⟩ := List.head?_eq_some_iff.mp hx
    rw [outcome_take_some hs ha] at h
    cases h
    exact ⟨rfl, rfl⟩

theorem sign (sg : Sign) : Still (sign sg) := by
  intro s r u h
  rcases outcome_bind_eq_some.mp h with ⟨a, t, htake, hpure⟩ | ⟨e, htake, -⟩
  · cases hpure
    exact take _ s _ _ htake
  · exact take _ s _ _ htake

theorem name : Still name := take _

theorem typeName : Still typeName := take _

end Still

namespace Numbering

variable {before : List Node} {after : α → List Node}

theorem pure {a : α} (h : before = after a) : Numbering before after (pure a) := by
  subst h
  exact fun s t hst => .ok hst

theorem exhausted : Numbering before after (exhausted : Parser α) := fun _ _ _ => .exhausted

theorem unexpected : Numbering before after (unexpected : Parser α) := by
  intro s t hst
  rw [outcome_unexpected]
  exact .error hst.toDraws

theorem bind {between : β → List Node} {p : Parser β} {f : β → Parser α}
    (hp : Numbering before between p) (hf : ∀ b, Numbering (between b) after (f b)) :
    Numbering before after (p >>= f) := by
  intro s t hst
  have hfirst := hp s t hst
  generalize hrun : outcome p t = r at hfirst
  cases hfirst with
  | exhausted =>
    rw [outcome_bind_none hrun]
    exact .exhausted
  | ok h =>
    rw [outcome_bind_ok hrun]
    exact hf _ _ _ h
  | error h =>
    rw [outcome_bind_error hrun]
    exact .error h

/-- A step that draws no ids. -/
theorem skip {p : Parser β} {f : β → Parser α} (hp : Still p)
    (hf : ∀ b, Numbering before after (f b)) : Numbering before after (p >>= f) := by
  refine bind (fun s t hst => ?_) hf
  rcases hrun : outcome p t with _ | ⟨e | b, u⟩
  · exact .exhausted
  · obtain ⟨hid, herrors⟩ := hp t _ u hrun
    exact .error (hst.congr rfl rfl hid herrors).toDraws
  · obtain ⟨hid, herrors⟩ := hp t _ u hrun
    exact .ok (hst.congr rfl rfl hid herrors)

/-- What a parser numbers from any state, it numbers behind other trees. -/
theorem of_start (before : List Node) {p : Parser α} (h : ∀ s, Concludes s after (outcome p s)) :
    Numbering before (fun a => before ++ after a) p := by
  intro s t hst
  have hp := h t
  generalize outcome p t = r at hp
  cases hp with
  | exhausted => exact .exhausted
  | ok h => exact .ok (hst.append h)
  | error h => exact .error (hst.toDraws.trans h)

theorem start {p : Parser α} (h : Numbering [] after p) (s : State) :
    Concludes s after (outcome p s) := h s s (.refl s)

theorem behind {p : Parser α} (h : Numbering [] after p) (before : List Node) :
    Numbering before (fun a => before ++ after a) p := of_start before h.start

/-- A new node takes the place of its children. -/
theorem node_behind (front : List Node) (line : Nat) (form : Form Node) :
    Numbering (front ++ form.children) (fun n => front ++ [n]) (liftM (Parser.node line form)) :=
  fun _ _ hst => .ok (hst.node front)

theorem node (line : Nat) (form : Form Node) :
    Numbering form.children (fun n => [n]) (liftM (Parser.node line form)) :=
  node_behind [] line form

theorem leaf {line : Nat} {form : Form Node} (h : form.children = []) :
    Numbering [] (fun n => [n]) (liftM (Parser.node line form)) :=
  h ▸ node line form

theorem typedName : Numbering [] (fun pair => [pair.1, pair.2]) typedName := by
  refine .skip .name fun x => .skip (.sign .colon) fun _ => .skip .typeName fun ty => ?_
  refine .bind (node x.2 (.binder x.1)) fun left => ?_
  refine .bind (node_behind [left] ty.2 (.ty ty.1)) fun right => ?_
  exact .pure rfl

theorem moreParams (fuel : Nat) :
    Numbering [] (fun pairs => pairs.flatMap fun pair => [pair.1, pair.2]) (moreParams fuel) := by
  induction fuel with
  | zero => exact exhausted
  | succ fuel ih =>
    rw [Parser.moreParams]
    refine .skip (.sees .comma) fun comma => ?_
    split
    · refine .skip .advance fun _ => .bind typedName fun pair => ?_
      exact .bind (ih.behind [pair.1, pair.2]) fun pairs => .pure rfl
    · exact .skip (.sign .closeParen) fun _ => .pure rfl

theorem paramList (fuel : Nat) : Numbering [] Option.toList (paramList fuel) := by
  refine .skip (.sign .openParen) fun line => .skip (.sees .closeParen) fun close => ?_
  split
  · exact .skip .advance fun _ => .pure rfl
  · refine .bind typedName fun pair => ?_
    refine .bind ((moreParams fuel).behind [pair.1, pair.2]) fun pairs => ?_
    exact .bind (node line (.params (pair :: pairs))) fun params => .pure rfl

end Numbering

/-! ## The rules -/

/-- Each rule of the grammar numbers what it yields. -/
def Numbered (fuel : Nat) : Rule → Prop
  | .statement => Numbering [] (fun n => [n]) (statement fuel)
  | .parenthesized => Numbering [] (fun n => [n]) (parenthesized fuel)
  | .braced => Numbering [] (fun n => [n]) (braced fuel)
  | .block nested => Numbering [] (fun n => [n]) (liftM (block nested fuel))
  | .statements nested => Numbering [] id (liftM (statements nested fuel))
  | .operand level => Numbering [] (fun n => [n]) (operand fuel level)
  | .operators level left => Numbering [left] (fun n => [n]) (operators fuel level left)
  | .tighter level => Numbering [] (fun n => [n]) (tighter fuel level)
  | .power => Numbering [] (fun n => [n]) (power fuel)
  | .primary => Numbering [] (fun n => [n]) (primary fuel)
  | .moreArgs => Numbering [] id (moreArgs fuel)

namespace Numbered

section Succ

variable {fuel : Nat} (h : ∀ r, Numbered fuel r)

include h

theorem parenthesized_succ :
    Numbering [] (fun n => [n]) (Parser.parenthesized (fuel + 1)) := by
  rw [Parser.parenthesized]
  refine .skip (.sign .openParen) fun _ => .bind (h .statement) fun inner => ?_
  exact .skip (.sign .closeParen) fun _ => .pure rfl

theorem braced_succ : Numbering [] (fun n => [n]) (Parser.braced (fuel + 1)) := by
  rw [Parser.braced]
  refine .skip (.sign .openBrace) fun _ => .bind (h (.block true)) fun body => ?_
  exact .skip (.sign .closeBrace) fun _ => .pure rfl

theorem statement_succ : Numbering [] (fun n => [n]) (Parser.statement (fuel + 1)) := by
  rw [Parser.statement]
  refine .skip .get fun s => ?_
  split
  · exact .unexpected
  · exact .bind (h .braced) fun body => .node _ (.scope body)
  · exact .skip .advance fun _ => .node _ (.comment _)
  · exact .skip .advance fun _ => .bind (h .parenthesized) fun value => .node _ (.print value)
  · refine .skip .advance fun _ => .bind (h .parenthesized) fun guard => ?_
    exact .bind (Numbering.behind (h .braced) [guard]) fun body => .node _ (.branch guard body)
  · refine .skip .advance fun _ => .bind (h .parenthesized) fun guard => ?_
    exact .bind (Numbering.behind (h .braced) [guard]) fun body => .node _ (.whileLoop guard body)
  · refine .skip .advance fun _ => .skip (.sign .openParen) fun _ => ?_
    refine .bind (h .statement) fun start => .skip (.sign .semicolon) fun _ => ?_
    refine .bind (Numbering.behind (h .statement) [start]) fun guard => ?_
    refine .skip (.sign .semicolon) fun _ => ?_
    refine .bind (Numbering.behind (h .statement) [start, guard]) fun step => ?_
    refine .skip (.sign .closeParen) fun _ => ?_
    refine .bind (Numbering.behind (h .braced) [start, guard, step]) fun body => ?_
    exact .node _ (.forLoop start guard step body)
  · refine .skip .advance fun _ => .skip .name fun f => .bind (.node _ (.binder f.1)) fun name => ?_
    refine .bind ((Numbering.paramList fuel).behind [name]) fun params => ?_
    refine .skip (.sign .equals) fun _ => ?_
    refine .bind (Numbering.behind (h .braced) (name :: params.toList)) fun body => ?_
    exact .node _ (.function name params body)
  · refine .skip .advance fun _ => .skip .advance fun _ => ?_
    refine .bind (.node _ (.binder _)) fun name => ?_
    exact .bind (Numbering.behind (h .statement) [name]) fun value => .node _ (.assign name value)
  · refine .skip .advance fun _ => .skip .advance fun _ => ?_
    refine .bind (.node _ (.binder _)) fun name => ?_
    exact .bind (Numbering.behind (h .statement) [name]) fun value => .node _ (.define name value)
  · exact .bind .typedName fun pair => .node _ (.declare pair.1 pair.2)
  · exact h (.operand .relation)

theorem numbers_statements {nested : Bool} {s t : State} {ns : List Node}
    (hrun : (Parser.statements nested fuel).run s = some (ns, t)) : Numbers s t ns := by
  have hstart := Numbering.start (h (.statements nested)) s
  rw [outcome_lift, hrun] at hstart
  cases hstart with
  | ok h => exact h

theorem statements_succ (nested : Bool) :
    Numbering [] id (liftM (Parser.statements nested (fuel + 1))) := by
  refine .of_start [] fun s => ?_
  rw [outcome_lift]
  rcases hrun : (Parser.statements nested (fuel + 1)).run s with _ | ⟨ns, u⟩
  · exact .exhausted
  refine .ok ?_
  cases passes_of_run_statements hrun with
  | nil => exact .refl s
  | closed => exact .refl s
  | separator _ _ hrun => exact (numbers_statements h hrun).congr rfl rfl rfl rfl
  | next _ _ _ hn hrun =>
    have hstatement := Numbering.start (h .statement) s
    rw [hn] at hstatement
    cases hstatement with
    | ok hnumbers => exact hnumbers.append (numbers_statements h hrun)
  | @failed _ _ e v _ _ _ _ _ he hrun =>
    have hstatement := Numbering.start (h .statement) s
    rw [he] at hstatement
    cases hstatement with
    | error hdraws =>
      -- the ids of the parts that were finished are lost with the statement
      have hlost : Numbers s (resume nested s.ahead.length e v) [] :=
        .lost hdraws rfl (recorded_ne_empty e v.errors)
      exact hlost.append (numbers_statements h hrun)

theorem block_succ (nested : Bool) :
    Numbering [] (fun n => [n]) (liftM (Parser.block nested (fuel + 1))) := by
  refine .of_start [] fun s => ?_
  rw [outcome_lift]
  rcases hblock : (Parser.block nested (fuel + 1)).run s with _ | ⟨b, u⟩
  · exact .exhausted
  obtain ⟨ns, t, hrun, rfl, rfl⟩ := exists_of_run_block hblock
  exact .ok (Numbers.node [] (numbers_statements h hrun))

theorem operators_succ (level : Level) (left : Node) :
    Numbering [left] (fun n => [n]) (Parser.operators (fuel + 1) level left) := by
  rw [Parser.operators]
  refine .skip .peek fun next => ?_
  split
  · exact .pure rfl
  · split
    · exact .pure rfl
    · next form hform =>
      refine .skip .advance fun _ => ?_
      refine .bind (Numbering.behind (h (.tighter level)) [left]) fun right => ?_
      have hnode : ∀ line, Numbering [left, right] (fun n => [n])
          (liftM (Parser.node line (form left right))) := by
        intro line
        rcases Level.operator?_eq_some hform with ⟨rel, rfl⟩ | ⟨op, rfl⟩
        · exact .node line (.relation rel left right)
        · exact .node line (.arith op left right)
      exact .bind (hnode _) fun left => h (.operators level left)

theorem power_succ : Numbering [] (fun n => [n]) (Parser.power (fuel + 1)) := by
  rw [Parser.power]
  refine .bind (h .primary) fun base => .skip .peek fun next => ?_
  split
  · refine .skip .advance fun _ => .bind (Numbering.behind (h .power) [base]) fun exponent => ?_
    exact .node _ (.arith .pow base exponent)
  · exact .pure rfl

theorem primary_succ : Numbering [] (fun n => [n]) (Parser.primary (fuel + 1)) := by
  rw [Parser.primary]
  refine .skip .get fun s => ?_
  split
  · refine .skip .advance fun _ => .skip .advance fun _ => .bind (.node _ (.binder _)) fun f => ?_
    refine .skip (.sees .closeParen) fun close => ?_
    split
    · exact .skip .advance fun _ => .node _ (.call f none)
    · refine .bind (Numbering.behind (h (.operand .relation)) [f]) fun value => ?_
      refine .bind (Numbering.behind (h .moreArgs) [f, value]) fun values => ?_
      refine .bind (.node_behind [f] _ (.args (value :: values))) fun args => ?_
      exact .node _ (.call f (some args))
  · exact .skip .advance fun _ => .node _ (.read _)
  · refine .skip .advance fun _ => .skip (.sign .openParen) fun _ => ?_
    refine .bind (h (.operand .relation)) fun argument => .skip (.sign .closeParen) fun _ => ?_
    exact .node _ (.math _ argument)
  · refine .skip .advance fun _ => .skip (.sign .openParen) fun _ => ?_
    refine .bind (h .statement) fun value => .skip (.sign .comma) fun _ => ?_
    refine .skip .typeName fun t => .skip (.sign .closeParen) fun _ => ?_
    refine .bind (.node_behind [value] _ (.ty t.1)) fun ty => ?_
    exact .node _ (.cast value ty)
  · refine .skip .advance fun _ => .bind (h (.operand .relation)) fun inner => ?_
    exact .skip (.sign .closeParen) fun _ => .pure rfl
  · split
    · next form hform =>
      exact .skip .advance fun _ => .leaf (leaf_of_literal? hform).2.2
    · exact .unexpected
  · exact .unexpected

theorem moreArgs_succ : Numbering [] id (Parser.moreArgs (fuel + 1)) := by
  rw [Parser.moreArgs]
  refine .skip (.sees .comma) fun comma => ?_
  split
  · refine .skip .advance fun _ => .bind (h (.operand .relation)) fun value => ?_
    exact .bind (Numbering.behind (h .moreArgs) [value]) fun values => .pure rfl
  · exact .skip (.sign .closeParen) fun _ => .pure rfl

end Succ

/-- Every rule numbers what it yields. -/
theorem all (fuel : Nat) (r : Rule) : Numbered fuel r := by
  induction fuel, r using Rule.induction with
  | exhausted r =>
    cases r <;> exact .exhausted
  | statement fuel h => exact statement_succ h
  | parenthesized fuel h => exact parenthesized_succ h
  | braced fuel h => exact braced_succ h
  | block fuel nested h => exact block_succ h nested
  | statements fuel nested h => exact statements_succ h nested
  | operand fuel level h => exact .bind (h (.tighter level)) fun left => h (.operators level left)
  | operators fuel level left h => exact operators_succ h level left
  | tighter fuel level h =>
    cases level with
    | relation => exact h (.operand .sum)
    | sum => exact h (.operand .product)
    | product => exact h .power
  | power fuel h => exact power_succ h
  | primary fuel h => exact primary_succ h
  | moreArgs fuel h => exact moreArgs_succ h

end Numbered

/-- The tree of a list of tokens is numbered. -/
theorem numbers_parse (tokens : List Lexed) (firstId : Nat) : ∃ t : State,
    Numbers (start tokens firstId) t [(parse tokens firstId).tree] ∧
      t.nextId = (parse tokens firstId).nextId ∧
      t.errors.toList = (parse tokens firstId).errors ∧
      (parse tokens firstId).tree.id + 1 = t.nextId := by
  obtain ⟨fuel, ns, t, hrun⟩ := exists_run_statements false (start tokens firstId)
  rw [parse_eq_of_run hrun]
  have hstatements : Numbers (start tokens firstId) t ns :=
    Numbered.numbers_statements (Numbered.all fuel) hrun
  generalize ((tokens.head?.map Lexed.line).getD 1) = line
  have hblock : Numbers (start tokens firstId) { t with nextId := t.nextId + 1 }
      ([] ++ (Form.program ⟨t.nextId, line, .block ns⟩).children) := hstatements.node []
  exact ⟨_, hblock.node [], rfl, rfl, rfl⟩

end Parser

open Node

/-- **The ids of a parsed tree grow in postorder**, from the first free id on up to the
    last one drawn, which is that of the root. If no error was found, every id drawn is
    that of a node of the tree. -/
theorem parse_postorder (tokens : List Lexed) (firstId : Nat) :
    ((parse tokens firstId).tree.postorder.map Node.id).Pairwise (· < ·) ∧
      (∀ n ∈ (parse tokens firstId).tree.postorder, firstId ≤ n.id) ∧
      (parse tokens firstId).tree.id + 1 = (parse tokens firstId).nextId ∧
      ((parse tokens firstId).errors = [] →
        (parse tokens firstId).tree.postorder.map Node.id =
            List.range' firstId (parse tokens firstId).tree.size ∧
          (parse tokens firstId).nextId = firstId + (parse tokens firstId).tree.size) := by
  obtain ⟨t, hnumbers, hnext, herrors, hroot⟩ := Parser.numbers_parse tokens firstId
  generalize parse tokens firstId = parsed at *
  have hids : postIds [parsed.tree] = parsed.tree.postorder.map Node.id := by simp [postIds]
  have hsublist := hnumbers.sublist
  rw [hids] at hsublist
  refine ⟨(List.pairwise_lt_range' _ Nat.one_pos).sublist hsublist, fun n hn => ?_,
    hroot.trans hnext, fun hclean => ?_⟩
  · have hmem := hsublist.subset (List.mem_map_of_mem hn)
    exact (List.mem_range'_1.mp hmem).1
  · have hcomplete := hnumbers.complete (by simpa [hclean] using herrors)
    have hsize : parsed.tree.size = t.nextId - firstId := by
      rw [← length_postIds, hcomplete, List.length_range']
      rfl
    have hle : firstId ≤ t.nextId := hnumbers.le
    refine ⟨?_, by omega⟩
    rw [← hids, hcomplete, hsize]
    rfl

end Scriptlet
