import Mathlib
import Scriptlet.Proofs.Printing

/-!
# Parsing undoes printing

A printed program is read without errors, whatever the lines of its tokens, and
gives the program back up to ids and lines. The parentheses in it are needed: no
list of tokens that is read as the same program has fewer of them.

Result: `parse_tokens`.
-/

namespace Scriptlet

open Grammar Node

/-! ## Counting parentheses -/

/-- The number of parentheses that are opened. -/
def openings (ts : List Token) : Nat := ts.count (.sign .openParen)

@[simp] theorem openings_append (ts us : List Token) :
    openings (ts ++ us) = openings ts + openings us := List.count_append

@[simp] theorem openings_cons {t : Token} (ts : List Token) (h : t ≠ .sign .openParen) :
    openings (t :: ts) = openings ts := by
  simp [openings, h]

@[simp] theorem openings_parens (ts : List Token) : openings (parens ts) = openings ts + 1 := by
  simp [openings, parens]

@[simp] theorem openings_braces (ts : List Token) : openings (braces ts) = openings ts := by
  simp [openings, braces]

theorem openings_separated {sg : Sign} (tss : List (List Token)) (h : sg ≠ .openParen) :
    openings (separated sg tss) = (tss.map openings).sum := by
  have hmore : ∀ tss : List (List Token),
      openings (tss.flatMap fun us => .sign sg :: us) = (tss.map openings).sum := by
    intro tss
    induction tss with
    | nil => rfl
    | cons ts tss ih => simp [ih, h]
  cases tss with
  | nil => rfl
  | cons ts tss => rw [separated, openings_append, hmore, List.map_cons, List.sum_cons]

theorem openings_enclose_le {least : Nat} {n : Node} {ts : List Token} :
    openings (enclose least n ts) ≤ openings ts + 1 := by
  unfold enclose
  split <;> simp

theorem openings_le_enclose {least : Nat} {n : Node} {ts : List Token} :
    openings ts ≤ openings (enclose least n ts) := by
  unfold enclose
  split <;> simp

/-- The tighter an operand has to be, the more parentheses it has. -/
theorem openings_enclose_mono {least most : Nat} {n : Node} {ts : List Token} (h : least ≤ most) :
    openings (enclose least n ts) ≤ openings (enclose most n ts) := by
  by_cases hlt : n.form.rank < least
  · refine Nat.le_of_eq ?_
    rw [enclose, enclose, if_pos hlt, if_pos (Nat.lt_of_lt_of_le hlt h)]
  · rw [enclose, if_neg hlt]
    exact openings_le_enclose

theorem enclose_eq {least : Nat} {n : Node} {ts : List Token} (h : least ≤ n.form.rank) :
    enclose least n ts = ts := if_neg (Nat.not_lt.mpr h)

theorem enclose_of_form {least : Nat} {n : Node} {form : Form Node} {ts : List Token}
    (hn : n.form = form) (h : least ≤ form.rank) : enclose least n ts = ts := by
  rw [← hn] at h
  exact enclose_eq h

/-! ## No parentheses are superfluous -/

/-- How tight an expression of a level is. -/
def Parser.Level.rank : Parser.Level → Nat
  | .relation => 0
  | .sum => 1
  | .product => 2

/-- The tokens `ts` that are written for a phrase have no fewer parentheses than
    the printed ones. -/
def Frugal (ts : List Token) : Phrase → Prop
  | .block ns => (ns.map fun n => openings n.tokens).sum ≤ openings ts
  | .statement n => openings n.tokens ≤ openings ts
  | .moreParameters pairs => ((pairTokens pairs).map openings).sum ≤ openings ts
  | .operand level n => openings (enclose level.rank n n.tokens) ≤ openings ts
  | .operators level left n => openings (enclose level.rank n n.tokens) ≤
      openings (enclose level.rank left left.tokens) + openings ts
  | .power n => openings (enclose 3 n n.tokens) ≤ openings ts
  | .primary n => openings (enclose 4 n n.tokens) ≤ openings ts
  | .moreArguments values => (values.map fun n => openings n.tokens).sum ≤ openings ts

theorem Frugal.of_tighter {level : Parser.Level} {n : Node} {ts : List Token}
    (h : Frugal ts (.tighter level n)) :
    openings (enclose (level.rank + 1) n n.tokens) ≤ openings ts := by
  cases level <;> exact h

section Forms

variable {n : Node}

theorem tokens_of_form {form : Form Node} (hn : n.form = form) : n.tokens = formTokens form := by
  rw [tokens_eq, hn]

theorem openings_block {ns : List Node} (hn : n.form = .block ns) :
    openings n.tokens = (ns.map fun m => openings m.tokens).sum := by
  rw [tokens_of_form hn, formTokens, openings_separated _ (by decide), listTokens_eq_map,
    List.map_map]
  rfl

theorem openings_args {ns : List Node} (hn : n.form = .args ns) :
    openings n.tokens = (ns.map fun m => openings m.tokens).sum := by
  rw [tokens_of_form hn, formTokens, openings_separated _ (by decide), listTokens_eq_map,
    List.map_map]
  rfl

theorem openings_params {pairs : List (Node × Node)} (hn : n.form = .params pairs) :
    openings n.tokens = ((pairTokens pairs).map openings).sum := by
  rw [tokens_of_form hn, formTokens, openings_separated _ (by decide)]

theorem openings_binder {x : String} (hn : n.form = .binder x) : openings n.tokens = 0 := by
  rw [tokens_of_form hn]
  rfl

theorem openings_ty {t : Ty} (hn : n.form = .ty t) : openings n.tokens = 0 := by
  rw [tokens_of_form hn]
  rfl

theorem openings_relation {rel : Rel} {l r : Node} (hn : n.form = .relation rel l r) :
    openings n.tokens = openings (enclose 0 l l.tokens) + openings (enclose 1 r r.tokens) := by
  have hsign : rel.sign ≠ .openParen := by cases rel <;> decide
  rw [tokens_of_form hn, formTokens]
  simp [hsign]

theorem openings_arith {op : Arith} {l r : Node} (hn : n.form = .arith op l r) :
    openings n.tokens =
      openings (enclose op.leftRank l l.tokens) + openings (enclose op.rightRank r r.tokens) := by
  have hsign : op.sign ≠ .openParen := by cases op <;> decide
  rw [tokens_of_form hn, formTokens]
  simp [hsign]

/-- An operator of a level needs no parentheses but those of its operands. -/
theorem openings_operator {level : Parser.Level} {sg : Sign} {form : Node → Node → Form Node}
    {l r : Node} (hop : level.operator? (.sign sg) = some form) (hn : n.form = form l r) :
    openings (enclose level.rank n n.tokens) = openings (enclose level.rank l l.tokens) +
      openings (enclose (level.rank + 1) r r.tokens) := by
  have hrank : n.form.rank = level.rank := by
    rw [hn]
    cases level <;> cases sg <;> cases hop <;> rfl
  rw [enclose_eq (Nat.le_of_eq hrank.symm)]
  cases level with
  | relation =>
    obtain ⟨rel, -, rfl⟩ := Option.map_eq_some_iff.mp hop
    exact openings_relation hn
  | sum => cases sg <;> cases hop <;> exact openings_arith hn
  | product => cases sg <;> cases hop <;> exact openings_arith hn

theorem sign_ne_openParen {level : Parser.Level} {sg : Sign} {form : Node → Node → Form Node}
    (hop : level.operator? (.sign sg) = some form) : sg ≠ .openParen := by
  rintro rfl
  cases level <;> cases hop

theorem openings_literal {t : Token} (hn : Parser.literal? t = some n.form) :
    4 ≤ n.form.rank ∧ openings n.tokens = 0 := by
  obtain ⟨id, line, form⟩ := n
  cases t <;> cases hn <;> exact ⟨Nat.le_refl 4, rfl⟩

end Forms

/-- Whatever is written for a phrase has at least the parentheses that are
    printed for it. -/
theorem frugal_of_written {phrase : Phrase} {ts : List Token} (h : Written phrase ts) :
    Frugal ts phrase := by
  induction h with
  | done => exact Nat.zero_le _
  | separator _ ih => simpa [Frugal] using ih
  | next _ _ _ ihn ih => simpa [Frugal] using Nat.add_le_add ihn ih
  | scope hn hb _ ih => simpa [Frugal, tokens_of_form hn, formTokens, openings_block hb] using ih
  | comment hn => simp [Frugal, tokens_of_form hn, formTokens]
  | print hn _ ih => simpa [Frugal, tokens_of_form hn, formTokens] using ih
  | branch hn hb _ _ ihg ihb | whileLoop hn hb _ _ ihg ihb =>
    simp only [Frugal, tokens_of_form hn, formTokens] at ihg ihb ⊢
    simp only [openings_cons, openings_append, openings_parens, openings_braces, openings_block hb,
      ne_eq, reduceCtorEq, not_false_eq_true]
    omega
  | forLoop hn hb _ _ _ _ iha ihg ihc ihb =>
    simp only [Frugal, tokens_of_form hn, formTokens] at iha ihg ihc ihb ⊢
    simp [openings_block hb, separated]
    omega
  | procedure hn hname hb _ ih =>
    simp only [Frugal, tokens_of_form hn, formTokens] at ih ⊢
    simp [openings_block hb, openings_binder hname, optionTokens]
    omega
  | function hn hname hps hx hty hb _ _ ihp ihb =>
    simp only [Frugal, tokens_of_form hn, formTokens] at ihp ihb ⊢
    simp [openings_block hb, openings_binder hname, optionTokens, openings_params hps, pairTokens,
      typedTokens, openings_binder hx, openings_ty hty, typed]
    omega
  | assign hn hname _ ih | define hn hname _ ih =>
    simpa [Frugal, tokens_of_form hn, formTokens, openings_binder hname] using ih
  | declare hn hname hty =>
    simp [Frugal, tokens_of_form hn, formTokens, openings_binder hname, openings_ty hty]
  | expression _ ih => exact Nat.le_trans openings_le_enclose ih
  | lastParameter => exact Nat.zero_le _
  | nextParameter hname hty _ ih =>
    simpa [Frugal, pairTokens, typedTokens, openings_binder hname, openings_ty hty, typed] using ih
  | @operand level left n a ts _ _ iha ih =>
    have hleft : openings (enclose level.rank left left.tokens) ≤ openings a :=
      Nat.le_trans (openings_enclose_mono (Nat.le_succ _)) iha.of_tighter
    simp only [Frugal, openings_append] at ih ⊢
    omega
  | lastOperand => simp [Frugal]
  | nextOperand hop hm _ _ iha ih =>
    have hright := iha.of_tighter
    have hsign := sign_ne_openParen hop
    simp only [Frugal, openings_operator hop hm] at ih ⊢
    simp only [ne_eq, Token.sign.injEq, hsign, not_false_eq_true, openings_cons, openings_append]
    omega
  | base _ ih => exact Nat.le_trans (openings_enclose_mono (Nat.le_succ 3)) ih
  | power hn _ _ ihl ihr =>
    simp only [Frugal] at ihl ihr ⊢
    rw [enclose_of_form hn (Nat.le_refl 3), openings_arith hn, openings_append,
      openings_cons _ (by decide)]
    exact Nat.add_le_add ihl ihr
  | @literal n t hn =>
    obtain ⟨hrank, hnone⟩ := openings_literal hn
    simp [Frugal, enclose_eq hrank, hnone]
  | read hn =>
    simp [Frugal, enclose_of_form hn (Nat.le_refl 4), tokens_of_form hn, formTokens]
  | bareCall hn hname =>
    simp [Frugal, enclose_of_form hn (Nat.le_refl 4), tokens_of_form hn, formTokens,
      openings_binder hname, optionTokens]
  | call hn hname hargs _ _ iha ih =>
    simp only [Frugal, enclose_of_form hn (Nat.le_refl 4), tokens_of_form hn,
      formTokens] at iha ih ⊢
    simp [openings_binder hname, optionTokens, openings_args hargs]
    exact Nat.add_le_add (Nat.le_trans openings_le_enclose iha) ih
  | math hn _ ih =>
    simp [Frugal, enclose_of_form hn (Nat.le_refl 4), tokens_of_form hn, formTokens]
    exact Nat.le_trans openings_le_enclose ih
  | cast hn hty _ ih =>
    have hnone : openings [] = 0 := List.count_nil
    simpa [Frugal, enclose_of_form hn (Nat.le_refl 4), tokens_of_form hn, formTokens, separated,
      openings_ty hty, hnone] using ih
  | enclosed _ ih =>
    rw [Frugal, openings_parens]
    exact Nat.le_trans openings_enclose_le
      (Nat.add_le_add_right (Nat.le_trans openings_le_enclose ih) 1)
  | lastArgument => exact Nat.zero_le _
  | nextArgument _ _ iha ih =>
    simpa [Frugal] using Nat.add_le_add (Nat.le_trans openings_le_enclose iha) ih

/-! ## Programs -/

theorem rank_of_alike {m n : Node} (h : Alike m n) : m.form.rank = n.form.rank := by
  obtain ⟨pairs, -, -⟩ := h
  cases pairs <;> rfl

/-- Trees that are equal up to ids and lines are printed alike. -/
theorem tokens_of_alike {m n : Node} (h : Alike m n) : m.tokens = n.tokens := by
  induction h with
  | node pairs _ hchildren ih =>
    have henclose : ∀ least, ∀ pair ∈ pairs.children,
        enclose least pair.1 pair.1.tokens = enclose least pair.2 pair.2.tokens := by
      intro least pair hpair
      rw [enclose, enclose, rank_of_alike (hchildren pair hpair), ih pair hpair]
    rw [tokens, tokens]
    cases pairs with
    | block ns | args ns =>
      simp only [Form.map, formTokens, listTokens_eq_map, List.map_map]
      congr 1
      exact List.map_congr_left ih
    | params ps =>
      simp only [Form.map, formTokens, pairTokens_eq_map, List.map_map]
      congr 1
      refine List.map_congr_left fun p hp => ?_
      have hname := ih p.1 (List.mem_flatMap.mpr ⟨p, hp, by simp⟩)
      have hty := ih p.2 (List.mem_flatMap.mpr ⟨p, hp, by simp⟩)
      simp only [Function.comp_apply, typedTokens, hname, hty]
    | function name ps b =>
      cases ps <;> simp_all [Form.map, Form.children, formTokens, optionTokens]
    | call name args =>
      cases args <;> simp_all [Form.map, Form.children, formTokens, optionTokens]
    | _ => simp_all [Form.map, Form.children, formTokens]

/-- A program of the shape that the grammar produces. -/
def Node.IsGrammatical (p : Node) : Prop :=
  ∃ b, p.form = .program b ∧ b.form.isBlock = true ∧ b.All IsWellFormed

/-- **Parsing undoes printing**, and no parentheses are superfluous. -/
theorem parse_tokens {p : Node} (hp : p.IsGrammatical) {lexed : List Lexed}
    (hlexed : lexed.map Lexed.token = p.tokens) (firstId : Nat) :
    (parse lexed firstId).errors = [] ∧ Alike (parse lexed firstId).tree p ∧
      ∀ other otherId, (parse other otherId).errors = [] → Alike (parse other otherId).tree p →
        openings p.tokens ≤ openings (other.map Lexed.token) := by
  obtain ⟨b, hform, hblock, hwell⟩ := hp
  have htokens : p.tokens = b.tokens := by
    rw [tokens_of_form hform]
    rfl
  obtain ⟨ns, hns, hwritten⟩ := (printed hwell).exists_block hblock
  rw [← htokens, ← hlexed] at hwritten
  obtain ⟨hclean, halike⟩ := Parser.parse_of_written firstId hform hns hwritten
  refine ⟨hclean, halike, fun other otherId hother hsame => ?_⟩
  obtain ⟨ms, hms⟩ := (derives_of_parse hother).writable
  let q : Node := mk (.program (mk (.block ms)))
  have hread : Alike (parse other otherId).tree q := (Parser.parse_of_written otherId rfl rfl hms).2
  have hsum : openings q.tokens = (ms.map fun m => openings m.tokens).sum :=
    openings_block (n := mk (.block ms)) rfl
  rw [← tokens_of_alike hsame, tokens_of_alike hread, hsum]
  exact frugal_of_written hms

/-- `x := (1 + 2) * 3; print(x - (2 - 1))`: the parentheses stay. -/
theorem parse_tokens_of_nested : ∃ p : Node, p.IsGrammatical ∧
    p.tokens = [.name "x", .sign .colonEquals, .sign .openParen, .int 1, .sign .plus, .int 2,
      .sign .closeParen, .sign .star, .int 3, .sign .semicolon, .keyword .print, .sign .openParen,
      .name "x", .sign .minus, .sign .openParen, .int 2, .sign .minus, .int 1, .sign .closeParen,
      .sign .closeParen] ∧
    (parse (p.tokens.map fun t => ⟨t, 7⟩) 0).errors = [] ∧
    Alike (parse (p.tokens.map fun t => ⟨t, 7⟩) 0).tree p := by
  let sum : Node := mk (.arith .add (mk (.int 1)) (mk (.int 2)))
  let difference : Node := mk (.arith .sub (mk (.int 2)) (mk (.int 1)))
  let first : Node := mk (.define (mk (.binder "x")) (mk (.arith .mul sum (mk (.int 3)))))
  let second : Node := mk (.print (mk (.arith .sub (mk (.read "x")) difference)))
  have hgrammatical : (mk (.program (mk (.block [first, second])))).IsGrammatical :=
    ⟨mk (.block [first, second]), rfl, rfl, by decide⟩
  have hlexed : ∀ ts : List Token, (ts.map fun t => (⟨t, 7⟩ : Lexed)).map Lexed.token = ts := by
    intro ts
    rw [List.map_map]
    exact List.map_id ts
  obtain ⟨hclean, halike, -⟩ := parse_tokens hgrammatical (hlexed _) 0
  exact ⟨_, hgrammatical, rfl, hclean, halike⟩

end Scriptlet
