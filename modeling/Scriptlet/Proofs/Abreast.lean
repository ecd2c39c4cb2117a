import Scriptlet.Proofs.Parallel
import Scriptlet.Proofs.Separators

/-!
# Two parsers abreast

The first parser reads two semicolons in place of every comment. The second one reads
the comment, or nothing. As long as the first one does not report one of these
semicolons, the second one goes on with the same phrase: the first parser ends a phrase
at a semicolon, and so does the second one at a comment, or at a token that does not go
on with the phrase.

Neither of them takes the parenthesis of a print or of a header for that of an operand. So
a place is not enough: `Abreast` says also that the next token is not such a parenthesis.
After the first word of a header the two parsers are `Aligned` only.

Results:
* `Parser.Aligned`, `Parser.Abreast`: the two parsers are at the same place; their moves.
* `Parser.Abreast.resume`: they are so again after an error.
* `Parser.Together`: the two parsers come to related outcomes; what is composed of
  such parsers.
-/

namespace Scriptlet

namespace Parser

variable {α β γ δ : Type}

/-! ## States side by side -/

/-- What the two parsers read: the tokens of a source, with marks for its comments, and
    the same tokens without some of the comments. -/
structure Screen where
  tokens : List Lexed
  /-- which tokens the second parser reads -/
  keeps : Lexed → Bool
  keeps_of_not_isComment : ∀ t, t.token.isComment = false → keeps t = true
  onLines : ∀ t ∈ tokens, 0 < t.line
  separated : Separated tokens

/-- The tokens that the second parser reads. -/
def Screen.kept (S : Screen) : List Lexed := S.tokens.filter S.keeps

/-- The line on which the source of the second parser ends. -/
def Screen.endLine (S : Screen) : Nat := (S.kept.getLast?.map Lexed.line).getD 1

/-- The first parser has `xs` ahead where the second one has `ys`. -/
def Screen.Reads (S : Screen) (xs ys : List Lexed) : Prop :=
  ∃ ts, ts <:+ S.tokens ∧ xs = marked ts ∧ ys = ts.filter S.keeps

/-- With `xs` ahead, the first parser does not come to the parenthesis of a header. -/
def Screen.Clear (S : Screen) (xs : List Lexed) : Prop :=
  ∀ x, x :: xs <:+ marked S.tokens → x.token.opensHeader = true →
    xs.head?.map Lexed.token ≠ some (.sign .openParen)

/-- After any other token it may come to a parenthesis. -/
theorem Screen.clear_of_suffix {S : Screen} {x : Lexed} {xs : List Lexed}
    (h : x :: xs <:+ marked S.tokens) (hx : x.token.opensHeader = false) : S.Clear xs := by
  intro y hy hheader
  obtain ⟨rfl, -⟩ := List.cons.inj
    ((List.suffix_of_suffix_length_le hy h (Nat.le_refl _)).eq_of_length rfl)
  rw [hx] at hheader
  cases hheader

theorem length_le_length_marked (ts : List Lexed) : ts.length ≤ (marked ts).length := by
  induction ts with
  | nil => exact Nat.le_refl _
  | cons t ts ih =>
    cases ht : t.token.isComment with
    | true =>
      rw [marked_cons_comment ht]
      simp only [List.length_cons]
      omega
    | false =>
      rw [marked_cons ht]
      simp only [List.length_cons]
      omega

namespace Screen.Reads

variable {S : Screen} {x : Lexed} {xs ys xs' ys' : List Lexed}

theorem ne_mark (S : Screen) {t : Lexed} {ts : List Lexed} (h : t :: ts <:+ S.tokens) :
    t ≠ mark := by
  rintro rfl
  exact absurd (S.onLines mark (h.subset List.mem_cons_self)) (Nat.lt_irrefl 0)

/-- The two parsers come to the end together. -/
theorem nil (h : S.Reads [] ys) : ys = [] := by
  obtain ⟨ts, -, hxs, rfl⟩ := h
  have hlength := length_le_length_marked ts
  rw [← hxs] at hlength
  rw [List.eq_nil_of_length_eq_zero (Nat.le_zero.mp hlength)]
  rfl

/-- Before a token that is no mark, both parsers have the same tokens of the source. -/
theorem exists_of_ne_mark (h : S.Reads (x :: xs) ys) (hx : x ≠ mark) :
    ∃ ts, x :: ts <:+ S.tokens ∧ x.token.isComment = false ∧ xs = marked ts ∧
      ys = x :: ts.filter S.keeps := by
  obtain ⟨ts, hts, hxs, rfl⟩ := h
  cases ts with
  | nil => cases hxs
  | cons t ts =>
    cases ht : t.token.isComment with
    | true =>
      rw [marked_cons_comment ht] at hxs
      cases hxs
      exact absurd rfl hx
    | false =>
      rw [marked_cons ht] at hxs
      cases hxs
      exact ⟨ts, hts, ht, rfl, List.filter_cons_of_pos (S.keeps_of_not_isComment _ ht)⟩

/-- What comes first among tokens some of which are dropped. -/
theorem exists_of_head?_filter {keeps : Lexed → Bool} {ts : List Lexed} {y : Lexed}
    (h : (ts.filter keeps).head? = some y) :
    ∃ dropped after, ts = dropped ++ y :: after ∧ ∀ t ∈ dropped, keeps t = false := by
  obtain ⟨tail, htail⟩ := List.head?_eq_some_iff.mp h
  obtain ⟨dropped, after, hts, hdropped, -⟩ := List.filter_eq_cons_iff.mp htail
  exact ⟨dropped, after, hts, by simpa using hdropped⟩

/-- What the first parser has ahead comes last among the tokens with marks. -/
theorem suffix (h : S.Reads xs ys) : xs <:+ marked S.tokens := by
  obtain ⟨ts, ⟨before, hbefore⟩, rfl, -⟩ := h
  exact ⟨marked before, by rw [← marked_append, hbefore]⟩

/-- If the first parser stands at a mark, what the second one sees does not go on with what
    was read. -/
theorem goesOn_eq_false (h : S.Reads (mark :: xs) (x :: ys)) {read : List Lexed}
    (hread : read ++ mark :: xs = marked S.tokens) :
    Token.goesOn (read.map Lexed.token).reverse x.token = false := by
  obtain ⟨ts, ⟨before, hbefore⟩, hmark, hx⟩ := h
  obtain rfl : read = marked before := by
    rw [← hbefore, marked_append, ← hmark] at hread
    exact List.append_cancel_right hread
  obtain ⟨dropped, after, rfl, hdropped⟩ := exists_of_head?_filter (by rw [← hx]; rfl)
  have hcomments : ∀ c ∈ dropped, c.token.isComment = true := by
    intro c hc
    by_contra hne
    have hkept := S.keeps_of_not_isComment c (Bool.not_eq_true _ ▸ hne)
    rw [hdropped c hc] at hkept
    cases hkept
  by_cases hcomment : x.token.isComment = true
  · exact Token.goesOn_comment hcomment
  rw [goesOn_marked]
  refine S.separated before dropped x after hbefore.symm ?_ hcomments
  rintro rfl
  -- the first token ahead is `x`, which is no mark
  rw [List.nil_append, marked_cons (Bool.not_eq_true _ ▸ hcomment)] at hmark
  exact ne_mark S ⟨before, hbefore⟩ (List.cons.inj hmark).1.symm

/-- The next token, if it is no mark. -/
theorem cons (h : S.Reads (x :: xs) ys) (hx : x ≠ mark) :
    ∃ ys', ys = x :: ys' ∧ S.Reads xs ys' := by
  obtain ⟨ts, hts, -, rfl, rfl⟩ := h.exists_of_ne_mark hx
  exact ⟨_, rfl, ts, (List.suffix_cons x ts).trans hts, rfl, rfl⟩

/-- A mark is the first one of two. The second parser may have a comment there. -/
theorem exists_of_mark (h : S.Reads (mark :: xs) ys) :
    ∃ zs, xs = mark :: zs ∧ (S.Reads zs ys ∨
      ∃ c ys', c.token.isComment = true ∧ ys = c :: ys' ∧ S.Reads zs ys') := by
  obtain ⟨ts, hts, hxs, rfl⟩ := h
  cases ts with
  | nil => cases hxs
  | cons c ts =>
    have htail : ts <:+ S.tokens := (List.suffix_cons c ts).trans hts
    cases hc : c.token.isComment with
    | false =>
      rw [marked_cons hc] at hxs
      exact absurd (List.cons.inj hxs).1.symm (ne_mark S hts)
    | true =>
      rw [marked_cons_comment hc] at hxs
      cases hxs
      refine ⟨marked ts, rfl, ?_⟩
      cases hkept : S.keeps c with
      | false =>
        rw [List.filter_cons_of_neg (by simp [hkept])]
        exact .inl ⟨ts, htail, rfl, rfl⟩
      | true =>
        rw [List.filter_cons_of_pos hkept]
        exact .inr ⟨c, _, hc, rfl, ts, htail, rfl, rfl⟩

/-- **The two parsers move on together.** From a token that is no mark, either none of
    them has read anything or both have. -/
theorem eq_or_lt (h : S.Reads (x :: xs) ys) (hx : x ≠ mark) (h' : S.Reads xs' ys')
    (hlength : xs'.length ≤ (x :: xs).length) :
    xs' = x :: xs ∧ ys' = ys ∨ xs'.length < (x :: xs).length ∧ ys'.length < ys.length := by
  obtain ⟨ts, hts, hcomment, rfl, rfl⟩ := h.exists_of_ne_mark hx
  obtain ⟨us, hus, rfl, rfl⟩ := h'
  have hsame (heq : us = x :: ts) :
      marked us = x :: marked ts ∧ us.filter S.keeps = x :: ts.filter S.keeps := by
    subst heq
    exact ⟨marked_cons hcomment ts, List.filter_cons_of_pos (S.keeps_of_not_isComment _ hcomment)⟩
  rcases List.suffix_or_suffix_of_suffix hts hus with ⟨before, hbefore⟩ | hsuffix
  · -- the second place is not before the first one
    have hempty : before = [] := by
      rw [← hbefore, marked_append, List.length_append, marked_cons hcomment] at hlength
      have hle := length_le_length_marked before
      exact List.eq_nil_of_length_eq_zero (by omega)
    exact .inl (hsame (by rw [← hbefore, hempty, List.nil_append]))
  rcases List.suffix_cons_iff.mp hsuffix with heq | hsuffix
  · exact .inl (hsame heq)
  · have hfilter := (hsuffix.sublist.filter S.keeps).length_le
    obtain ⟨before, rfl⟩ := hsuffix
    refine .inr ⟨?_, Nat.lt_succ_of_le hfilter⟩
    rw [List.length_cons, marked_append, List.length_append]
    omega

end Screen.Reads

/-- The two parsers are at the same place. -/
structure Aligned (S : Screen) (s s' : State) : Prop where
  reads : S.Reads s.ahead s'.ahead
  errors : s'.errors.toList = s.errors.toList.map (SourceError.relocate S.endLine)
  endLine : s'.endLine = S.endLine

/-- The two parsers are at the same place, and not before the parenthesis of a header. -/
structure Abreast (S : Screen) (s s' : State) : Prop extends Aligned S s s' where
  clear : S.Clear s.ahead

section Places

variable {S : Screen} {s s' u u' : State} {x : Lexed} {tail : List Lexed}

namespace Aligned

/-- The two parsers come to the end together. -/
theorem nil (h : Aligned S s s') (hs : s.ahead = []) : s'.ahead = [] := (hs ▸ h.reads).nil

/-- The next token, if it is no mark, and the states after it. -/
theorem cons (h : Aligned S s s') (hs : s.ahead = x :: tail) (hx : x ≠ mark) :
    ∃ tail', s'.ahead = x :: tail' ∧
      Aligned S { s with ahead := tail } { s' with ahead := tail' } := by
  obtain ⟨tail', hs', htail⟩ := (hs ▸ h.reads).cons hx
  exact ⟨tail', hs', htail, h.errors, h.endLine⟩

/-- The next token, if it is no word of a header, and the states after it. -/
theorem next (h : Aligned S s s') (hs : s.ahead = x :: tail) (hx : x ≠ mark)
    (hheader : x.token.opensHeader = false) :
    ∃ tail', s'.ahead = x :: tail' ∧
      Abreast S { s with ahead := tail } { s' with ahead := tail' } := by
  obtain ⟨tail', hs', htail⟩ := h.cons hs hx
  exact ⟨tail', hs', htail, Screen.clear_of_suffix (hs ▸ h.reads.suffix) hheader⟩

/-- Where the first parser does not stand at a mark, the second one sees the same. -/
theorem head?_eq (h : Aligned S s s') (hmark : s.ahead.head? ≠ some mark) :
    s'.ahead.head? = s.ahead.head? := by
  cases hs : s.ahead with
  | nil => rw [h.nil hs]
  | cons x tail =>
    obtain ⟨tail', hs', -⟩ := h.cons hs fun hx => hmark (by rw [hs, hx]; rfl)
    rw [hs']
    rfl

/-- The two parsers record the same errors. -/
theorem recorded (h : Aligned S u u') (e : SourceError) :
    (Parser.recorded (e.relocate S.endLine) u'.errors).toList =
      (Parser.recorded e u.errors).toList.map (SourceError.relocate S.endLine) := by
  rw [toList_recorded, toList_recorded, h.errors, List.getLast?_map]
  cases e with
  | unexpectedEnd line =>
    generalize u.errors.toList.getLast? = last
    cases last with
    | none => simp [SourceError.relocate]
    | some d => cases d <;> simp [SourceError.relocate]
  | _ => simp [SourceError.relocate]

end Aligned

namespace Abreast

/-- Giving out ids changes nothing. -/
theorem fresh (h : Abreast S s s') (id id' : Nat) :
    Abreast S { s with nextId := id } { s' with nextId := id' } :=
  ⟨⟨h.reads, h.errors, h.endLine⟩, h.clear⟩

/-- **The two parsers go on at the same place after an error.** -/
theorem resume {nested : Bool} (h : Abreast S s s') (hs : s.ahead = x :: tail) (hx : x ≠ mark)
    (hopen : ¬ (nested ∧ x.token = .sign .closeBrace)) (hu : Abreast S u u')
    (hlimit : u.ahead.length ≤ s.ahead.length)
    (hheader : x.token.opensHeader = true → u.ahead.length < s.ahead.length) (e : SourceError) :
    Abreast S (resume nested s.ahead.length e u)
      (Parser.resume nested s'.ahead.length (e.relocate S.endLine) u') := by
  rw [hs] at hlimit hheader
  rcases (hs ▸ h.reads).eq_or_lt hx hu.reads hlimit with ⟨heq, heq'⟩ | ⟨hlt, hlt'⟩
  · -- nothing was read, so the token is dropped on both sides, which is no word of a header
    have hother : x.token.opensHeader = false := by
      by_contra hword
      exact absurd (congrArg List.length heq)
        (Nat.ne_of_lt (hheader (Bool.not_eq_false _ ▸ hword)))
    obtain ⟨tail', hs', htail⟩ := h.next hs hx hother
    have hdrop (v : State) (length : Nat) (tail : List Lexed) (hv : v.ahead = x :: tail)
        (hlength : length = (x :: tail).length) (e : SourceError) :
        Parser.resume nested length e v =
          { v with ahead := tail, errors := Parser.recorded e v.errors } := by
      unfold Parser.resume
      rw [hv, hlength]
      simp only [List.head?_cons, Option.map_some, Option.some.injEq, List.tail_cons, true_and,
        if_pos hopen]
    rw [hdrop u _ tail heq (by rw [hs]), hdrop u' _ tail' (heq'.trans hs') (by rw [hs'])]
    exact ⟨⟨htail.reads, hu.recorded e, hu.endLine⟩, htail.clear⟩
  · have hkeep (v : State) (length : Nat) (hlength : v.ahead.length < length) (e : SourceError) :
        Parser.resume nested length e v =
          { v with errors := Parser.recorded e v.errors } := by
      unfold Parser.resume
      simp only [Nat.ne_of_lt hlength, false_and, if_false]
    rw [hkeep u _ (by rw [hs]; exact hlt), hkeep u' _ hlt']
    exact ⟨⟨hu.reads, hu.recorded e, hu.endLine⟩, hu.clear⟩

end Abreast

end Places

/-! ## Outcomes side by side -/

/-- A mark was found: it is the error, or was recorded. -/
def Stained (r : Except SourceError α × State) : Prop :=
  markFound ∈ r.2.errors.toList ∨ r.1 = .error markFound

/-- How two outcomes may be related, unless the first parser finds a mark. A result is
    `Q`. -/
inductive Accord (S : Screen) (Q : α → β → State → State → Prop) :
    Except SourceError α × State → Except SourceError β × State → Prop
  | stained {r : Except SourceError α × State} {r' : Except SourceError β × State} : Stained r →
      Accord S Q r r'
  | ok {a : α} {b : β} {t t' : State} : Abreast S t t' → Q a b t t' →
      Accord S Q (.ok a, t) (.ok b, t')
  | error {e : SourceError} {t t' : State} : Abreast S t t' →
      Accord S Q (.error e, t) (.error (e.relocate S.endLine), t')

/-- Two parsers side by side come to related outcomes, if they come to anything. -/
def Together (S : Screen) (Q : α → β → State → State → Prop) (s s' : State) (p : Parser α)
    (p' : Parser β) : Prop :=
  ∀ r r', outcome p s = some r → outcome p' s' = some r' → Accord S Q r r'

namespace Together

variable {S : Screen} {Q : α → β → State → State → Prop} {s s' : State} {p q : Parser α}
  {p' q' : Parser β}

theorem of_eq {r : Except SourceError α × State} {r' : Except SourceError β × State}
    (h : outcome p s = some r) (h' : outcome p' s' = some r') (hr : Accord S Q r r') :
    Together S Q s s' p p' := by
  intro _ _ hrun hrun'
  cases h.symm.trans hrun
  cases h'.symm.trans hrun'
  exact hr

theorem of_outcome_eq (hq : Together S Q s s' q q') (h : outcome p s = outcome q s)
    (h' : outcome p' s' = outcome q' s') : Together S Q s s' p p' :=
  fun r r' hrun hrun' => hq r r' (h ▸ hrun) (h' ▸ hrun')

theorem exhausted : Together S Q s s' exhausted p' := by
  intro _ _ hrun
  cases hrun

theorem exhausted_right : Together S Q s s' p Parser.exhausted := by
  intro _ _ _ hrun
  cases hrun

theorem pure {a : α} {b : β} (h : Abreast S s s') (hab : Q a b s s') :
    Together S Q s s' (pure a) (pure b) := of_eq rfl rfl (.ok h hab)

theorem of_trips {tail : List Lexed} (hp : Trips p) (hs : s.ahead = mark :: tail) :
    Together S Q s s' p p' := by
  intro r r' hrun _
  cases hp s tail r hs hrun
  exact .stained (.inr rfl)

theorem bind_of_grows {P : γ → δ → State → State → Prop} {m : Parser γ} {m' : Parser δ}
    {f : γ → Parser α} {f' : δ → Parser β} (hgrows : ∀ c, Grows (f c))
    (hm : Together S P s s' m m')
    (hf : ∀ c d t t', Abreast S t t' → P c d t t' → Together S Q t t' (f c) (f' d)) :
    Together S Q s s' (m >>= f) (m' >>= f') := by
  rintro ⟨r, u⟩ ⟨r', u'⟩ hrun hrun'
  -- what the second parser begins with comes to something, too
  have hbegins : ∃ x', outcome m' s' = some x' := by
    rcases outcome_bind_eq_some.mp hrun' with ⟨d, t', hd, -⟩ | ⟨e', he', -⟩
    · exact ⟨_, hd⟩
    · exact ⟨_, he'⟩
  obtain ⟨x', hx'⟩ := hbegins
  rcases outcome_bind_eq_some.mp hrun with ⟨c, t, hc, hrun⟩ | ⟨e, he, rfl⟩
  · cases hm _ _ hc hx' with
    | stained hstained =>
      have hfound := hstained.resolve_right fun he => by cases he
      exact .stained (.inl (((hgrows c).grows hrun).subset hfound))
    | ok ht hcd =>
      rw [outcome_bind_ok hx'] at hrun'
      exact hf _ _ _ _ ht hcd _ _ hrun hrun'
  · cases hm _ _ he hx' with
    | stained hstained =>
      refine .stained (hstained.imp id fun heq => ?_)
      cases heq
      rfl
    | error ht =>
      cases (outcome_bind_error hx').symm.trans hrun'
      exact .error ht

theorem bind {P : γ → δ → State → State → Prop} {m : Parser γ} {m' : Parser δ}
    {f : γ → Parser α} {f' : δ → Parser β} [∀ c, Grows (f c)] (hm : Together S P s s' m m')
    (hf : ∀ c d t t', Abreast S t t' → P c d t t' → Together S Q t t' (f c) (f' d)) :
    Together S Q s s' (m >>= f) (m' >>= f') :=
  bind_of_grows inferInstance hm hf

/-- What is known of a result of the first parser. -/
theorem imp_run {P : α → β → State → State → Prop} (h : Together S P s s' p p')
    (hPQ : ∀ a b t t', outcome p s = some (.ok a, t) → P a b t t' → Q a b t t') :
    Together S Q s s' p p' := by
  intro r r' hrun hrun'
  cases h r r' hrun hrun' with
  | stained hstained => exact .stained hstained
  | ok ht hab => exact .ok ht (hPQ _ _ _ _ hrun hab)
  | error ht => exact .error ht

theorem imp {P : α → β → State → State → Prop} (h : Together S P s s' p p')
    (hPQ : ∀ a b t t', P a b t t' → Q a b t t') : Together S Q s s' p p' :=
  h.imp_run fun _ _ _ _ _ => hPQ _ _ _ _

theorem unexpected (h : Abreast S s s') : Together S Q s s' unexpected unexpected := by
  cases hahead : s.ahead with
  | nil =>
    refine of_eq (outcome_unexpected_nil hahead) (outcome_unexpected_nil (h.nil hahead)) ?_
    rw [h.endLine]
    exact .error (e := .unexpectedEnd s.endLine) h
  | cons x tail =>
    by_cases hx : x = mark
    · subst hx
      exact of_trips .unexpected hahead
    · obtain ⟨tail', hahead', -⟩ := h.cons hahead hx
      exact of_eq (outcome_unexpected_cons hahead) (outcome_unexpected_cons hahead')
        (.error (e := .unexpectedToken x.token x.line) h)

/-- Taking a token that is neither a mark nor the first word of a header. -/
theorem take {accept? : Token → Option γ} (haccept : accept? (.sign .semicolon) = none)
    (hheader : ∀ t, t.opensHeader = true → accept? t = none) (h : Abreast S s s') :
    Together S (fun a b _ _ => a = b) s s' (take accept?) (take accept?) := by
  cases hahead : s.ahead with
  | nil =>
    refine (unexpected h).of_outcome_eq (outcome_take_none ?_) (outcome_take_none ?_)
    · rw [hahead]
      rfl
    · rw [h.nil hahead]
      rfl
  | cons x tail =>
    by_cases hx : x = mark
    · subst hx
      exact of_trips (.take haccept) hahead
    cases ha : accept? x.token with
    | none =>
      obtain ⟨tail', hahead', -⟩ := h.cons hahead hx
      refine (unexpected h).of_outcome_eq (outcome_take_none ?_) (outcome_take_none ?_)
      · rw [hahead]
        exact ha
      · rw [hahead']
        exact ha
    | some a =>
      have hother : x.token.opensHeader = false := by
        by_contra hword
        rw [hheader _ (Bool.not_eq_false _ ▸ hword)] at ha
        cases ha
      obtain ⟨tail', hahead', htail⟩ := h.next hahead hx hother
      exact of_eq (outcome_take_some hahead ha) (outcome_take_some hahead' ha) (.ok htail rfl)

theorem name (h : Abreast S s s') : Together S (fun a b _ _ => a = b) s s' name name :=
  take rfl (fun t ht => by cases t <;> first | rfl | cases ht) h

theorem typeName (h : Abreast S s s') :
    Together S (fun a b _ _ => a = b) s s' typeName typeName :=
  take rfl (fun t ht => by cases t <;> first | rfl | cases ht) h

/-- A sign other than a semicolon. -/
theorem sign {sg : Sign} (hsg : sg ≠ .semicolon) (h : Abreast S s s') :
    Together S (fun i j _ _ => i = j) s s' (sign sg) (sign sg) := by
  refine bind (take (if_neg fun heq => hsg (Token.sign.inj heq).symm) (fun t ht => ?_) h) ?_
  · refine if_neg ?_
    rintro rfl
    cases ht
  · rintro a b t t' ht rfl
    exact pure ht rfl

/-- The parenthesis that opens a header. -/
theorem opening (h : Aligned S s s') :
    Together S (fun i j _ _ => i = j) s s' (Parser.sign .openParen) (Parser.sign .openParen) := by
  by_cases hopen : s.ahead.head?.map Lexed.token = some (.sign .openParen)
  · obtain ⟨⟨_, line⟩, tail, hahead, rfl⟩ := exists_of_head? hopen
    obtain ⟨tail', hahead', htail⟩ := h.next hahead nofun rfl
    exact of_eq (outcome_sign_eq hahead) (outcome_sign_eq hahead') (.ok htail rfl)
  · exact sign (by decide) ⟨h, fun _ _ _ => hopen⟩

/-- A semicolon before something else. The second one of two marks is found there. -/
theorem semicolon_bind {f : Nat → Parser α} {f' : Nat → Parser β} [∀ i, Grows (f i)]
    (htrips : ∀ i, Trips (f i)) (h : Abreast S s s')
    (hf : ∀ i t t', Abreast S t t' → Together S Q t t' (f i) (f' i)) :
    Together S Q s s' (Parser.sign .semicolon >>= f) (Parser.sign .semicolon >>= f') := by
  by_cases hmark : s.ahead.head? = some mark
  · obtain ⟨tail, hahead⟩ := List.head?_eq_some_iff.mp hmark
    obtain ⟨zs, rfl, -⟩ := (hahead ▸ h.reads).exists_of_mark
    intro r r' hrun _
    rw [outcome_bind_ok (outcome_sign_eq hahead)] at hrun
    cases htrips _ _ zs r rfl hrun
    exact .stained (.inr rfl)
  have hsign : Together S (fun i j _ _ => i = j) s s' (Parser.sign .semicolon)
      (Parser.sign .semicolon) := by
    by_cases hsep : s.ahead.head?.map Lexed.token = some (.sign .semicolon)
    · obtain ⟨⟨_, line⟩, tail, hahead, rfl⟩ := exists_of_head? hsep
      obtain ⟨tail', hahead', htail⟩ :=
        h.next hahead (fun hx => hmark (by rw [hahead, hx]; rfl)) rfl
      exact of_eq (outcome_sign_eq hahead) (outcome_sign_eq hahead') (.ok htail rfl)
    · exact (unexpected h).of_outcome_eq (outcome_sign_ne hsep)
        (outcome_sign_ne (h.head?_eq hmark ▸ hsep))
  refine bind hsign ?_
  rintro i _ t t' ht rfl
  exact hf i t t' ht

theorem peek_bind {f : Option Lexed → Parser α} {f' : Option Lexed → Parser β}
    (h : Together S Q s s' (f s.ahead.head?) (f' s'.ahead.head?)) :
    Together S Q s s' (liftM peek >>= f) (liftM peek >>= f') := h

theorem get_bind {f : State → Parser α} {f' : State → Parser β}
    (h : Together S Q s s' (f s) (f' s')) :
    Together S Q s s' (get >>= f) (get >>= f') := h

section Nodes

variable {line : Nat} {form form' : Form Node}

/-- Making nodes that are the same up to comments. -/
theorem node (h : Abreast S s s')
    (hnode : ∀ id id', Node.Recommented ⟨id, line, form⟩ ⟨id', line, form'⟩) :
    Together S (fun m n t t' => m.Recommented n ∧ t.ahead = s.ahead ∧ t'.ahead = s'.ahead) s s'
      (liftM (Parser.node line form)) (liftM (Parser.node line form')) :=
  of_eq rfl rfl (.ok (h.fresh _ _) ⟨hnode _ _, rfl, rfl⟩)

theorem node_bind {f : Node → Parser α} {f' : Node → Parser β} (h : Abreast S s s')
    (hnode : ∀ id id', Node.Recommented ⟨id, line, form⟩ ⟨id', line, form'⟩)
    (hf : ∀ m n t t', Abreast S t t' → t.ahead = s.ahead → t'.ahead = s'.ahead →
      m.Recommented n → Together S Q t t' (f m) (f' n)) :
    Together S Q s s' (liftM (Parser.node line form) >>= f)
      (liftM (Parser.node line form') >>= f') :=
  hf _ _ _ _ (h.fresh _ _) rfl rfl (hnode _ _)

end Nodes

/-- Seeing a sign, where a mark would be found if there is none. -/
theorem sees_bind {sg : Sign} {f : Bool → Parser α} {f' : Bool → Parser β}
    (hsg : sg ≠ .semicolon) (htrips : Trips (f false)) (h : Abreast S s s')
    (htrue : s.ahead.head?.map Lexed.token = some (.sign sg) →
      Together S Q s s' (f true) (f' true))
    (hfalse : Together S Q s s' (f false) (f' false)) :
    Together S Q s s' (liftM (sees sg) >>= f) (liftM (sees sg) >>= f') := by
  unfold Together
  rw [outcome_sees_bind, outcome_sees_bind]
  by_cases hmark : s.ahead.head? = some mark
  · obtain ⟨tail, hahead⟩ := List.head?_eq_some_iff.mp hmark
    have hne : s.ahead.head?.map Lexed.token ≠ some (.sign sg) := by
      rw [hmark]
      exact fun heq => hsg (Token.sign.inj (Option.some.inj heq)).symm
    rw [decide_eq_false hne]
    exact of_trips htrips hahead
  rw [h.head?_eq hmark]
  by_cases hs : s.ahead.head?.map Lexed.token = some (.sign sg)
  · rw [decide_eq_true hs]
    exact htrue hs
  · rw [decide_eq_false hs]
    exact hfalse

/-- Taking the token that is known to come next, and no mark. -/
theorem word_bind {x : Lexed} {tail : List Lexed} {f : Unit → Parser α} {f' : Unit → Parser β}
    (h : Abreast S s s') (hs : s.ahead = x :: tail) (hx : x ≠ mark)
    (hf : ∀ t t', Aligned S t t' → t.ahead = tail → Together S Q t t' (f ()) (f' ())) :
    Together S Q s s' (liftM advance >>= f) (liftM advance >>= f') := by
  obtain ⟨tail', hs', htail⟩ := h.cons hs hx
  have hleft : ({ s with ahead := s.ahead.tail } : State) = { s with ahead := tail } := by
    rw [hs]
    rfl
  have hright : ({ s' with ahead := s'.ahead.tail } : State) = { s' with ahead := tail' } := by
    rw [hs']
    rfl
  unfold Together
  rw [outcome_advance_bind, outcome_advance_bind, hleft, hright]
  exact hf _ _ htail rfl

/-- Taking the token that is known to come next, and no word of a header. -/
theorem advance_bind {x : Lexed} {tail : List Lexed} {f : Unit → Parser α} {f' : Unit → Parser β}
    (h : Abreast S s s') (hs : s.ahead = x :: tail) (hx : x ≠ mark)
    (hheader : x.token.opensHeader = false)
    (hf : ∀ t t', Abreast S t t' → t.ahead = tail → Together S Q t t' (f ()) (f' ())) :
    Together S Q s s' (liftM advance >>= f) (liftM advance >>= f') := by
  have hclear : S.Clear tail := Screen.clear_of_suffix (hs ▸ h.reads.suffix) hheader
  exact word_bind h hs hx fun t t' ht htail => hf t t' ⟨ht, htail ▸ hclear⟩ htail

/-! ## Parameters -/

theorem typedName (h : Abreast S s s') :
    Together S (fun p q _ _ => p.1.Recommented q.1 ∧ p.2.Recommented q.2) s s' typedName
      typedName := by
  unfold Parser.typedName
  refine bind (name h) ?_
  rintro ⟨x, line⟩ _ t t' ht rfl
  refine bind (sign (by decide) ht) fun _ _ t t' ht _ => bind (typeName ht) ?_
  rintro ⟨ty, tyLine⟩ _ t t' ht rfl
  refine node_bind ht (fun _ _ => .leaf rfl rfl) fun m m' t t' ht _ _ hm => ?_
  refine node_bind ht (fun _ _ => .leaf rfl rfl) fun n n' t t' ht _ _ hn => ?_
  exact pure ht ⟨hm, hn⟩

theorem moreParams {fuel fuel' : Nat} (h : Abreast S s s') :
    Together S (fun ps qs _ _ => List.Forall₂
        (fun p q => p.1.Recommented q.1 ∧ p.2.Recommented q.2) ps qs)
      s s' (moreParams fuel) (moreParams fuel') := by
  induction fuel generalizing fuel' s s' with
  | zero => exact exhausted
  | succ fuel ih =>
    cases fuel' with
    | zero => exact exhausted_right
    | succ fuel' =>
      rw [Parser.moreParams, Parser.moreParams]
      refine sees_bind (by decide) (.bind (.sign (by decide)) _) h (fun hcomma => ?_) ?_
      · obtain ⟨x, tail, hahead, hx⟩ := exists_of_head? hcomma
        refine advance_bind h hahead (by rintro rfl; cases hx) (by rw [hx]; rfl) fun t t' ht _ => ?_
        refine bind (typedName ht) fun p q t t' ht hpq => ?_
        exact bind (ih ht) fun ps qs t t' ht hps => pure ht (.cons hpq hps)
      · exact bind (sign (by decide) h) fun _ _ t t' ht _ => pure ht .nil

theorem paramList {fuel fuel' : Nat} (h : Abreast S s s') :
    Together S (fun p q _ _ => Option.Rel Node.Recommented p q) s s' (paramList fuel)
      (paramList fuel') := by
  unfold Parser.paramList
  refine bind (sign (by decide) h) ?_
  rintro line _ t t' ht rfl
  refine sees_bind (by decide) (.bind .typedName _) ht (fun hclose => ?_) ?_
  · obtain ⟨x, tail, hahead, hx⟩ := exists_of_head? hclose
    exact advance_bind ht hahead (by rintro rfl; cases hx) (by rw [hx]; rfl)
      fun t t' ht _ => pure ht .none
  · refine bind (typedName ht) fun p q t t' ht hpq => ?_
    refine bind (moreParams ht) fun ps qs t t' ht hps => ?_
    refine node_bind ht (fun _ _ => .params rfl rfl rfl (.cons hpq hps)) ?_
    exact fun m n t t' ht _ _ hn => pure ht (.some hn)

end Together

end Parser

end Scriptlet
