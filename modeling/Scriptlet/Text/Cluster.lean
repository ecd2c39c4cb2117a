import Scriptlet.Text.BreakClass

/-!
# Grapheme clusters

What a reader takes for one character may be written by several: a letter with
its accents, a syllable, a flag, a family of pictographs. Such a piece of text
is a cluster. The rules are those of Unicode for extended grapheme clusters.

Whether a character joins the cluster before it depends on its class, on the
class of the character before it and on a little more of what is before, which
`Before` keeps.

Main statement: `flatten_clusters`, the clusters of a text are the text.
-/

namespace Scriptlet.Text

/-- How far a conjunct has come in the text so far. -/
inductive Conjunct where
  /-- there is none -/
  | absent
  /-- a consonant and marks after it -/
  | consonant
  /-- a consonant and marks after it, one of them a linker -/
  | linked
  deriving DecidableEq, Repr

/-- What matters of the text before a character. -/
structure Before where
  /-- the class of the last character -/
  last : BreakClass
  /-- whether it ends in a pictograph and characters that extend it -/
  pictograph : Bool
  /-- whether it ends in such a pictograph and a joiner -/
  joined : Bool
  conjunct : Conjunct
  /-- whether it ends in an odd number of regional indicators -/
  oddRegional : Bool
  deriving DecidableEq, Repr

namespace Before

/-- Before any text. Nothing joins it, as nothing joins a control character. -/
def start : Before := ⟨.control, false, false, .absent, false⟩

/-- The conjunct at the end of a text to which a character is added. -/
def nextConjunct (b : Before) (c : Char) : Conjunct :=
  match breakClass c with
  | .consonant => .consonant
  | .joiner => b.conjunct
  | .extend =>
    if isLinker c then if b.conjunct = .absent then .absent else .linked
    else if c = '\u200c' then .absent
    else b.conjunct
  | _ => .absent

/-- What matters of the text to which a character is added. -/
def add (b : Before) (c : Char) : Before where
  last := breakClass c
  pictograph := breakClass c = .pictograph || (breakClass c = .extend && b.pictograph)
  joined := breakClass c = .joiner && b.pictograph
  conjunct := b.nextConjunct c
  oddRegional := breakClass c = .regional && !b.oddRegional

/-- Whether a character of a class joins the cluster before it. -/
def joins (b : Before) (next : BreakClass) : Bool :=
  match b.last, next with
  | .carriageReturn, .lineFeed => true
  | .control, _ | .carriageReturn, _ | .lineFeed, _ => false
  | _, .control | _, .carriageReturn | _, .lineFeed => false
  | .leading, .leading | .leading, .vowel => true
  | .leading, .openSyllable | .leading, .closedSyllable => true
  | .openSyllable, .vowel | .openSyllable, .trailing => true
  | .vowel, .vowel | .vowel, .trailing => true
  | .closedSyllable, .trailing | .trailing, .trailing => true
  | _, .extend | _, .joiner | _, .spacing => true
  | .prepend, _ => true
  | _, .consonant => b.conjunct = .linked
  | _, .pictograph => b.joined
  | .regional, .regional => b.oddRegional
  | _, _ => false

end Before

/-- The rest of the cluster that a text continues, and the clusters after it. -/
def clustersAfter (b : Before) : List Char → List Char × List (List Char)
  | [] => ([], [])
  | c :: cs =>
    let (rest, more) := clustersAfter (b.add c) cs
    if b.joins (breakClass c) then (c :: rest, more) else ([], (c :: rest) :: more)

/-- The clusters of a text. -/
def clusters (text : List Char) : List (List Char) := (clustersAfter .start text).2

theorem clustersAfter_flatten (b : Before) (text : List Char) :
    (clustersAfter b text).1 ++ (clustersAfter b text).2.flatten = text := by
  induction text generalizing b with
  | nil => rfl
  | cons c cs ih =>
    have := ih (b.add c)
    simp only [clustersAfter]
    split <;> simp [this]

/-- Nothing of a text is lost, and nothing is added. -/
theorem flatten_clusters (text : List Char) : (clusters text).flatten = text := by
  have h := clustersAfter_flatten .start text
  have hnil : (clustersAfter .start text).1 = [] := by
    cases text with
    | nil => rfl
    | cons c cs =>
      have hstart : Before.start.joins (breakClass c) = false := by cases breakClass c <;> rfl
      simp [clustersAfter, hstart]
  rwa [hnil, List.nil_append] at h

end Scriptlet.Text
