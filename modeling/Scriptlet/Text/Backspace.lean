import Scriptlet.Text.Cluster

/-!
# Lines with backspaces

A backspace in a line of input takes back what was typed before it: not a
character, but a whole cluster, since that is what a reader sees as one. How
much there is to take back is noted in bytes, and the note has room for one
byte only, so that of a cluster of 256 bytes or more just the remainder goes.

Main statement: `takeBack_of_not_mem`, a line without backspaces stays as it is.
-/

namespace Scriptlet.Text

/-- The character that takes back what is before it. -/
def backspace : Char := '\x08'

/-- The number of bytes of a text in UTF-8. -/
def byteSize (text : List Char) : Nat := text.foldl (fun n c => n + c.utf8Size) 0

/-- A text without its first bytes. -/
def dropBytes : Nat → List Char → List Char
  | _, [] => []
  | 0, text => text
  | n, c :: cs => dropBytes (n - c.utf8Size) cs

/-- A line as far as it has been typed. -/
structure Typed where
  /-- the text, the last character first -/
  reversed : List Char
  /-- how many bytes each backspace takes back, the next one first -/
  sizes : List Nat

namespace Typed

/-- Takes in a cluster. -/
def add (t : Typed) (cluster : List Char) : Typed :=
  if cluster = [backspace] then
    match t.sizes with
    | [] => t
    | n :: sizes => ⟨dropBytes n t.reversed, sizes⟩
  else ⟨cluster.reverse ++ t.reversed, byteSize cluster % 256 :: t.sizes⟩

/-- Takes in clusters from left to right. -/
def addAll (t : Typed) (clusters : List (List Char)) : Typed := clusters.foldl add t

theorem reversed_addAll (t : Typed) (clusters : List (List Char))
    (h : ∀ cluster ∈ clusters, cluster ≠ [backspace]) :
    (t.addAll clusters).reversed = clusters.flatten.reverse ++ t.reversed := by
  induction clusters generalizing t with
  | nil => rfl
  | cons cluster clusters ih =>
    have hne : cluster ≠ [backspace] := h cluster (by simp)
    have hadd : (t.add cluster).reversed = cluster.reverse ++ t.reversed := by simp [add, hne]
    have hrest := ih (t.add cluster) fun d hd => h d (by simp [hd])
    rw [addAll, List.foldl_cons, ← addAll, hrest, hadd]
    simp

end Typed

/-- What a line of input comes to when backspaces take back what is before
    them. -/
def takeBack (line : List Char) : List Char :=
  (Typed.addAll ⟨[], []⟩ (clusters line)).reversed.reverse

theorem takeBack_of_not_mem {line : List Char} (h : backspace ∉ line) : takeBack line = line := by
  have hne : ∀ cluster ∈ clusters line, cluster ≠ [backspace] := by
    intro cluster hc heq
    apply h
    rw [← flatten_clusters line]
    exact List.mem_flatten.2 ⟨cluster, hc, by simp [heq]⟩
  rw [takeBack, Typed.reversed_addAll _ _ hne, flatten_clusters]
  simp

end Scriptlet.Text
