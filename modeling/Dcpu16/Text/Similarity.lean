import Dcpu16.Text

/-!
# Similarity

How similar two texts are, by the characters that they share: the measure of Jaro. A mistyped name is
recognized by it.
-/

namespace Dcpu16

/-- Pairs the characters of a text with equal ones of another, each with the first that is still free and at most
`range` places away: the characters that have a partner, and the places of the partners, both backwards. -/
def partners (range : Nat) (a b : Text) : Text × List Nat :=
  a.zipIdx.foldl (fun (found, taken) (c, i) =>
    let free := fun (d, j) => d = c && i ≤ j + range && j ≤ i + range && !taken.contains j
    match b.zipIdx.find? free with
    | some (_, j) => (c :: found, j :: taken)
    | none => (found, taken)) ([], [])

/-- The similarity of two texts, from zero to one: the mean of the shares of characters with a partner in both, and
of those among them that are in order. Two partners out of order count as one that is not. -/
def similarity (a b : Text) : Float :=
  if a.isEmpty && b.isEmpty then 1
  else
    let (found, taken) := partners (max a.length b.length / 2 - 1) a b
    let inOrder := (b.zipIdx.filter fun (_, j) => taken.contains j).map (·.1)
    let moved := ((found.reverse.zip inOrder).countP fun (c, d) => c ≠ d) / 2
    let share (n d : Nat) : Float := n.toFloat / d.toFloat
    if found.isEmpty then 0
    else
      (share found.length a.length + share found.length b.length +
        share (found.length - moved) found.length) / 3

/-- Whether a text is probably meant to be a name. -/
def resembles (t name : Text) : Bool := 0.7 < similarity t name

end Dcpu16
