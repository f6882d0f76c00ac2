import Mathlib
import Broadphase.Tree.Basic

/-!
Reading the messages of a tree. A message names its numbers in decimal, each after a fixed
text. What follows a number starts with a blank or a bracket, so the number ends there and a
reader gets back the event that was reported.
-/

namespace Broadphase

/-- A number in decimal after a fixed text, and what follows it. -/
def readField (name : String) (text : List Char) : Option (Nat × List Char) :=
  if name.toList.isPrefixOf text then
    let digits := text.drop name.toList.length
    some (Nat.ofDigitChars 10 (digits.takeWhile Char.isDigit) 0, digits.dropWhile Char.isDigit)
  else none

/-- The event that a message about a node tells, by its first words. -/
def readNode (opening : String) (event : Nat → Nat → Nat → TreeEvent) (text : List Char) :
    Option TreeEvent := do
  let (slot, text) ← readField opening text
  let (depth, text) ← readField " at depth " text
  let (block, text) ← readField " (block " text
  if text = [')'] then some (event slot depth block) else none

def readCleared (text : List Char) : Option TreeEvent := do
  let (pooled, text) ← readField "Cleared tree (" text
  if text = " pooled blocks)".toList then some (.cleared pooled) else none

/-- The event that a message is about. -/
def TreeEvent.read? (message : String) : Option TreeEvent :=
  readNode "Subdivided node " .subdivided message.toList <|>
    readNode "Merged node " .merged message.toList <|> readCleared message.toList

theorem readField_append (name : String) (n : Nat) (rest : List Char)
    (hrest : ∀ c ∈ rest.head?, c.isDigit = false) :
    readField name (name.toList ++ (n.repr.toList ++ rest)) = some (n, rest) := by
  have hdigits (c : Char) (hc : c ∈ Nat.toDigits 10 n) : c.isDigit = true :=
    Nat.isDigit_of_mem_toDigits (by decide) (by decide) hc
  have hend : rest.takeWhile Char.isDigit = [] ∧ rest.dropWhile Char.isDigit = rest := by
    cases rest with
    | nil => exact ⟨rfl, rfl⟩
    | cons c rest => simp [hrest c rfl]
  rw [readField, if_pos (List.isPrefixOf_iff_prefix.mpr (List.prefix_append _ _))]
  dsimp only
  rw [List.drop_left, Nat.toList_repr, List.takeWhile_append_of_pos hdigits,
    List.dropWhile_append_of_pos hdigits, hend.1, hend.2, List.append_nil,
    Nat.ofDigitChars_ten_toDigits]

/-- A text with another first letter does not start with the words. -/
theorem readNode_eq_none {opening : String} {text : List Char} {first other : Char}
    (hopening : opening.toList.head? = some first) (htext : text.head? = some other)
    (hne : first ≠ other) (event : Nat → Nat → Nat → TreeEvent) :
    readNode opening event text = none := by
  obtain ⟨rest, hopening⟩ := List.head?_eq_some_iff.mp hopening
  obtain ⟨rest', rfl⟩ := List.head?_eq_some_iff.mp htext
  have hfalse : opening.toList.isPrefixOf (other :: rest') = false := by
    rw [hopening, List.isPrefixOf_cons_cons, beq_eq_false_iff_ne.mpr hne, Bool.false_and]
  rw [readNode, readField, hfalse]
  rfl

/-- The message about a node that starts with the given words. -/
def nodeText (opening : String) (slot depth block : Nat) : List Char :=
  opening.toList ++ (slot.repr.toList ++ (" at depth ".toList ++ (depth.repr.toList ++
    (" (block ".toList ++ (block.repr.toList ++ [')'])))))

theorem readNode_nodeText (opening : String) (event : Nat → Nat → Nat → TreeEvent)
    (slot depth block : Nat) :
    readNode opening event (nodeText opening slot depth block) = some (event slot depth block) := by
  have hslot := readField_append opening slot (" at depth ".toList ++ (depth.repr.toList ++
    (" (block ".toList ++ (block.repr.toList ++ [')'])))) (by simp)
  have hdepth := readField_append " at depth " depth
    (" (block ".toList ++ (block.repr.toList ++ [')'])) (by simp)
  have hblock := readField_append " (block " block [')'] (by simp)
  rw [readNode, nodeText, hslot, Option.bind_eq_bind, Option.bind_some]
  dsimp only
  rw [hdepth, Option.bind_some]
  dsimp only
  rw [hblock, Option.bind_some]
  exact if_pos rfl

theorem readCleared_append (pooled : Nat) :
    readCleared ("Cleared tree (".toList ++ (pooled.repr.toList ++ " pooled blocks)".toList)) =
      some (.cleared pooled) := by
  have hfield := readField_append "Cleared tree (" pooled " pooled blocks)".toList (by simp)
  rw [readCleared, hfield, Option.bind_eq_bind, Option.bind_some]
  exact if_pos rfl

/-- A reader of the journal gets back what was reported. -/
theorem TreeEvent.read?_report (source : String) (event : TreeEvent) :
    TreeEvent.read? (event.report source).message = some event := by
  have hopening : "Subdivided node ".toList.head? = some 'S' := by simp
  cases event with
  | subdivided slot depth block =>
      have htext : ((TreeEvent.subdivided slot depth block).report source).message.toList =
          nodeText "Subdivided node " slot depth block := by
        simp [TreeEvent.report, nodeText, toString]
      rw [read?, htext, readNode_nodeText]
      rfl
  | merged slot depth block =>
      have htext : ((TreeEvent.merged slot depth block).report source).message.toList =
          nodeText "Merged node " slot depth block := by
        simp [TreeEvent.report, nodeText, toString]
      have hhead : ((TreeEvent.merged slot depth block).report source).message.toList.head? =
          some 'M' := by
        simp [htext, nodeText]
      rw [read?, readNode_eq_none hopening hhead (by decide), htext, readNode_nodeText]
      rfl
  | cleared pooled =>
      have htext : ((TreeEvent.cleared pooled).report source).message.toList =
          "Cleared tree (".toList ++ (pooled.repr.toList ++ " pooled blocks)".toList) := by
        simp [TreeEvent.report, toString]
      have hhead : ((TreeEvent.cleared pooled).report source).message.toList.head? =
          some 'C' := by
        simp [htext]
      have hmerged : "Merged node ".toList.head? = some 'M' := by simp
      rw [read?, readNode_eq_none hopening hhead (by decide),
        readNode_eq_none hmerged hhead (by decide), htext, readCleared_append]
      rfl

end Broadphase
