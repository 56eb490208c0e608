import Blockscript.Text.Excerpt
import Blockscript.Text.Place
import Mathlib.Data.List.Induction

/-!
Places behind a text: how many lines it has, and how long the last of them is.  A
character of a text stands in the line and the column of its place.
-/

namespace Blockscript

namespace Place

theorem after_append (place : Place) (first rest : List Char) :
    place.after (first ++ rest) = (place.after first).after rest :=
  List.foldl_append

theorem offset_after (place : Place) (text : List Char) :
    (place.after text).offset = place.offset + text.length := by
  induction text generalizing place with
  | nil => rfl
  | cons c text ih =>
      have hnext : (place.next c).offset = place.offset + 1 := by
        unfold next
        split <;> rfl
      change ((place.next c).after text).offset = _
      rw [ih, hnext, List.length_cons]
      omega

/-- A place with other text before it: so many characters, which end so many
lines. -/
def lowered (place : Place) (characters lines : Nat) : Place :=
  ⟨place.offset + characters, place.line + lines, place.column⟩

theorem next_lowered (place : Place) (characters lines : Nat) (c : Char) :
    (place.lowered characters lines).next c = (place.next c).lowered characters lines := by
  unfold next lowered
  split
  · simp only [Place.mk.injEq, and_true]
    omega
  · simp only [Place.mk.injEq, and_true]
    omega

theorem after_lowered (place : Place) (characters lines : Nat) (text : List Char) :
    (place.lowered characters lines).after text =
      (place.after text).lowered characters lines := by
  induction text generalizing place with
  | nil => rfl
  | cons c text ih =>
      change ((place.lowered characters lines).next c).after text = _
      rw [next_lowered, ih]
      rfl

end Place

theorem Text.lastLine_concat (text : List Char) (c : Char) :
    Text.lastLine (text ++ [c]) = if c = '\n' then [] else Text.lastLine text ++ [c] := by
  by_cases hc : c = '\n'
  · simp [Text.lastLine, hc]
  · simp [Text.lastLine, hc]

/-- The place behind a text, told by its length, its line feeds and its last
line. -/
theorem Place.after_eq (text : List Char) :
    ({} : Place).after text =
      ⟨text.length, text.count '\n' + 1, (Text.lastLine text).length + 1⟩ := by
  induction text using List.reverseRecOn with
  | nil => rfl
  | append_singleton text c ih =>
      rw [after_append, ih, Text.lastLine_concat]
      change Place.next _ c = _
      unfold next
      by_cases hc : c = '\n'
      · simp [hc]
      · simp [hc]

/-- Behind a line feed the columns begin anew. -/
theorem Place.after_lineFeed (text : List Char) :
    ({} : Place).after (text ++ ['\n']) =
      ({} : Place).lowered (text.length + 1) (text.count '\n' + 1) := by
  rw [Place.after_eq, Text.lastLine_concat, Place.lowered]
  simp [Nat.add_comm]

/-! ### Lines and columns -/

namespace Text

/-- The offset of the last line feed of a text, one below zero if there is none. -/
def lastLineFeed : List Char → Int
  | [] => -1
  | c :: rest =>
      if '\n' ∈ rest then lastLineFeed rest + 1 else if c = '\n' then 0 else -1

/-- The character in a line and a column of a text, both counted from one. -/
def characterAt? (text : List Char) (line column : Nat) : Option Char :=
  (text.splitOn '\n')[line - 1]?.bind fun characters => characters[column - 1]?

theorem lastLine_cons (c : Char) (text : List Char) :
    lastLine (c :: text) =
      if c = '\n' ∨ '\n' ∈ text then lastLine text else c :: lastLine text := by
  induction text using List.reverseRecOn with
  | nil =>
      by_cases hc : c = '\n'
      · simp [lastLine, hc]
      · simp [lastLine, hc]
  | append_singleton text d ih =>
      rw [← List.cons_append, lastLine_concat, lastLine_concat, ih]
      by_cases hd : d = '\n'
      · simp [hd]
      · by_cases hfeed : c = '\n' ∨ '\n' ∈ text
        · simp [hd, Ne.symm hd, hfeed]
        · simp [hd, Ne.symm hd, hfeed]

theorem lastLine_eq_self {text : List Char} (htext : '\n' ∉ text) : lastLine text = text := by
  induction text with
  | nil => rfl
  | cons c text ih =>
      simp only [List.mem_cons, not_or] at htext
      rw [lastLine_cons, if_neg (by simp [htext.2, Ne.symm htext.1]), ih htext.2]

/-- The last line begins behind the last line feed. -/
theorem length_lastLine (text : List Char) :
    ((lastLine text).length : Int) = text.length - lastLineFeed text - 1 := by
  induction text with
  | nil => rfl
  | cons c text ih =>
      rw [lastLine_cons, lastLineFeed]
      by_cases hfeed : '\n' ∈ text
      · simp only [hfeed, or_true, ↓reduceIte, ih, List.length_cons]
        omega
      · rw [lastLine_eq_self hfeed]
        by_cases hc : c = '\n'
        · simp [hfeed, hc]
        · simp [hfeed, hc]

/-- A character behind a text stands in the last line of the text. -/
theorem characterAt?_append {c : Char} (hc : c ≠ '\n') (before after : List Char) :
    characterAt? (before ++ c :: after) (before.count '\n' + 1) ((lastLine before).length + 1) =
      some c := by
  unfold characterAt?
  rw [List.splitOn_eq_splitOnP, Nat.add_sub_cancel, Nat.add_sub_cancel]
  induction before with
  | nil =>
      obtain ⟨line, lines, hlines⟩ := List.exists_cons_of_ne_nil
        (List.splitOn_ne_nil '\n' after)
      rw [List.splitOn_eq_splitOnP] at hlines
      simp [List.splitOnP_cons_eq_if_modifyHead, hc, hlines, lastLine]
  | cons d before ih =>
      rw [List.cons_append, List.splitOnP_cons_eq_if_modifyHead, lastLine_cons]
      by_cases hd : d = '\n'
      · simpa [hd] using ih
      · by_cases hfeed : '\n' ∈ before
        · have hlater : before.count '\n' ≠ 0 := by simp [List.count_eq_zero, hfeed]
          simpa [hd, hfeed, hlater, List.getElem?_modifyHead] using ih
        · have hfirst : before.count '\n' = 0 := List.count_eq_zero.mpr hfeed
          rw [hfirst] at ih
          obtain ⟨line, hline, hchar⟩ := Option.bind_eq_some_iff.mp ih
          simp [hd, hfeed, hfirst, List.getElem?_modifyHead, hline, hchar]

end Text

end Blockscript
