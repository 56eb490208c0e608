import Blockscript.Text.Units
import Mathlib.Data.List.Basic

/-!
The units of a text determine the text: the characters can be read back from them.
-/

namespace Blockscript.Text

/-- The code of a character is not that of a surrogate. -/
theorem toNat_cases (c : Char) :
    c.toNat < 0xD800 ∨ 0xDFFF < c.toNat ∧ c.toNat < 0x110000 := by
  have hvalid := c.valid
  simp only [UInt32.isValidChar, Nat.isValidChar] at hvalid
  exact hvalid

theorem toNat_toUInt16 {n : Nat} (hn : n < 0x10000) : n.toUInt16.toNat = n := by
  rw [Nat.toUInt16, UInt16.toNat_ofNat', Nat.mod_eq_of_lt hn]

theorem charsOfUnits?_of_plain {u : UInt16} (hhigh : isHighSurrogate u = false)
    (hlow : isLowSurrogate u = false) (rest : List UInt16) :
    charsOfUnits? (u :: rest) = (charsOfUnits? rest).map (Char.ofNat u.toNat :: ·) := by
  cases rest with
  | nil => simp [charsOfUnits?, hhigh, hlow]
  | cons v rest => simp [charsOfUnits?, hhigh, hlow]

/-- A character is read back from its units. -/
theorem charsOfUnits?_unitsOfChar (c : Char) (rest : List UInt16) :
    charsOfUnits? (unitsOfChar c ++ rest) = (charsOfUnits? rest).map (c :: ·) := by
  have hcases := toNat_cases c
  unfold unitsOfChar
  split
  · rename_i hsmall
    have hcode := toNat_toUInt16 hsmall
    have hhigh : isHighSurrogate c.toNat.toUInt16 = false := by
      simp only [isHighSurrogate, hcode, Bool.and_eq_false_iff, decide_eq_false_iff_not]
      omega
    have hlow : isLowSurrogate c.toNat.toUInt16 = false := by
      simp only [isLowSurrogate, hcode, Bool.and_eq_false_iff, decide_eq_false_iff_not]
      omega
    rw [List.singleton_append, charsOfUnits?_of_plain hhigh hlow, hcode, Char.ofNat_toNat]
  · rename_i hlarge
    have hfirst : (0xD800 + (c.toNat - 0x10000) / 0x400).toUInt16.toNat =
        0xD800 + (c.toNat - 0x10000) / 0x400 := toNat_toUInt16 (by omega)
    have hsecond : (0xDC00 + (c.toNat - 0x10000) % 0x400).toUInt16.toNat =
        0xDC00 + (c.toNat - 0x10000) % 0x400 := toNat_toUInt16 (by omega)
    have hhigh : isHighSurrogate (0xD800 + (c.toNat - 0x10000) / 0x400).toUInt16 = true := by
      simp only [isHighSurrogate, hfirst, Bool.and_eq_true, decide_eq_true_eq]
      omega
    have hlow : isLowSurrogate (0xDC00 + (c.toNat - 0x10000) % 0x400).toUInt16 = true := by
      simp only [isLowSurrogate, hsecond, Bool.and_eq_true, decide_eq_true_eq]
      omega
    have hcode : 0x10000 + (0xD800 + (c.toNat - 0x10000) / 0x400 - 0xD800) * 0x400 +
        (0xDC00 + (c.toNat - 0x10000) % 0x400 - 0xDC00) = c.toNat := by
      omega
    simp only [List.cons_append, List.nil_append, charsOfUnits?, hhigh, hlow, ↓reduceIte,
      hfirst, hsecond, hcode, Char.ofNat_toNat]

/-- A text is read back from its units. -/
theorem charsOfUnits?_units (s : String) : charsOfUnits? (units s) = some s.toList := by
  unfold units
  induction s.toList with
  | nil => rfl
  | cons c rest ih =>
      rw [List.flatMap_cons, charsOfUnits?_unitsOfChar, ih]
      rfl

theorem units_inj {s t : String} : units s = units t ↔ s = t := by
  constructor
  · intro h
    have hchars := congrArg charsOfUnits? h
    rw [charsOfUnits?_units, charsOfUnits?_units, Option.some.injEq] at hchars
    exact String.toList_inj.mp hchars
  · rintro rfl
    rfl

end Blockscript.Text
