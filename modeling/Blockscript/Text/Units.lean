/-!
Texts as sequences of 16-bit units.  A character beyond the first 65536 is a pair of surrogate units;
a sequence may also hold surrogates that pair with nothing.
-/

namespace Blockscript.Text

def unitsOfChar (c : Char) : List UInt16 :=
  if c.toNat < 0x10000 then [c.toNat.toUInt16]
  else
    let offset := c.toNat - 0x10000
    [(0xD800 + offset / 0x400).toUInt16, (0xDC00 + offset % 0x400).toUInt16]

def units (s : String) : List UInt16 :=
  s.toList.flatMap unitsOfChar

/-- Whether a unit is the first of a surrogate pair. -/
def isHighSurrogate (u : UInt16) : Bool :=
  0xD800 ≤ u.toNat && u.toNat < 0xDC00

/-- Whether a unit is the second of a surrogate pair. -/
def isLowSurrogate (u : UInt16) : Bool :=
  0xDC00 ≤ u.toNat && u.toNat < 0xE000

/-- The characters of a sequence of units, unless a surrogate stands alone. -/
def charsOfUnits? : List UInt16 → Option (List Char)
  | [] => some []
  | [u] => if isHighSurrogate u || isLowSurrogate u then none else some [Char.ofNat u.toNat]
  | u :: v :: rest =>
      if isHighSurrogate u then
        if isLowSurrogate v then
          let code := 0x10000 + (u.toNat - 0xD800) * 0x400 + (v.toNat - 0xDC00)
          (charsOfUnits? rest).map (Char.ofNat code :: ·)
        else none
      else if isLowSurrogate u then none
      else (charsOfUnits? (v :: rest)).map (Char.ofNat u.toNat :: ·)

end Blockscript.Text
