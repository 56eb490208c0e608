import Blockscript.Number.Double
import Blockscript.Script.Terminal

/-!
Numerals: what the reader of numbers takes as one, that it takes all of it, and
that a numeral has a value.
-/

namespace Blockscript.Script

/-- A class of characters does not go on at the beginning of a text. -/
def Stops (p : Char → Bool) (rest : List Char) : Prop :=
  ∀ c ∈ rest.head?, p c = false

theorem Stops.nil (p : Char → Bool) : Stops p [] := by
  intro c hc
  simp at hc

theorem Stops.cons {p : Char → Bool} {c : Char} (hc : p c = false) (rest : List Char) :
    Stops p (c :: rest) := by
  intro d hd
  simp only [List.head?_cons, Option.mem_def, Option.some.injEq] at hd
  rw [← hd]
  exact hc

theorem Stops.mono {p q : Char → Bool} (hpq : ∀ c, q c = true → p c = true)
    {rest : List Char} (hstops : Stops p rest) : Stops q rest := by
  intro c hc
  have hp := hstops c hc
  cases hq : q c with
  | false => rfl
  | true => rw [hpq c hq] at hp; contradiction

theorem takeWhile_append_of_stops {p : Char → Bool} {body rest : List Char}
    (hbody : ∀ c ∈ body, p c = true) (hstops : Stops p rest) :
    (body ++ rest).takeWhile p = body := by
  rw [List.takeWhile_append_of_pos hbody]
  cases rest with
  | nil => simp
  | cons c rest => simp [hstops c rfl]

theorem dropWhile_append_of_stops {p : Char → Bool} {body rest : List Char}
    (hbody : ∀ c ∈ body, p c = true) (hstops : Stops p rest) :
    (body ++ rest).dropWhile p = rest := by
  rw [List.dropWhile_append_of_pos hbody]
  cases rest with
  | nil => rfl
  | cons c rest => simp [hstops c rfl]

/-! ### The parts of a numeral -/

def IsDigits (cs : List Char) : Prop :=
  cs ≠ [] ∧ ∀ c ∈ cs, c.isDigit = true

def IsSign (cs : List Char) : Prop :=
  cs = [] ∨ cs = ['+'] ∨ cs = ['-']

/-- An exponent: its letter, an optional sign and digits. -/
inductive IsExponent : List Char → Prop
  | intro {mark : Char} {sign digits : List Char} (hmark : mark = 'e' ∨ mark = 'E')
      (hsign : IsSign sign) (hdigits : IsDigits digits) :
      IsExponent (mark :: sign ++ digits)

/-- Digits with or without a point, at least one of them. -/
inductive IsMantissa : List Char → Prop
  | whole {digits : List Char} (hdigits : IsDigits digits) : IsMantissa digits
  | pointed {digits fraction : List Char} (hdigits : IsDigits digits)
      (hfraction : ∀ c ∈ fraction, c.isDigit = true) :
      IsMantissa (digits ++ '.' :: fraction)
  | fraction {digits : List Char} (hdigits : IsDigits digits) : IsMantissa ('.' :: digits)

/-- A numeral: an optional sign, digits with or without a point, and an
optional exponent. -/
inductive IsNumeral : List Char → Prop
  | intro {sign mantissa exponent : List Char} (hsign : IsSign sign)
      (hmantissa : IsMantissa mantissa) (hexponent : exponent = [] ∨ IsExponent exponent) :
      IsNumeral (sign ++ (mantissa ++ exponent))

/-! ### Reading takes a numeral -/

theorem splitDigits_eq_some {cs digits rest : List Char}
    (h : splitDigits cs = some (digits, rest)) : cs = digits ++ rest ∧ IsDigits digits := by
  rw [splitDigits] at h
  split at h
  · contradiction
  · rename_i hempty
    cases h
    refine ⟨List.takeWhile_append_dropWhile.symm, ?_, ?_⟩
    · intro hnil
      exact hempty (by rw [hnil]; rfl)
    · exact List.all_eq_true.mp List.all_takeWhile

theorem splitSign_append_eq (cs : List Char) :
    cs = (splitSign cs).1 ++ (splitSign cs).2 ∧ IsSign (splitSign cs).1 := by
  unfold splitSign
  split
  · exact ⟨rfl, .inr (.inl rfl)⟩
  · exact ⟨rfl, .inr (.inr rfl)⟩
  · exact ⟨rfl, .inl rfl⟩

theorem splitExponent_eq_some {cs exponent rest : List Char}
    (h : splitExponent cs = some (exponent, rest)) :
    cs = exponent ++ rest ∧ IsExponent exponent := by
  cases cs with
  | nil => contradiction
  | cons c cs =>
      rw [splitExponent] at h
      split at h
      · rename_i hmark
        simp only [Option.map_eq_some_iff] at h
        obtain ⟨⟨digits, after⟩, hdigits, heq⟩ := h
        cases heq
        obtain ⟨hsplit, hsign⟩ := splitSign_append_eq cs
        obtain ⟨hafter, hall⟩ := splitDigits_eq_some hdigits
        refine ⟨?_, .intro hmark hsign hall⟩
        simp only [List.cons_append, List.append_assoc, List.cons.injEq, true_and]
        rw [← hafter]
        exact hsplit
      · contradiction

theorem splitExponentOpt_append_eq (cs : List Char) :
    cs = (splitExponentOpt cs).1 ++ (splitExponentOpt cs).2 ∧
      ((splitExponentOpt cs).1 = [] ∨ IsExponent (splitExponentOpt cs).1) := by
  rw [splitExponentOpt]
  cases h : splitExponent cs with
  | none => exact ⟨rfl, .inl rfl⟩
  | some parts =>
      obtain ⟨hsplit, hexponent⟩ := splitExponent_eq_some h
      exact ⟨hsplit, .inr hexponent⟩

theorem splitUnsigned_eq_some {cs unsigned rest : List Char}
    (h : splitUnsigned cs = some (unsigned, rest)) :
    cs = unsigned ++ rest ∧ ∃ mantissa exponent, unsigned = mantissa ++ exponent ∧
      IsMantissa mantissa ∧ (exponent = [] ∨ IsExponent exponent) := by
  unfold splitUnsigned at h
  split at h
  · rename_i whole after hwhole
    obtain ⟨rfl, hdigits⟩ := splitDigits_eq_some hwhole
    have hexponent := splitExponentOpt_append_eq (after.dropWhile Char.isDigit)
    generalize splitExponentOpt (after.dropWhile Char.isDigit) = parts at h hexponent
    obtain ⟨exponent, last⟩ := parts
    obtain ⟨hsplit, hexponent⟩ := hexponent
    cases h
    refine ⟨?_, _, _, rfl, .pointed hdigits (List.all_eq_true.mp List.all_takeWhile),
      hexponent⟩
    simp only [List.append_assoc, List.cons_append]
    rw [← hsplit, List.takeWhile_append_dropWhile]
  · rename_i whole after _ hwhole
    obtain ⟨rfl, hdigits⟩ := splitDigits_eq_some hwhole
    have hexponent := splitExponentOpt_append_eq after
    generalize splitExponentOpt after = parts at h hexponent
    obtain ⟨exponent, last⟩ := parts
    obtain ⟨hsplit, hexponent⟩ := hexponent
    cases h
    refine ⟨?_, _, _, rfl, .whole hdigits, hexponent⟩
    rw [List.append_assoc, ← hsplit]
  · split at h
    · rename_i after _
      simp only [Option.map_eq_some_iff] at h
      obtain ⟨⟨digits, last⟩, hdigits, heq⟩ := h
      obtain ⟨rfl, hall⟩ := splitDigits_eq_some hdigits
      have hexponent := splitExponentOpt_append_eq last
      generalize splitExponentOpt last = parts at heq hexponent
      obtain ⟨exponent, last⟩ := parts
      obtain ⟨hsplit, hexponent⟩ := hexponent
      cases heq
      refine ⟨?_, _, _, rfl, .fraction hall, hexponent⟩
      simp only [List.cons_append, List.append_assoc]
      rw [← hsplit]
    · contradiction

/-- What is read as a number is a numeral at the beginning of the text. -/
theorem splitNumber_eq_some {cs numeral rest : List Char}
    (h : splitNumber cs = some (numeral, rest)) :
    cs = numeral ++ rest ∧ IsNumeral numeral := by
  simp only [splitNumber, Option.map_eq_some_iff] at h
  obtain ⟨⟨unsigned, after⟩, hunsigned, heq⟩ := h
  cases heq
  obtain ⟨hsplit, hsign⟩ := splitSign_append_eq cs
  obtain ⟨hafter, mantissa, exponent, rfl, hmantissa, hexponent⟩ :=
    splitUnsigned_eq_some hunsigned
  refine ⟨?_, .intro hsign hmantissa hexponent⟩
  rw [List.append_assoc, ← hafter]
  exact hsplit

/-! ### A numeral is read whole -/

/-- A character with which a numeral could go on. -/
def isNumeralChar (c : Char) : Bool :=
  c.isDigit || c == '.' || c == 'e' || c == 'E'

theorem splitDigits_append {digits rest : List Char} (hdigits : IsDigits digits)
    (hstops : Stops Char.isDigit rest) : splitDigits (digits ++ rest) = some (digits, rest) := by
  rw [splitDigits, takeWhile_append_of_stops hdigits.2 hstops,
    dropWhile_append_of_stops hdigits.2 hstops, if_neg]
  simpa using hdigits.1

theorem splitDigits_eq_none {cs : List Char} (hstops : Stops Char.isDigit cs) :
    splitDigits cs = none := by
  cases cs with
  | nil => rfl
  | cons c cs => simp [splitDigits, hstops c rfl]

theorem splitSign_append {sign rest : List Char} (hsign : IsSign sign)
    (hstops : Stops (fun c => c == '+' || c == '-') rest) :
    splitSign (sign ++ rest) = (sign, rest) := by
  rcases hsign with rfl | rfl | rfl
  · cases rest with
    | nil => rfl
    | cons c rest =>
        have hc := hstops c rfl
        simp only [Bool.or_eq_false_iff, beq_eq_false_iff_ne, ne_eq] at hc
        simp [splitSign, hc.1, hc.2]
  · rfl
  · rfl

theorem IsDigits.stops_sign {digits : List Char} (hdigits : IsDigits digits)
    (rest : List Char) : Stops (fun c => c == '+' || c == '-') (digits ++ rest) := by
  cases digits with
  | nil => exact absurd rfl hdigits.1
  | cons c digits =>
      apply Stops.cons
      have hc := hdigits.2 c List.mem_cons_self
      simp only [Bool.or_eq_false_iff, beq_eq_false_iff_ne, ne_eq]
      constructor
      · rintro rfl
        contradiction
      · rintro rfl
        contradiction

theorem splitExponent_append {exponent rest : List Char} (hexponent : IsExponent exponent)
    (hstops : Stops Char.isDigit rest) :
    splitExponent (exponent ++ rest) = some (exponent, rest) := by
  cases hexponent with
  | @intro mark sign digits hmark hsign hdigits =>
      simp only [List.cons_append, List.append_assoc, splitExponent, hmark, ↓reduceIte,
        splitSign_append hsign (hdigits.stops_sign rest),
        splitDigits_append hdigits hstops, Option.map_some]

theorem splitExponentOpt_append {exponent rest : List Char}
    (hexponent : exponent = [] ∨ IsExponent exponent) (hstops : Stops isNumeralChar rest) :
    splitExponentOpt (exponent ++ rest) = (exponent, rest) := by
  rcases hexponent with rfl | hexponent
  · cases rest with
    | nil => rfl
    | cons c rest =>
        have hc := hstops c rfl
        simp only [isNumeralChar, Bool.or_eq_false_iff, beq_eq_false_iff_ne, ne_eq] at hc
        simp [splitExponentOpt, splitExponent, hc]
  · have hdigit : Stops Char.isDigit rest :=
      hstops.mono fun c hc => by simp [isNumeralChar, hc]
    rw [splitExponentOpt, splitExponent_append hexponent hdigit]
    rfl

/-- Behind the mantissa of a numeral stand its exponent and the rest of the
text, neither of which goes on with a digit or a point. -/
theorem stops_exponent {exponent rest : List Char}
    (hexponent : exponent = [] ∨ IsExponent exponent) (hstops : Stops isNumeralChar rest) :
    Stops (fun c => c.isDigit || c == '.') (exponent ++ rest) := by
  rcases hexponent with rfl | ⟨hmark, -, -⟩
  · apply hstops.mono
    intro c hc
    rcases Bool.or_eq_true_iff.mp hc with hdigit | hpoint
    · simp [isNumeralChar, hdigit]
    · simp [isNumeralChar, hpoint]
  · apply Stops.cons
    rcases hmark with rfl | rfl <;> rfl

theorem splitUnsigned_append {mantissa exponent rest : List Char}
    (hmantissa : IsMantissa mantissa) (hexponent : exponent = [] ∨ IsExponent exponent)
    (hstops : Stops isNumeralChar rest) :
    splitUnsigned (mantissa ++ (exponent ++ rest)) = some (mantissa ++ exponent, rest) := by
  have hafter := stops_exponent hexponent hstops
  have hdigit : Stops Char.isDigit (exponent ++ rest) :=
    hafter.mono fun c hc => by simp [hc]
  cases hmantissa with
  | whole hdigits =>
      unfold splitUnsigned
      rw [splitDigits_append hdigits hdigit]
      split
      · rename_i heq
        simp only [Option.some.injEq, Prod.mk.injEq] at heq
        have hpoint := hafter '.' (by rw [heq.2]; rfl)
        contradiction
      · rename_i heq
        cases heq
        rw [splitExponentOpt_append hexponent hstops]
      · contradiction
  | @pointed digits fraction hdigits hfraction =>
      have hpoint : Stops Char.isDigit ('.' :: (fraction ++ (exponent ++ rest))) :=
        Stops.cons (by decide) _
      simp only [List.append_assoc, List.cons_append, splitUnsigned,
        splitDigits_append hdigits hpoint, takeWhile_append_of_stops hfraction hdigit,
        dropWhile_append_of_stops hfraction hdigit,
        splitExponentOpt_append hexponent hstops]
  | @fraction digits hdigits =>
      have hpoint : Stops Char.isDigit ('.' :: (digits ++ (exponent ++ rest))) :=
        Stops.cons (by decide) _
      simp only [List.cons_append, splitUnsigned, splitDigits_eq_none hpoint,
        splitDigits_append hdigits hdigit, splitExponentOpt_append hexponent hstops,
        Option.map_some]

/-- The first character of a mantissa is no sign. -/
theorem IsMantissa.stops_sign {mantissa : List Char} (hmantissa : IsMantissa mantissa)
    (rest : List Char) : Stops (fun c => c == '+' || c == '-') (mantissa ++ rest) := by
  cases hmantissa with
  | whole hdigits => exact hdigits.stops_sign rest
  | pointed hdigits hfraction =>
      rw [List.append_assoc]
      exact hdigits.stops_sign _
  | fraction hdigits => exact Stops.cons rfl _

/-- A numeral is read whole when the text behind it cannot go on with it. -/
theorem splitNumber_append {numeral rest : List Char} (hnumeral : IsNumeral numeral)
    (hstops : Stops isNumeralChar rest) :
    splitNumber (numeral ++ rest) = some (numeral, rest) := by
  cases hnumeral with
  | intro hsign hmantissa hexponent =>
      simp only [List.append_assoc, splitNumber,
        splitSign_append hsign (hmantissa.stops_sign _),
        splitUnsigned_append hmantissa hexponent hstops, Option.map_some]

/-- The characters of a numeral. -/
theorem IsNumeral.all {numeral : List Char} (hnumeral : IsNumeral numeral) :
    ∀ c ∈ numeral, c.isDigit = true ∨ c ∈ ['+', '-', '.', 'e', 'E'] := by
  have hsigns : ∀ sign, IsSign sign → ∀ c ∈ sign, c ∈ ['+', '-', '.', 'e', 'E'] := by
    rintro sign (rfl | rfl | rfl) <;> simp
  obtain @⟨sign, mantissa, exponent, hsign, hmantissa, hexponent⟩ := hnumeral
  intro c hc
  rcases List.mem_append.mp hc with hc | hc
  · exact .inr (hsigns sign hsign c hc)
  · rcases List.mem_append.mp hc with hc | hc
    · cases hmantissa with
      | whole hdigits => exact .inl (hdigits.2 c hc)
      | pointed hdigits hfraction =>
          rcases List.mem_append.mp hc with hc | hc
          · exact .inl (hdigits.2 c hc)
          · rcases List.mem_cons.mp hc with rfl | hc
            · exact .inr (by decide)
            · exact .inl (hfraction c hc)
      | fraction hdigits =>
          rcases List.mem_cons.mp hc with rfl | hc
          · exact .inr (by decide)
          · exact .inl (hdigits.2 c hc)
    · rcases hexponent with rfl | hexponent
      · contradiction
      · cases hexponent with
        | intro hmark hsign hdigits =>
            rcases List.mem_append.mp hc with hc | hc
            · rcases List.mem_cons.mp hc with rfl | hc
              · rcases hmark with rfl | rfl <;> exact .inr (by decide)
              · exact .inr (hsigns _ hsign c hc)
            · exact .inl (hdigits.2 c hc)

/-- Where a digit stands, a number is read. -/
theorem splitNumber_ne_none {c : Char} (hc : c.isDigit = true) (cs : List Char) :
    splitNumber (c :: cs) ≠ none := by
  have hdigit : IsDigits [c] := ⟨by simp, by simpa using hc⟩
  have hsign : splitSign (c :: cs) = ([], c :: cs) :=
    splitSign_append (.inl rfl) (hdigit.stops_sign cs)
  have hdigits : splitDigits (c :: cs) ≠ none := by
    simp [splitDigits, hc]
  simp only [splitNumber, hsign, splitUnsigned]
  split
  · exact Option.some_ne_none _
  · exact Option.some_ne_none _
  · contradiction

/-- A numeral begins with a sign, a digit or a point. -/
theorem IsNumeral.head {numeral : List Char} (hnumeral : IsNumeral numeral) :
    ∃ c rest, numeral = c :: rest ∧ (c.isDigit = true ∨ c ∈ ['+', '-', '.']) := by
  obtain @⟨sign, mantissa, exponent, hsign, hmantissa, -⟩ := hnumeral
  rcases hsign with rfl | rfl | rfl
  · cases hmantissa with
    | @whole digits hdigits =>
        obtain ⟨c, rest, rfl⟩ := List.exists_cons_of_ne_nil hdigits.1
        exact ⟨c, _, rfl, .inl (hdigits.2 c List.mem_cons_self)⟩
    | @pointed digits fraction hdigits hfraction =>
        obtain ⟨c, rest, rfl⟩ := List.exists_cons_of_ne_nil hdigits.1
        exact ⟨c, _, rfl, .inl (hdigits.2 c List.mem_cons_self)⟩
    | fraction hdigits => exact ⟨'.', _, rfl, .inr (by simp)⟩
  · exact ⟨'+', _, rfl, .inr (by simp)⟩
  · exact ⟨'-', _, rfl, .inr (by simp)⟩

/-! ### Every numeral has a value -/

theorem readSign_append {sign rest : List Char} (hsign : IsSign sign)
    (hstops : Stops (fun c => c == '+' || c == '-') rest) :
    ∃ negative, Decimal.readSign (sign ++ rest) = (negative, rest) := by
  rcases hsign with rfl | rfl | rfl
  · refine ⟨false, ?_⟩
    cases rest with
    | nil => rfl
    | cons c rest =>
        have hc := hstops c rfl
        simp only [Bool.or_eq_false_iff, beq_eq_false_iff_ne] at hc
        simp [Decimal.readSign, hc]
  · exact ⟨false, rfl⟩
  · exact ⟨true, rfl⟩

theorem readExponent?_eq_some {exponent : List Char}
    (hexponent : exponent = [] ∨ IsExponent exponent) :
    ∃ size, Decimal.readExponent? exponent = some size := by
  rcases hexponent with rfl | hexponent
  · exact ⟨0, rfl⟩
  · obtain @⟨mark, sign, digits, hmark, hsign, hdigits⟩ := hexponent
    have hstops := hdigits.stops_sign []
    rw [List.append_nil] at hstops
    obtain ⟨negative, hread⟩ := readSign_append hsign hstops
    have hall : digits.all Char.isDigit = true := List.all_eq_true.mpr hdigits.2
    simp [Decimal.readExponent?, hmark, hread, hdigits.1, hall]

/-- A numeral without its sign has digits and an exponent. -/
theorem decimal_read?_eq_some {cs mantissa exponent : List Char}
    (hmantissa : IsMantissa mantissa) (hexponent : exponent = [] ∨ IsExponent exponent)
    {negative : Bool} (hsign : Decimal.readSign cs = (negative, mantissa ++ exponent)) :
    ∃ decimal, Decimal.read? cs = some decimal := by
  obtain ⟨size, hsize⟩ := readExponent?_eq_some hexponent
  have hafter := stops_exponent hexponent (Stops.nil isNumeralChar)
  rw [List.append_nil] at hafter
  have hdigit : Stops Char.isDigit exponent := hafter.mono fun c hc => by simp [hc]
  have hpoint : ∀ rest, exponent ≠ '.' :: rest := by
    rintro rest rfl
    have hc := hafter '.' rfl
    contradiction
  simp only [Decimal.read?, hsign]
  cases hmantissa with
  | @whole digits hdigits =>
      simp only [takeWhile_append_of_stops hdigits.2 hdigit,
        dropWhile_append_of_stops hdigits.2 hdigit, hsize]
      simp [hdigits.1]
  | @pointed digits fraction hdigits hfraction =>
      have hstops : Stops Char.isDigit ('.' :: (fraction ++ exponent)) :=
        Stops.cons (by decide) _
      simp only [List.append_assoc, List.cons_append,
        takeWhile_append_of_stops hdigits.2 hstops,
        dropWhile_append_of_stops hdigits.2 hstops,
        takeWhile_append_of_stops hfraction hdigit,
        dropWhile_append_of_stops hfraction hdigit, hsize]
      simp [hdigits.1]
  | @fraction digits hdigits =>
      have hnone : Char.isDigit '.' = false := by decide
      simp only [List.cons_append, List.takeWhile_cons, List.dropWhile_cons, hnone,
        Bool.false_eq_true, ↓reduceIte, takeWhile_append_of_stops hdigits.2 hdigit,
        dropWhile_append_of_stops hdigits.2 hdigit, hsize]
      simp [hdigits.1]

/-- A numeral is the text of a number. -/
theorem IsNumeral.read?_eq_some {text : String} (hnumeral : IsNumeral text.toList) :
    ∃ x, Double.read? text = some x := by
  have hdecimal : ∃ decimal, Decimal.read? text.toList = some decimal := by
    generalize text.toList = cs at hnumeral
    obtain @⟨sign, mantissa, exponent, hsign, hmantissa, hexponent⟩ := hnumeral
    obtain ⟨negative, hread⟩ := readSign_append hsign (hmantissa.stops_sign exponent)
    exact decimal_read?_eq_some hmantissa hexponent hread
  obtain ⟨decimal, hdecimal⟩ := hdecimal
  unfold Double.read?
  split
  · exact ⟨_, rfl⟩
  · exact ⟨_, rfl⟩
  · exact ⟨_, rfl⟩
  · exact ⟨_, by rw [hdecimal]; rfl⟩

end Blockscript.Script
