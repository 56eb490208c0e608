import Blockscript.Json.Reader
import Blockscript.Json.Writer
import Blockscript.Proofs.Text.Units
import Mathlib.Data.Bool.AllAny
import Mathlib.Data.List.Forall2

/-!
What the text of a JSON value tells.  A value is delimited by its own text, so the
text of an array tells those of its items, the text of an object those of its fields,
and the text of a text its units; numbers and words are known as they are printed.
-/

namespace Blockscript.Json

/-! ### Texts are read back -/

theorem hexValue?_digitChar : ∀ d < 16, hexValue? (Nat.digitChar d) = some d := by
  decide

/-- The last of several hexadecimal digits. -/
theorem hex_succ (width n : Nat) :
    Text.hex (width + 2) n = Text.hex (width + 1) (n / 16) ++ [Nat.digitChar (n % 16)] := by
  unfold Text.hex
  by_cases hn : n < 16
  · rw [Nat.toDigits_of_lt_base hn, Nat.div_eq_of_lt hn, Nat.mod_eq_of_lt hn]
    simp [List.replicate_succ', Nat.toDigits_zero]
  · rw [Nat.toDigits_of_base_le (by decide) (Nat.le_of_not_lt hn)]
    simp

/-- A number below 65536 has four hexadecimal digits. -/
theorem hex_four {n : Nat} (hn : n < 0x10000) :
    Text.hex 4 n = [Nat.digitChar (n / 4096), Nat.digitChar (n / 256 % 16),
      Nat.digitChar (n / 16 % 16), Nat.digitChar (n % 16)] := by
  have hfirst : Text.hex 1 (n / 4096) = [Nat.digitChar (n / 4096)] := by
    have hdigit : n / 4096 < 16 := by omega
    simp [Text.hex, Nat.toDigits_of_lt_base hdigit]
  rw [hex_succ, hex_succ, hex_succ]
  simp only [Nat.div_div_eq_div_mul, Nat.reduceMul, hfirst, List.cons_append, List.nil_append]

theorem hexUnit?_of_toNat (u : UInt16) :
    hexUnit? (Nat.digitChar (u.toNat / 4096)) (Nat.digitChar (u.toNat / 256 % 16))
      (Nat.digitChar (u.toNat / 16 % 16)) (Nat.digitChar (u.toNat % 16)) = some u := by
  have hbound : u.toNat < 0x10000 := u.toNat_lt
  have hcode : ((u.toNat / 4096 * 16 + u.toNat / 256 % 16) * 16 + u.toNat / 16 % 16) * 16 +
      u.toNat % 16 = u.toNat := by
    omega
  simp only [hexUnit?, hexValue?_digitChar (u.toNat / 4096) (by omega),
    hexValue?_digitChar (u.toNat / 256 % 16) (by omega),
    hexValue?_digitChar (u.toNat / 16 % 16) (by omega),
    hexValue?_digitChar (u.toNat % 16) (by omega), Option.bind_eq_bind, Option.bind_some,
    Option.pure_def, hcode]
  simp

theorem readText?_shortEscape {c : Char} {u : UInt16} (hc : shortEscape? c = some u)
    (rest : List Char) :
    readText? ('\\' :: c :: rest) =
      (readText? rest).map fun parts => (u :: parts.1, parts.2) := by
  have hother : c ≠ 'u' := by
    rintro rfl
    contradiction
  rw [readText?.eq_3 c rest fun _ _ _ _ _ h _ => hother h, hc]
  cases readText? rest <;> rfl

theorem readText?_hex (u : UInt16) (rest : List Char) :
    readText? ('\\' :: 'u' :: Text.hex 4 u.toNat ++ rest) =
      (readText? rest).map fun parts => (u :: parts.1, parts.2) := by
  rw [hex_four u.toNat_lt]
  simp only [List.cons_append, List.nil_append, readText?, hexUnit?_of_toNat]
  cases readText? rest <;> rfl

/-- The printable characters that stand for themselves. -/
theorem readText?_plain {u : UInt16} (hlow : 0x20 ≤ u.toNat) (hhigh : u.toNat < 0x7F)
    (hquote : u.toNat ≠ 0x22) (hslash : u.toNat ≠ 0x5C) (rest : List Char) :
    readText? (Char.ofNat u.toNat :: rest) =
      (readText? rest).map fun parts => (u :: parts.1, parts.2) := by
  have hall : ∀ n < 0x7F, 0x20 ≤ n ∧ n ≠ 0x22 ∧ n ≠ 0x5C → Char.ofNat n ≠ '"' ∧
      Char.ofNat n ≠ '\\' ∧ ¬ (Char.ofNat n).toNat < 0x20 ∧
      Text.unitsOfChar (Char.ofNat n) = [n.toUInt16] := by decide +kernel
  obtain ⟨hc, hbackslash, hcontrol, hunits⟩ := hall _ hhigh ⟨hlow, hquote, hslash⟩
  rw [readText?.eq_4 _ rest hc (fun _ _ _ _ _ h _ => hbackslash h)
    (fun _ _ h _ => hbackslash h), if_neg (by simp [hcontrol, hbackslash]), hunits]
  have hsame : u.toNat.toUInt16 = u := by simp
  rw [hsame]
  cases readText? rest <;> rfl

/-- What is read where a unit has been written. -/
theorem readText?_writeUnit (u : UInt16) (rest : List Char) :
    readText? (writeUnit u ++ rest) =
      (readText? rest).map fun parts => (u :: parts.1, parts.2) := by
  have hunit : ∀ {v : UInt16}, u.toNat = v.toNat → u = v := UInt16.toNat_inj.mp
  simp only [writeUnit]
  split_ifs with h1 h2 h3 h4 h5 h6 h7 h8
  · exact readText?_shortEscape (hunit (v := 0x22) h1 ▸ rfl) rest
  · exact readText?_shortEscape (hunit (v := 0x5C) h2 ▸ rfl) rest
  · exact readText?_shortEscape (hunit (v := 0x0A) h3 ▸ rfl) rest
  · exact readText?_shortEscape (hunit (v := 0x0D) h4 ▸ rfl) rest
  · exact readText?_shortEscape (hunit (v := 0x09) h5 ▸ rfl) rest
  · exact readText?_shortEscape (hunit (v := 0x0C) h6 ▸ rfl) rest
  · exact readText?_shortEscape (hunit (v := 0x08) h7 ▸ rfl) rest
  · exact readText?_plain h8.1 h8.2 h1 h2 rest
  · exact readText?_hex u rest

/-- A text is read back up to its closing quote. -/
theorem readText?_write (units : List UInt16) (rest : List Char) :
    readText? (units.flatMap writeUnit ++ '"' :: rest) = some (units, rest) := by
  induction units with
  | nil => rfl
  | cons u units ih =>
      rw [List.flatMap_cons, List.append_assoc, readText?_writeUnit, ih]
      rfl

theorem writeText_append_inj {left right : List UInt16} {rest other : List Char}
    (h : writeText left ++ rest = writeText right ++ other) : left = right ∧ rest = other := by
  simp only [writeText, List.cons_append, List.append_assoc, List.nil_append,
    List.cons.injEq, true_and] at h
  have hread := congrArg readText? h
  rw [readText?_write, readText?_write, Option.some.injEq, Prod.mk.injEq] at hread
  exact hread

/-! ### Numbers and words -/

/-- The characters of numbers and words. -/
def isAtomChar (c : Char) : Bool :=
  c.isAlphanum || c ∈ ['-', '+', '.']

theorem isAtomChar_of_isDigit {c : Char} (hc : c.isDigit = true) : isAtomChar c = true := by
  simp [isAtomChar, Char.isAlphanum, hc]

theorem isAtomChar_of_mem_toDigits {c : Char} {n : Nat} (hc : c ∈ Nat.toDigits 10 n) :
    isAtomChar c = true :=
  isAtomChar_of_isDigit (Nat.isDigit_of_mem_toDigits (by decide) (by decide) hc)

/-- A number or a word. -/
structure Atomic (text : List Char) : Prop where
  nonempty : text ≠ []
  chars : ∀ c ∈ text, isAtomChar c = true

theorem atomic_word {text : List Char} (hne : text ≠ []) (hall : text.all isAtomChar = true) :
    Atomic text :=
  ⟨hne, List.all_eq_true.mp hall⟩

theorem atomic_int (n : Int) : Atomic (writeInt n) := by
  unfold writeInt
  constructor
  · split
    · exact List.cons_ne_nil _ _
    · exact Nat.toDigits_ne_nil
  · intro c hc
    split at hc
    · rcases List.mem_cons.mp hc with rfl | hc
      · decide
      · exact isAtomChar_of_mem_toDigits hc
    · exact isAtomChar_of_mem_toDigits hc

theorem isAtomChar_of_mem_replicate {c : Char} {n : Nat} (hc : c ∈ List.replicate n '0') :
    isAtomChar c = true := by
  rw [List.eq_of_mem_replicate hc]
  decide

/-- A text with a point or a sign in it, and digits before and behind. -/
theorem atomic_around {before behind : List Char} {sign : Char}
    (hbefore : ∀ c ∈ before, isAtomChar c = true) (hsign : isAtomChar sign = true)
    (hbehind : ∀ c ∈ behind, isAtomChar c = true) : Atomic (before ++ sign :: behind) where
  nonempty := List.append_ne_nil_of_right_ne_nil _ (List.cons_ne_nil _ _)
  chars := List.forall_mem_append.mpr ⟨hbefore, List.forall_mem_cons.mpr ⟨hsign, hbehind⟩⟩

theorem atomic_positional {digits : List Char} (hdigits : ∀ c ∈ digits, isAtomChar c = true)
    (point : Int) : Atomic (NumberStyle.positional digits point) := by
  have hzero : ∀ c ∈ ['0'], isAtomChar c = true := List.all_eq_true.mp (by decide)
  unfold NumberStyle.positional
  split
  · exact atomic_around hzero (by decide) hdigits
  · refine atomic_around hzero (by decide) (List.forall_mem_append.mpr ⟨?_, hdigits⟩)
    exact fun c hc => isAtomChar_of_mem_replicate hc
  · refine atomic_around (List.forall_mem_append.mpr ⟨?_, ?_⟩) (by decide) ?_
    · exact fun c hc => hdigits c (List.mem_of_mem_take hc)
    · exact fun c hc => isAtomChar_of_mem_replicate hc
    · split
      · exact hzero
      · exact fun c hc => hdigits c (List.mem_of_mem_drop hc)

theorem atomic_scientific {digits : List Char} (hdigits : ∀ c ∈ digits, isAtomChar c = true)
    (exponent : Int) : Atomic (NumberStyle.json.scientific digits exponent) := by
  unfold NumberStyle.scientific
  refine atomic_around ?_ (by decide) (List.forall_mem_cons.mpr
    ⟨by split <;> decide, List.forall_mem_append.mpr ⟨?_, ?_⟩⟩)
  · split
    · exact hdigits
    · exact hdigits
    · obtain ⟨hfirst, hrest⟩ := List.forall_mem_cons.mp hdigits
      exact List.forall_mem_cons.mpr ⟨hfirst, List.forall_mem_cons.mpr ⟨by decide, hrest⟩⟩
  · exact fun c hc => isAtomChar_of_mem_replicate hc
  · exact fun c hc => isAtomChar_of_mem_toDigits hc

theorem atomic_number (d : Double) : Atomic (NumberStyle.json.write d).toList := by
  cases d with
  | nan => exact atomic_word (by decide) (by decide)
  | infinite negative => cases negative <;> exact atomic_word (by decide) (by decide)
  | finite negative significand exponent =>
      have hbody : Atomic (if significand = 0 then ['0', '.', '0'] else
          NumberStyle.json.writeDigits (Shortest.digits significand exponent).1
            (Shortest.digits significand exponent).2) := by
        split
        · exact atomic_word (by decide) (by decide)
        · unfold NumberStyle.writeDigits
          have hdigits : ∀ c ∈ Nat.toDigits 10 (Shortest.digits significand exponent).1,
              isAtomChar c = true := fun c hc => isAtomChar_of_mem_toDigits hc
          dsimp only
          split
          · exact atomic_positional hdigits _
          · exact atomic_scientific hdigits _
      rw [NumberStyle.write, String.toList_ofList]
      split
      · refine ⟨List.cons_ne_nil _ _, fun c hc => ?_⟩
        rcases List.mem_cons.mp hc with rfl | hc
        · decide
        · exact hbody.chars c hc
      · exact hbody

/-! ### Values are delimited -/

/-- The sign that a value begins with; all numbers and words count as one. -/
def opener : Json → Char
  | .text _ => '"'
  | .array _ => '['
  | .object _ => '{'
  | .null | .bool _ | .int _ | .number _ => '0'

/-- The sign for a character that a value begins with. -/
def openerOf (c : Char) : Char :=
  if isAtomChar c then '0' else c

theorem atomic_writeAt {json : Json} (hjson : json.opener = '0') (style : Style) (level : Nat) :
    Atomic (writeAt style level json) := by
  cases json with
  | null =>
      rw [writeAt]
      exact atomic_word (by decide) (by decide)
  | bool b => cases b <;> rw [writeAt] <;> exact atomic_word (by decide) (by decide)
  | int n =>
      rw [writeAt]
      exact atomic_int n
  | number d =>
      rw [writeAt]
      exact atomic_number d
  | text | array | object => simp [opener] at hjson

theorem exists_writeAt_eq_cons (style : Style) (level : Nat) (json : Json) :
    ∃ c rest, writeAt style level json = c :: rest ∧ openerOf c = json.opener := by
  by_cases hatom : json.opener = '0'
  · obtain ⟨hne, hchars⟩ := atomic_writeAt hatom style level
    obtain ⟨c, rest, hwrite⟩ := List.exists_cons_of_ne_nil hne
    refine ⟨c, rest, hwrite, ?_⟩
    rw [openerOf, if_pos (hchars c (by simp [hwrite])), hatom]
  · cases json with
    | null | bool | int | number => exact absurd rfl hatom
    | text units =>
        rw [writeAt]
        exact ⟨_, _, rfl, rfl⟩
    | array items => cases items <;> rw [writeAt] <;> exact ⟨_, _, rfl, rfl⟩
    | object fields => cases fields <;> rw [writeAt] <;> exact ⟨_, _, rfl, rfl⟩

/-- Texts that begin alike are of values that begin alike. -/
theorem opener_eq {style : Style} {level : Nat} {left right : Json} {rest other : List Char}
    (h : writeAt style level left ++ rest = writeAt style level right ++ other) :
    left.opener = right.opener := by
  obtain ⟨c, tail, hleft, hc⟩ := exists_writeAt_eq_cons style level left
  obtain ⟨d, more, hright, hd⟩ := exists_writeAt_eq_cons style level right
  rw [hleft, hright, List.cons_append, List.cons_append] at h
  rw [← hc, ← hd, (List.cons.inj h).1]

/-- A text that no number and no word goes on with. -/
def EndsAtom (rest : List Char) : Prop :=
  ∀ c ∈ rest.head?, isAtomChar c = false

theorem Atomic.append_inj {left right rest other : List Char} (hleft : Atomic left)
    (hright : Atomic right) (hrest : EndsAtom rest) (hother : EndsAtom other)
    (h : left ++ rest = right ++ other) : left = right ∧ rest = other := by
  have htake : ∀ {text after : List Char}, Atomic text → EndsAtom after →
      (text ++ after).takeWhile isAtomChar = text := by
    intro text after htext hafter
    rw [List.takeWhile_append_of_pos htext.chars]
    cases after with
    | nil => simp
    | cons c after => simp [hafter c rfl]
  have hsame := congrArg (List.takeWhile isAtomChar) h
  rw [htake hleft hrest, htake hright hother] at hsame
  subst hsame
  exact ⟨rfl, List.append_cancel_left h⟩

/-- Values with the same text. -/
def Same (style : Style) (level : Nat) (left right : Json) : Prop :=
  writeAt style level left = writeAt style level right

/-- Fields with the same name and values with the same text. -/
def SameField (style : Style) (level : Nat) (left right : List UInt16 × Json) : Prop :=
  left.1 = right.1 ∧ Same style level left.2 right.2

theorem writeItems_congr {style : Style} {level : Nat} {left right : List Json}
    (h : List.Forall₂ (Same style level) left right) :
    writeItems style level left = writeItems style level right := by
  induction h with
  | nil => rfl
  | cons hfirst _ ih => rw [writeItems, writeItems, hfirst, ih]

theorem writeFields_congr {style : Style} {level : Nat} {left right : List (List UInt16 × Json)}
    (h : List.Forall₂ (SameField style level) left right) :
    writeFields style level left = writeFields style level right := by
  induction h with
  | nil => rfl
  | @cons first second _ _ hfirst _ ih =>
      obtain ⟨name, value⟩ := first
      obtain ⟨_, other⟩ := second
      obtain ⟨rfl, hvalue⟩ := hfirst
      rw [writeFields, writeFields, hvalue, ih]

theorem same_array {style : Style} {level : Nat} {left right : List Json}
    (h : List.Forall₂ (Same style (level + 1)) left right) :
    Same style level (.array left) (.array right) := by
  unfold Same
  cases h with
  | nil => rfl
  | cons hfirst hrest => rw [writeAt, writeAt, hfirst, writeItems_congr hrest]

theorem same_object {style : Style} {level : Nat} {left right : List (List UInt16 × Json)}
    (h : List.Forall₂ (SameField style (level + 1)) left right) :
    Same style level (.object left) (.object right) := by
  unfold Same
  cases h with
  | nil => rfl
  | @cons first second _ _ hfirst hrest =>
      obtain ⟨name, value⟩ := first
      obtain ⟨_, other⟩ := second
      obtain ⟨rfl, hvalue⟩ := hfirst
      rw [writeAt, writeAt, hvalue, writeFields_congr hrest]

theorem exists_text {json : Json} (h : json.opener = '"') : ∃ units, json = .text units := by
  cases json with
  | text units => exact ⟨units, rfl⟩
  | _ => simp [opener] at h

theorem exists_array {json : Json} (h : json.opener = '[') : ∃ items, json = .array items := by
  cases json with
  | array items => exact ⟨items, rfl⟩
  | _ => simp [opener] at h

theorem exists_object {json : Json} (h : json.opener = '{') :
    ∃ fields, json = .object fields := by
  cases json with
  | object fields => exact ⟨fields, rfl⟩
  | _ => simp [opener] at h

/-- An item does not begin as an array or an object ends. -/
theorem cons_ne_lineBreak_append (style : Style) (level : Nat) (json : Json) {c : Char}
    (hc : c ∈ [']', '}']) (rest tail : List Char) :
    c :: rest ≠ style.lineBreak level ++ (writeAt style level json ++ tail) := by
  have hopener : ∀ json : Json, json.opener ∉ [']', '}'] := by
    intro json
    cases json <;> simp [opener]
  unfold Style.lineBreak
  cases style.indent with
  | none =>
      intro h
      obtain ⟨d, more, hwrite, hd⟩ := exists_writeAt_eq_cons style level json
      rw [hwrite, List.nil_append, List.cons_append, List.cons.injEq] at h
      have hall : ∀ c ∈ [']', '}'], openerOf c = c := List.all_iff_forall_prop.mp (by decide)
      rw [← h.1, hall c hc] at hd
      exact hopener json (hd ▸ hc)
  | some width =>
      intro h
      rw [(List.cons.inj h).1] at hc
      contradiction

/-- What stands behind the last item of an array or the last field of an object. -/
def Closing (rest : List Char) : Prop :=
  ∃ c tail, rest = c :: tail ∧ c ∈ ['\n', ']', '}']

theorem closing_lineBreak (style : Style) (level : Nat) {c : Char} (hc : c ∈ [']', '}'])
    (tail : List Char) : Closing (style.lineBreak level ++ c :: tail) := by
  unfold Style.lineBreak
  cases style.indent with
  | none => exact ⟨c, tail, rfl, List.mem_cons_of_mem _ hc⟩
  | some width => exact ⟨'\n', _, rfl, by decide⟩

theorem Closing.endsAtom {rest : List Char} (h : Closing rest) : EndsAtom rest := by
  obtain ⟨c, tail, rfl, hc⟩ := h
  have hall : ∀ c ∈ ['\n', ']', '}'], isAtomChar c = false :=
    List.all_iff_forall_prop.mp (by decide)
  rintro d ⟨⟩
  exact hall c hc

theorem Closing.ne_comma {rest tail : List Char} (h : Closing rest) : rest ≠ ',' :: tail := by
  obtain ⟨c, after, rfl, hc⟩ := h
  rintro heq
  rw [(List.cons.inj heq).1] at hc
  contradiction

theorem endsAtom_comma (tail : List Char) : EndsAtom (',' :: tail) := by
  rintro d ⟨⟩
  decide

theorem endsAtom_writeItems (style : Style) (level : Nat) (items : List Json)
    {rest : List Char} (hrest : Closing rest) :
    EndsAtom (writeItems style level items ++ rest) := by
  cases items with
  | nil => exact hrest.endsAtom
  | cons item items =>
      rw [writeItems]
      exact endsAtom_comma _

theorem endsAtom_writeFields (style : Style) (level : Nat) (fields : List (List UInt16 × Json))
    {rest : List Char} (hrest : Closing rest) :
    EndsAtom (writeFields style level fields ++ rest) := by
  cases fields with
  | nil => exact hrest.endsAtom
  | cons field fields =>
      rw [writeFields]
      exact endsAtom_comma _

mutual

/-- A value is delimited by its own text. -/
theorem writeAt_append_inj (style : Style) : (left : Json) →
    ∀ {level : Nat} {right : Json} {rest other : List Char}, EndsAtom rest → EndsAtom other →
      writeAt style level left ++ rest = writeAt style level right ++ other →
      Same style level left right ∧ rest = other
  | .text units, level, right, rest, other, _, _, h => by
      obtain ⟨found, rfl⟩ := exists_text (opener_eq h).symm
      rw [writeAt, writeAt] at h
      obtain ⟨rfl, hrest⟩ := writeText_append_inj h
      exact ⟨rfl, hrest⟩
  | .array items, level, right, rest, other, _, _, h => by
      obtain ⟨found, rfl⟩ := exists_array (opener_eq h).symm
      obtain ⟨hitems, heq⟩ := writeArray_append_inj style items h
      exact ⟨same_array hitems, heq⟩
  | .object fields, level, right, rest, other, _, _, h => by
      obtain ⟨found, rfl⟩ := exists_object (opener_eq h).symm
      obtain ⟨hfields, heq⟩ := writeObject_append_inj style fields h
      exact ⟨same_object hfields, heq⟩
  | .null, level, right, rest, other, hrest, hother, h =>
      (atomic_writeAt rfl style level).append_inj (atomic_writeAt (opener_eq h).symm style level)
        hrest hother h
  | .bool b, level, right, rest, other, hrest, hother, h =>
      (atomic_writeAt rfl style level).append_inj (atomic_writeAt (opener_eq h).symm style level)
        hrest hother h
  | .int n, level, right, rest, other, hrest, hother, h =>
      (atomic_writeAt rfl style level).append_inj (atomic_writeAt (opener_eq h).symm style level)
        hrest hother h
  | .number d, level, right, rest, other, hrest, hother, h =>
      (atomic_writeAt rfl style level).append_inj (atomic_writeAt (opener_eq h).symm style level)
        hrest hother h

theorem writeArray_append_inj (style : Style) : (left : List Json) →
    ∀ {level : Nat} {right : List Json} {rest other : List Char},
      writeAt style level (.array left) ++ rest = writeAt style level (.array right) ++ other →
      List.Forall₂ (Same style (level + 1)) left right ∧ rest = other
  | [], level, [], rest, other, h => ⟨.nil, List.append_cancel_left h⟩
  | [], level, item :: items, rest, other, h => by
      simp only [writeAt, List.cons_append, List.append_assoc, List.cons.injEq, true_and] at h
      exact absurd h (cons_ne_lineBreak_append style _ item (by decide) _ _)
  | item :: items, level, [], rest, other, h => by
      simp only [writeAt, List.cons_append, List.append_assoc, List.cons.injEq, true_and] at h
      exact absurd h.symm (cons_ne_lineBreak_append style _ item (by decide) _ _)
  | item :: items, level, found :: more, rest, other, h => by
      simp only [writeAt, List.cons_append, List.append_assoc, List.cons.injEq, true_and,
        List.append_cancel_left_eq] at h
      have hclosing := fun tail => closing_lineBreak style level (c := ']') (by decide) tail
      obtain ⟨hfirst, h⟩ := writeAt_append_inj style item
        (endsAtom_writeItems style _ items (hclosing _))
        (endsAtom_writeItems style _ more (hclosing _)) h
      obtain ⟨hitems, h⟩ := writeItems_append_inj style items (hclosing _) (hclosing _) h
      exact ⟨.cons hfirst hitems, (List.cons.inj (List.append_cancel_left h)).2⟩

theorem writeObject_append_inj (style : Style) : (left : List (List UInt16 × Json)) →
    ∀ {level : Nat} {right : List (List UInt16 × Json)} {rest other : List Char},
      writeAt style level (.object left) ++ rest = writeAt style level (.object right) ++ other →
      List.Forall₂ (SameField style (level + 1)) left right ∧ rest = other
  | [], level, [], rest, other, h => ⟨.nil, List.append_cancel_left h⟩
  | [], level, (name, value) :: fields, rest, other, h => by
      simp only [writeAt, List.cons_append, List.append_assoc, List.cons.injEq, true_and] at h
      exact absurd h (cons_ne_lineBreak_append style _ (.text name) (by decide) _ _)
  | (name, value) :: fields, level, [], rest, other, h => by
      simp only [writeAt, List.cons_append, List.append_assoc, List.cons.injEq, true_and] at h
      exact absurd h.symm (cons_ne_lineBreak_append style _ (.text name) (by decide) _ _)
  | (name, value) :: fields, level, (found, shown) :: more, rest, other, h => by
      simp only [writeAt, List.cons_append, List.append_assoc, List.cons.injEq, true_and,
        List.append_cancel_left_eq] at h
      obtain ⟨hname, h⟩ := writeText_append_inj h
      have h := List.append_cancel_left h
      have hclosing := fun tail => closing_lineBreak style level (c := '}') (by decide) tail
      obtain ⟨hfirst, h⟩ := writeAt_append_inj style value
        (endsAtom_writeFields style _ fields (hclosing _))
        (endsAtom_writeFields style _ more (hclosing _)) h
      obtain ⟨hfields, h⟩ := writeFields_append_inj style fields (hclosing _) (hclosing _) h
      exact ⟨.cons ⟨hname, hfirst⟩ hfields, (List.cons.inj (List.append_cancel_left h)).2⟩

theorem writeItems_append_inj (style : Style) : (left : List Json) →
    ∀ {level : Nat} {right : List Json} {rest other : List Char}, Closing rest → Closing other →
      writeItems style level left ++ rest = writeItems style level right ++ other →
      List.Forall₂ (Same style level) left right ∧ rest = other
  | [], level, [], rest, other, _, _, h => ⟨.nil, h⟩
  | [], level, item :: items, rest, other, hrest, _, h => by
      rw [writeItems.eq_2] at h
      exact absurd h hrest.ne_comma
  | item :: items, level, [], rest, other, _, hother, h => by
      rw [writeItems.eq_2] at h
      exact absurd h.symm hother.ne_comma
  | item :: items, level, found :: more, rest, other, hrest, hother, h => by
      simp only [writeItems, List.cons_append, List.append_assoc, List.cons.injEq, true_and,
        List.append_cancel_left_eq] at h
      obtain ⟨hfirst, h⟩ := writeAt_append_inj style item
        (endsAtom_writeItems style level items hrest)
        (endsAtom_writeItems style level more hother) h
      obtain ⟨hitems, heq⟩ := writeItems_append_inj style items hrest hother h
      exact ⟨.cons hfirst hitems, heq⟩

theorem writeFields_append_inj (style : Style) : (left : List (List UInt16 × Json)) →
    ∀ {level : Nat} {right : List (List UInt16 × Json)} {rest other : List Char},
      Closing rest → Closing other →
      writeFields style level left ++ rest = writeFields style level right ++ other →
      List.Forall₂ (SameField style level) left right ∧ rest = other
  | [], level, [], rest, other, _, _, h => ⟨.nil, h⟩
  | [], level, field :: fields, rest, other, hrest, _, h => by
      rw [writeFields.eq_2] at h
      exact absurd h hrest.ne_comma
  | field :: fields, level, [], rest, other, _, hother, h => by
      rw [writeFields.eq_2] at h
      exact absurd h.symm hother.ne_comma
  | (name, value) :: fields, level, (found, shown) :: more, rest, other, hrest, hother, h => by
      simp only [writeFields, List.cons_append, List.append_assoc, List.cons.injEq, true_and,
        List.append_cancel_left_eq] at h
      obtain ⟨hname, h⟩ := writeText_append_inj h
      have h := List.append_cancel_left h
      obtain ⟨hfirst, h⟩ := writeAt_append_inj style value
        (endsAtom_writeFields style level fields hrest)
        (endsAtom_writeFields style level more hother) h
      obtain ⟨hfields, heq⟩ := writeFields_append_inj style fields hrest hother h
      exact ⟨.cons ⟨hname, hfirst⟩ hfields, heq⟩

end

/-! ### What texts tell -/

section

variable {style : Style} {level : Nat}

@[simp]
theorem same_refl (json : Json) : Same style level json json :=
  rfl

/-- A natural number is known from its digits. -/
theorem same_natCast_iff {left right : Nat} :
    Same style level (.int left) (.int right) ↔ left = right := by
  constructor
  · intro h
    have hsigns : ∀ n : Nat, ¬ (n : Int) < 0 := by
      intro n
      omega
    simp only [Same, writeAt, writeInt, hsigns, ↓reduceIte, Int.natAbs_natCast] at h
    have hread := congrArg (Nat.ofDigitChars 10 · 0) h
    simpa only [Nat.ofDigitChars_ten_toDigits] using hread
  · rintro rfl
    rfl

theorem same_number_iff {left right : Double} :
    Same style level (.number left) (.number right) ↔
      NumberStyle.json.write left = NumberStyle.json.write right := by
  rw [Same, writeAt, writeAt, String.toList_inj]

theorem same_units_iff {left right : List UInt16} :
    Same style level (.text left) (.text right) ↔ left = right := by
  constructor
  · intro h
    rw [Same, writeAt, writeAt] at h
    have hboth := congrArg (· ++ []) h
    exact (writeText_append_inj hboth).1
  · rintro rfl
    rfl

theorem same_array_iff {left right : List Json} :
    Same style level (.array left) (.array right) ↔
      List.Forall₂ (Same style (level + 1)) left right := by
  refine ⟨fun h => ?_, same_array⟩
  exact (writeArray_append_inj style left (congrArg (· ++ []) h)).1

theorem same_object_iff {left right : List (List UInt16 × Json)} :
    Same style level (.object left) (.object right) ↔
      List.Forall₂ (SameField style (level + 1)) left right := by
  refine ⟨fun h => ?_, same_object⟩
  exact (writeObject_append_inj style left (congrArg (· ++ []) h)).1

theorem same_ofString_iff {left right : String} :
    Same style level (.ofString left) (.ofString right) ↔ left = right := by
  rw [ofString, ofString, same_units_iff, Text.units_inj]

theorem same_ofFields_iff {left right : List (String × Json)} :
    Same style level (.ofFields left) (.ofFields right) ↔
      List.Forall₂ (fun field other => field.1 = other.1 ∧
        Same style (level + 1) field.2 other.2) left right := by
  rw [ofFields, ofFields, same_object_iff, List.forall₂_map_left_iff, List.forall₂_map_right_iff]
  simp only [SameField, Text.units_inj]

theorem write_inj {left right : Json} :
    left.write style = right.write style ↔ Same style 0 left right :=
  String.ofList_inj

end

end Blockscript.Json
