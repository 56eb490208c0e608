import Mathlib.Data.List.TakeWhile
import Blockscript.Proofs.Json.Rereading
import Blockscript.Proofs.Script.Quoting

/-!
Quoted texts and JSON.  Every JSON text is a quoted text of scripts.  Both stand for the
same text exactly when no backslash of it stands before `b`, `f` or `u`: scripts know the
escapes of the line feed, the tab and the carriage return, and drop every other backslash.
-/

namespace Blockscript.Json

/-! ### What JSON assigns to the characters between two quotes -/

/-- Characters between quotes and the units that they stand for. -/
inductive StandsFor : List Char → List UInt16 → Prop
  | nil : StandsFor [] []
  | plain {c : Char} {raw : List Char} {units : List UInt16} (hquote : c ≠ '"')
      (hslash : c ≠ '\\') (hcontrol : 0x20 ≤ c.toNat) (hrest : StandsFor raw units) :
      StandsFor (c :: raw) (Text.unitsOfChar c ++ units)
  | short {c : Char} {u : UInt16} {raw : List Char} {units : List UInt16}
      (hescape : shortEscape? c = some u) (hrest : StandsFor raw units) :
      StandsFor ('\\' :: c :: raw) (u :: units)
  | code {c₁ c₂ c₃ c₄ : Char} {u : UInt16} {raw : List Char} {units : List UInt16}
      (hcode : hexUnit? c₁ c₂ c₃ c₄ = some u) (hrest : StandsFor raw units) :
      StandsFor ('\\' :: 'u' :: c₁ :: c₂ :: c₃ :: c₄ :: raw) (u :: units)

theorem exists_standsFor_of_readText? {cs rest : List Char} {units : List UInt16}
    (hread : readText? cs = some (units, rest)) :
    ∃ raw, cs = raw ++ '"' :: rest ∧ StandsFor raw units := by
  fun_induction readText? cs generalizing units with
  | case1 rest' =>
      cases hread
      exact ⟨[], rfl, .nil⟩
  | case2 c₁ c₂ c₃ c₄ rest' ih =>
      simp only [Option.bind_eq_bind, Option.bind_eq_some_iff, Prod.exists] at hread
      obtain ⟨u, hcode, us, rest'', hrest, heq⟩ := hread
      cases heq
      obtain ⟨raw, rfl, hraw⟩ := ih hrest
      exact ⟨_, rfl, .code hcode hraw⟩
  | case3 c rest' _ ih =>
      simp only [Option.bind_eq_bind, Option.bind_eq_some_iff, Prod.exists] at hread
      obtain ⟨u, hescape, us, rest'', hrest, heq⟩ := hread
      cases heq
      obtain ⟨raw, rfl, hraw⟩ := ih hrest
      exact ⟨_, rfl, .short hescape hraw⟩
  | case4 => contradiction
  | case5 c rest' hquote _ _ hcontrol ih =>
      simp only [Option.bind_eq_bind, Option.bind_eq_some_iff, Prod.exists] at hread
      obtain ⟨us, rest'', hrest, heq⟩ := hread
      cases heq
      obtain ⟨raw, rfl, hraw⟩ := ih hrest
      rw [not_or, Nat.not_lt] at hcontrol
      exact ⟨_, rfl, .plain hquote hcontrol.2 hcontrol.1 hraw⟩
  | case6 => contradiction

end Blockscript.Json

namespace Blockscript.Script

/-- Nothing stands behind the closing quote, since a quote is no blank. -/
theorem standsFor_of_read? {raw : List Char} {units : List UInt16}
    (hread : Json.read? (enquote raw) = some (.text units)) : Json.StandsFor raw units := by
  unfold Json.read? at hread
  simp only [toList_enquote, Json.skipBlanks_cons (c := '"') rfl, Json.readValue?] at hread
  split at hread
  · next json rest hvalue =>
      obtain ⟨⟨found, behind⟩, htext, heq⟩ := Option.map_eq_some_iff.mp hvalue
      cases heq
      obtain ⟨hblank, heq⟩ := Option.ite_none_right_eq_some.mp hread
      cases heq
      obtain ⟨inner, hinner, hstands⟩ := Json.exists_standsFor_of_readText? htext
      rcases List.eq_nil_or_concat' behind with rfl | ⟨front, c, rfl⟩
      · obtain ⟨rfl, -⟩ := List.append_inj' hinner rfl
        exact hstands
      · rw [← List.cons_append, ← List.append_assoc] at hinner
        obtain ⟨-, hlast⟩ := List.append_inj' hinner rfl
        cases hlast
        rw [Json.skipBlanks, List.isEmpty_iff, List.dropWhile_eq_nil_iff] at hblank
        exact absurd (hblank '"' (by simp)) (by decide)
  · contradiction

/-! ### What scripts make of them -/

theorem resolveEscapes_cons {c : Char} (hslash : c ≠ '\\') (rest : List Char) :
    resolveEscapes (c :: rest) = c :: resolveEscapes rest :=
  resolveEscapes.eq_2 c rest fun _ _ h _ => hslash h

theorem resolveEscapes_escape {c : Char} (hline : c ≠ '\n') (rest : List Char) :
    resolveEscapes ('\\' :: c :: rest) = escaped c :: resolveEscapes rest := by
  rw [resolveEscapes, if_neg hline]

/-- The characters right behind the backslashes of a quoted text. -/
def escapedChars : List Char → List Char
  | '\\' :: c :: rest => c :: escapedChars rest
  | _ :: rest => escapedChars rest
  | [] => []

theorem escapedChars_cons {c : Char} (hslash : c ≠ '\\') (rest : List Char) :
    escapedChars (c :: rest) = escapedChars rest :=
  escapedChars.eq_2 c rest fun _ _ h _ => hslash h

/-- The escapes that JSON has and scripts do not. -/
def unknownEscapes : List Char :=
  ['b', 'f', 'u']

theorem unitsOfChar_escaped {c : Char} {u : UInt16} (hescape : Json.shortEscape? c = some u) :
    ∃ v, Text.unitsOfChar (escaped c) = [v] ∧ (v = u ↔ c ∉ unknownEscapes) := by
  unfold Json.shortEscape? at hescape
  split at hescape <;> cases hescape <;> exact ⟨_, rfl, by decide⟩

theorem ne_lineFeed_of_shortEscape? {c : Char} {u : UInt16}
    (hescape : Json.shortEscape? c = some u) : c ≠ '\n' := by
  rintro rfl
  cases hescape

/-- Hexadecimal digits need no escape. -/
theorem ne_of_hexValue? {c : Char} {n : Nat} (hvalue : Json.hexValue? c = some n) :
    c ≠ '"' ∧ c ≠ '\\' ∧ c ≠ '\n' := by
  refine ⟨?_, ?_, ?_⟩
  all_goals
    rintro rfl
    cases hvalue

theorem one_le_length_unitsOfChar (c : Char) : 1 ≤ (Text.unitsOfChar c).length := by
  unfold Text.unitsOfChar
  split <;> simp

theorem ne_of_hexUnit? {c₁ c₂ c₃ c₄ : Char} {u : UInt16}
    (hcode : Json.hexUnit? c₁ c₂ c₃ c₄ = some u) :
    ∀ c ∈ [c₁, c₂, c₃, c₄], c ≠ '"' ∧ c ≠ '\\' ∧ c ≠ '\n' := by
  simp only [Json.hexUnit?, Option.bind_eq_bind, Option.bind_eq_some_iff] at hcode
  obtain ⟨_, h₁, _, h₂, _, h₃, _, h₄, -⟩ := hcode
  simp [ne_of_hexValue? h₁, ne_of_hexValue? h₂, ne_of_hexValue? h₃, ne_of_hexValue? h₄]

theorem resolveEscapes_code {c₁ c₂ c₃ c₄ : Char} {u : UInt16}
    (hcode : Json.hexUnit? c₁ c₂ c₃ c₄ = some u) (rest : List Char) :
    resolveEscapes ('\\' :: 'u' :: c₁ :: c₂ :: c₃ :: c₄ :: rest) =
      'u' :: c₁ :: c₂ :: c₃ :: c₄ :: resolveEscapes rest := by
  have hslash : ∀ c ∈ [c₁, c₂, c₃, c₄], c ≠ '\\' := fun c hc => (ne_of_hexUnit? hcode c hc).2.1
  rw [resolveEscapes_escape (by decide), resolveEscapes_cons (hslash c₁ (by simp)),
    resolveEscapes_cons (hslash c₂ (by simp)), resolveEscapes_cons (hslash c₃ (by simp)),
    resolveEscapes_cons (hslash c₄ (by simp))]
  rfl

/-- Plain characters are read as they stand. -/
theorem Quotes.append_plain {plain : List Char}
    (hplain : ∀ c ∈ plain, c ≠ '"' ∧ c ≠ '\\' ∧ c ≠ '\n') {raw content : List Char}
    (hquotes : Quotes raw content) : Quotes (plain ++ raw) (plain ++ content) := by
  induction plain with
  | nil => exact hquotes
  | cons c plain ih =>
      obtain ⟨⟨hquote, hslash, hline⟩, hplain⟩ := List.forall_mem_cons.mp hplain
      exact .plain hquote hslash hline (ih hplain)

end Blockscript.Script

namespace Blockscript.Json.StandsFor

open Script

variable {raw : List Char} {units : List UInt16} (hstands : StandsFor raw units)

include hstands

theorem quotes : Quotes raw (resolveEscapes raw) := by
  induction hstands with
  | nil => exact .nil
  | @plain c _ _ hquote hslash hcontrol _ ih =>
      have hline : c ≠ '\n' := by
        rintro rfl
        exact absurd hcontrol (by decide)
      rw [resolveEscapes_cons hslash]
      exact .plain hquote hslash hline ih
  | short hescape _ ih =>
      have hline := ne_lineFeed_of_shortEscape? hescape
      rw [resolveEscapes_escape hline]
      exact .escape hline ih
  | code hcode _ ih =>
      rw [resolveEscapes_code hcode]
      exact .escape (by decide) (ih.append_plain (ne_of_hexUnit? hcode))

/-- Scripts read no fewer units than JSON. -/
theorem length_le : units.length ≤ ((resolveEscapes raw).flatMap Text.unitsOfChar).length := by
  induction hstands with
  | nil => exact Nat.zero_le _
  | plain _ hslash _ _ ih =>
      rw [resolveEscapes_cons hslash, List.flatMap_cons, List.length_append, List.length_append]
      exact Nat.add_le_add_left ih _
  | short hescape _ ih =>
      obtain ⟨v, hv, -⟩ := unitsOfChar_escaped hescape
      rw [resolveEscapes_escape (ne_lineFeed_of_shortEscape? hescape), List.flatMap_cons, hv]
      exact Nat.succ_le_succ ih
  | @code c₁ c₂ c₃ c₄ _ _ _ hcode _ ih =>
      have hu := one_le_length_unitsOfChar 'u'
      simp only [resolveEscapes_code hcode, List.flatMap_cons, List.length_append,
        List.length_cons]
      omega

theorem flatMap_eq_iff :
    (resolveEscapes raw).flatMap Text.unitsOfChar = units ↔
      ∀ c ∈ escapedChars raw, c ∉ unknownEscapes := by
  induction hstands with
  | nil => simp [resolveEscapes, escapedChars]
  | plain _ hslash _ _ ih =>
      rw [resolveEscapes_cons hslash, escapedChars_cons hslash, List.flatMap_cons,
        List.append_right_inj, ih]
  | short hescape _ ih =>
      obtain ⟨v, hv, hagree⟩ := unitsOfChar_escaped hescape
      rw [resolveEscapes_escape (ne_lineFeed_of_shortEscape? hescape), escapedChars,
        List.flatMap_cons, hv, List.singleton_append, List.cons.injEq, hagree, ih,
        List.forall_mem_cons]
  | @code c₁ c₂ c₃ c₄ _ raw units hcode hrest ih =>
      -- The digits of a code stay in the text, so scripts read more units than JSON.
      have hlength := hrest.length_le
      have hu := one_le_length_unitsOfChar 'u'
      have hfirst := one_le_length_unitsOfChar c₁
      constructor
      · intro heq
        have heq := congrArg List.length heq
        simp only [resolveEscapes_code hcode, List.flatMap_cons, List.length_append,
          List.length_cons] at heq
        omega
      · intro hall
        exact absurd (hall 'u' (by simp [escapedChars])) (by decide)

end Blockscript.Json.StandsFor

namespace Blockscript.Script

/-! ### JSON texts in scripts -/

/-- Tokens of the same kind, whatever they mean. -/
def sameKind : Lr.Correspondence attribution attribution where
  token _ left right := left.kind = right.kind
  meaning _ _ _ := True
  kind_eq _ _ h := h
  interpret _ _ _ _ := trivial

/-- Where a quoted text stands in a script that parses, any quoted text may stand. -/
theorem Parsed.exists_replaced {before after : List Piece} {gap : List Char}
    {text other : String} {last : List Char} (hliteral : IsLiteral other.toList)
    {routines : List Routine}
    (hparsed : Parsed (before ++ ⟨gap, .text, text⟩ :: after) last routines) :
    ∃ found, Parsed (before ++ ⟨gap, .text, other⟩ :: after) last found := by
  have hplaceless : Placeless sameKind := fun _ _ _ _ => rfl
  have htoken : ∀ place, sameKind.token .text ⟨.text, text, place⟩ ⟨.text, other, place⟩ :=
    fun _ => rfl
  obtain ⟨found, hfound, -⟩ := hparsed.exists_related hplaceless hliteral htoken
  exact ⟨found, hfound⟩

/-- A JSON text may be an argument, and it may stand in the place of every quoted text;
for one with its content this changes nothing.  The argument is the text that JSON assigns to it
exactly when no backslash stands before one of the escapes that scripts do not know. -/
theorem parse_json_text {raw : List Char} {units : List UInt16}
    (hread : Json.read? (enquote raw) = some (.text units)) :
    parse ("event player.join \x7bplayer.say(" ++ enquote raw ++ ")\x7d") =
      .ok [⟨.event, "join", [.action .player "say" [.text (unquote (enquote raw))]], 1, 14⟩] ∧
    (∀ before gap text after last routines,
      Parsed (before ++ ⟨gap, .text, text⟩ :: after) last routines →
      ∃ found, parse (String.ofList
          (written (before ++ ⟨gap, .text, enquote raw⟩ :: after) last)) = .ok found ∧
        (unquote text = unquote (enquote raw) →
          found.map Routine.unplaced = routines.map Routine.unplaced)) ∧
    (Text.units (unquote (enquote raw)) = units ↔
      ∀ c ∈ escapedChars raw, c ∉ unknownEscapes) := by
  have hstands := standsFor_of_read? hread
  have hcontent : unquote (enquote raw) = String.ofList (resolveEscapes raw) :=
    unquote_eq (toList_enquote raw)
  refine ⟨?_, ?_, ?_⟩
  · have hquotes : Quotes raw (unquote (enquote raw)).toList := by
      rw [hcontent, String.toList_ofList]
      exact hstands.quotes
    have hsource : String.ofList
          (written (beforeSaid ++ ⟨[], .text, enquote raw⟩ :: afterSaid) []) =
        "event player.join \x7bplayer.say(" ++ enquote raw ++ ")\x7d" := by
      rw [← String.toList_inj]
      simp [written, beforeSaid, afterSaid, eventOpening]
    rw [← hsource]
    exact (parsed_saying hquotes).parse_eq
  · intro before gap text after last routines hparsed
    have hliteral := hstands.quotes.isLiteral
    by_cases hsame : unquote text = unquote (enquote raw)
    · obtain ⟨found, hfound, hroutines⟩ := hparsed.requote hliteral hsame
      exact ⟨found, hfound, fun _ => hroutines⟩
    · obtain ⟨found, hfound⟩ := hparsed.exists_replaced hliteral
      exact ⟨found, hfound.parse_eq, fun h => absurd h hsame⟩
  · rw [hcontent, Text.units, String.toList_ofList]
    exact hstands.flatMap_eq_iff

theorem parse_json_text_slashes :
    Json.read? "\"\\n\\/\\\"\"" = some (.text [0x0A, 0x2F, 0x22]) ∧
    parse "event player.join \x7bplayer.say(\"\\n\\/\\\"\")\x7d" =
      .ok [⟨.event, "join", [.action .player "say" [.text "\n/\""]], 1, 14⟩] ∧
    Text.units "\n/\"" = [0x0A, 0x2F, 0x22] := by
  have hread : Json.read? (enquote ['\\', 'n', '\\', '/', '\\', '"']) =
      some (.text [0x0A, 0x2F, 0x22]) := by rfl
  obtain ⟨hparse, -, hunits⟩ := parse_json_text hread
  exact ⟨hread, hparse, hunits.mpr (by simp [escapedChars, unknownEscapes])⟩

/-- A code of JSON loses its backslash in a script, and no more. -/
theorem not_json_text_code :
    Json.read? "\"\\u0041\"" = some (.text (Text.units "A")) ∧
    parse "event player.join \x7bplayer.say(\"\\u0041\")\x7d" =
      .ok [⟨.event, "join", [.action .player "say" [.text "u0041"]], 1, 14⟩] ∧
    Text.units "u0041" ≠ Text.units "A" := by
  have hcode : Json.hexUnit? '0' '0' '4' '1' = some 0x41 := rfl
  have hquotes : Quotes ['\\', 'u', '0', '0', '4', '1'] "u0041".toList :=
    .escape (by decide) (Quotes.nil.append_plain (ne_of_hexUnit? hcode))
  exact ⟨by rfl, (parsed_saying hquotes).parse_eq, by decide⟩

end Blockscript.Script
