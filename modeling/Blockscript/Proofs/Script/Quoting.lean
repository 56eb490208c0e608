import Blockscript.Proofs.Script.Expecting
import Blockscript.Proofs.Script.Joining

/-!
Quoted texts.  Every text has quoted forms.  Each of them stands for the text, is read
as one token wherever a value may stand, and is passed over by the scanner for braces.
In a script that parses, every quoted text ends at its first quote that no backslash
protects, and any quoted form of its content may stand in its place.
-/

namespace Blockscript.Script

/-! ### Quoted forms -/

/-- A quoted form stands for its text. -/
theorem QuotedAs.unquote_enquote {content : String} {raw : List Char}
    (hquoted : QuotedAs content.toList raw) : unquote (enquote raw) = content := by
  rw [unquote_eq (toList_enquote raw), hquoted.quotes.resolveEscapes_eq, String.ofList_toList]

theorem unquote_quote (content : String) : unquote (quote content) = content :=
  (quotedAs_flatMap content.toList).unquote_enquote

/-! ### Where a quoted text ends -/

/-- A quoted text is read as one token in front of any text, where one may stand, and
the scanner for braces goes on right behind it. -/
structure Delimited (text : String) : Prop where
  read_eq : ∀ (rest : List Char) (place : Place) (stack : Stack), .text ∈ admitted stack →
    Cursor.read ⟨place, text.toList ++ rest⟩ (admitted stack) =
      .token ⟨.text, text, place⟩ ⟨place.after text.toList, rest⟩
  scan_eq : ∀ (rest : List Char) (place : Place) (pending : List Place),
    openBracesFrom place pending (text.toList ++ rest) =
      openBracesFrom (place.after text.toList) pending rest

theorem IsLiteral.head?_eq {cs : List Char} (hliteral : IsLiteral cs) : cs.head? = some '"' := by
  cases hliteral
  rfl

theorem IsLiteral.ne_slash {text : String} (hliteral : IsLiteral text.toList) : text ≠ "/" := by
  rintro rfl
  exact absurd hliteral.head?_eq (by decide)

theorem IsLiteral.delimited {text : String} (hliteral : IsLiteral text.toList) :
    Delimited text where
  read_eq rest place stack htext := by
    have hends : (readAs (admitted stack) .text).Ends rest := trivial
    have hread := Cursor.read_append (orderly_admitted stack).1 htext .nil hliteral
      (fun hslash => absurd (String.toList_inj.mp hslash) hliteral.ne_slash) hends nofun place
    rwa [String.ofList_toList] at hread
  scan_eq rest place pending :=
    Terminal.IsLexeme.openBracesFrom_append (t := .text) hliteral
      (fun hslash => absurd hslash hliteral.ne_slash) place pending

/-- The position of the first quote of a text that is not the second of a pair with a
backslash. -/
def closingQuote? : List Char → Option Nat
  | [] => none
  | '\\' :: _ :: rest => (closingQuote? rest).map (· + 2)
  | '"' :: _ => some 0
  | _ :: rest => (closingQuote? rest).map (· + 1)

theorem IsQuotable.closingQuote?_eq {raw : List Char} (hraw : IsQuotable raw) (rest : List Char) :
    closingQuote? (raw ++ '"' :: rest) = some raw.length := by
  induction hraw with
  | nil => rfl
  | @plain c raw hquote hslash _ _ ih =>
      rw [List.cons_append, closingQuote?.eq_4 c _ (fun _ _ h _ => hslash h) hquote, ih]
      rfl
  | escape _ _ ih =>
      rw [List.cons_append, List.cons_append, closingQuote?, ih]
      rfl

theorem IsQuotable.lineFeed_not_mem {raw : List Char} (hraw : IsQuotable raw) : '\n' ∉ raw := by
  induction hraw with
  | nil => exact List.not_mem_nil
  | plain _ _ hline _ ih => simp [hline.symm, ih]
  | escape hline _ ih => simp [hline.symm, ih]

/-- A quoted text stands on one line and ends at its first quote that no backslash
protects. -/
structure EndsInTime (text : String) : Prop where
  oneLine : '\n' ∉ text.toList
  closed : ∃ inner, text.toList = '"' :: (inner ++ ['"']) ∧
    closingQuote? (inner ++ ['"']) = some inner.length

theorem IsLiteral.endsInTime {text : String} (hliteral : IsLiteral text.toList) :
    EndsInTime text := by
  generalize htext : text.toList = cs at hliteral
  cases hliteral with
  | @intro inner hinner =>
      refine ⟨?_, inner, htext, hinner.closingQuote?_eq []⟩
      simp [htext, hinner.lineFeed_not_mem]

/-! ### Quoted texts in scripts -/

section Replaced

variable {before after : List Piece} {gap : List Char} {text other : String} {last : List Char}

theorem head?_written_text (htext : IsLiteral text.toList) :
    (written (before ++ ⟨gap, .text, text⟩ :: after) last).head? =
      (written before []).head?.or (gap.head?.or (some '"')) := by
  rw [written_append, written_eq_append before]
  simp only [written, List.head?_append, htext.head?_eq, Option.some_or]

/-- Layout and lexemes stay apart, since all quoted texts begin alike. -/
theorem Cut.replace (hliteral : IsLiteral other.toList)
    (hcut : Cut (before ++ ⟨gap, .text, text⟩ :: after) last) :
    Cut (before ++ ⟨gap, .text, other⟩ :: after) last := by
  have htext : IsLiteral text.toList :=
    hcut.isLexeme (List.mem_append_right before List.mem_cons_self)
  induction before with
  | nil =>
      cases hcut with
      | cons hgap _ _ hafter =>
          exact .cons hgap hliteral (fun hslash => absurd hslash hliteral.ne_slash) hafter
  | cons piece before ih =>
      rw [List.cons_append] at hcut ⊢
      cases hcut with
      | cons hgap hlexeme hslash hrest =>
          refine .cons hgap hlexeme (fun h => ?_) (ih hrest)
          rw [head?_written_text hliteral, ← head?_written_text htext]
          exact hslash h

theorem isChain_replace (hchain : (before ++ ⟨gap, .text, text⟩ :: after).IsChain Unambiguous) :
    (before ++ ⟨gap, .text, other⟩ :: after).IsChain Unambiguous := by
  obtain ⟨hbefore, hafter, -⟩ := List.isChain_append.mp hchain
  refine List.isChain_append.mpr ⟨hbefore, ?_, ?_⟩
  · rw [List.isChain_cons] at hafter ⊢
    exact hafter
  · intro left _ right hright
    cases hright
    exact nofun

/-- Tokens of a kind and a text are related wherever they stand. -/
def Placeless (f : Lr.Correspondence attribution attribution) : Prop :=
  ∀ kind text place other, f.token kind ⟨kind, text, place⟩ ⟨kind, text, other⟩

theorem Placeless.words_placed {f : Lr.Correspondence attribution attribution}
    (hplaceless : Placeless f) (pieces : List Piece) (place other : Place) :
    f.Words (placed place pieces) (placed other pieces) := by
  induction pieces generalizing place other with
  | nil => exact .nil
  | cons piece pieces ih => exact .cons (hplaceless _ _ _ _) (ih _ _)

/-- Where a quoted text stands in a script that parses, another one may stand.  If their
tokens are related, so is what the script means. -/
theorem Parsed.exists_related {f : Lr.Correspondence attribution attribution}
    (hplaceless : Placeless f) (hliteral : IsLiteral other.toList)
    (htoken : ∀ place, f.token .text ⟨.text, text, place⟩ ⟨.text, other, place⟩)
    {routines : List Routine}
    (hparsed : Parsed (before ++ ⟨gap, .text, text⟩ :: after) last routines) :
    ∃ found, Parsed (before ++ ⟨gap, .text, other⟩ :: after) last found ∧
      f.meaning .program routines found := by
  have hwords : f.Words (placed {} (before ++ ⟨gap, .text, text⟩ :: after))
      (placed {} (before ++ ⟨gap, .text, other⟩ :: after)) := by
    rw [placed_append, placed_append]
    refine List.rel_append (hplaceless.words_placed before _ _) ?_
    exact .cons (htoken _) (hplaceless.words_placed after _ _)
  obtain ⟨found, hfound, hderives⟩ := hparsed.derives.exists_related f hwords
  have hspaced := hparsed.spaced
  exact ⟨found, ⟨⟨hspaced.cut.replace hliteral, hspaced.layout⟩,
    isChain_replace hparsed.unambiguous, hderives⟩, hfound⟩

end Replaced

/-- Forget the places, and how texts are quoted. -/
def forgetting : Lr.Relabelling attribution where
  token kind token :=
    ⟨token.kind, if kind = .text then quote (unquote token.text) else token.text, ⟨0, 0, 0⟩⟩
  meaning := mapRoutines Routine.unplaced
  kind_token _ _ := rfl
  interpret p meanings := by
    cases p with
    | nextRoutine =>
        obtain ⟨routines, routine, -⟩ := meanings
        exact List.map_concat
    | text =>
        obtain ⟨literal, -⟩ := meanings
        exact congrArg Value.text (unquote_quote (unquote literal.text)).symm
    | _ => rfl

/-- Any quoted text may stand for another of the same content. -/
theorem Parsed.requote {before after : List Piece} {gap : List Char} {text other : String}
    {last : List Char} {routines : List Routine}
    (hparsed : Parsed (before ++ ⟨gap, .text, text⟩ :: after) last routines)
    (hliteral : IsLiteral other.toList) (hcontent : unquote text = unquote other) :
    ∃ found,
      parse (String.ofList (written (before ++ ⟨gap, .text, other⟩ :: after) last)) = .ok found ∧
        found.map Routine.unplaced = routines.map Routine.unplaced := by
  have hplaceless : Placeless forgetting.kernel := fun _ _ _ _ => rfl
  obtain ⟨found, hfound, hsame⟩ := hparsed.exists_related hplaceless hliteral fun _ =>
    congrArg (fun content => Token.mk .text (quote content) ⟨0, 0, 0⟩) hcontent
  exact ⟨found, hfound.parse_eq, hsame.symm⟩

theorem Parsed.isLiteral {before after : List Piece} {piece : Piece} {last : List Char}
    {routines : List Routine} (hparsed : Parsed (before ++ piece :: after) last routines)
    (hkind : piece.kind = .text) : IsLiteral piece.text.toList := by
  have hlexeme := hparsed.spaced.cut.isLexeme (List.mem_append_right before List.mem_cons_self)
  rwa [hkind] at hlexeme

/-! ### A text that is said -/

def beforeSaid : List Piece :=
  eventOpening ++ [⟨[], .player, "player"⟩, ⟨[], .dot, "."⟩, ⟨[], .ident, "say"⟩,
    ⟨[], .leftParen, "("⟩]

/-- A text with a needless backslash, a protected quote and a brace. -/
def said : Piece :=
  ⟨[], .text, "\"\\q\\\"\x7b\""⟩

def afterSaid : List Piece :=
  [⟨[], .rightParen, ")"⟩, ⟨[], .rightBrace, "\x7d"⟩]

/-- The event in which a player says a quoted text. -/
theorem parsed_saying {raw : List Char} {content : String} (hquotes : Quotes raw content.toList) :
    Parsed (beforeSaid ++ ⟨[], .text, enquote raw⟩ :: afterSaid) []
      [⟨.event, "join", [.action .player "say" [.text content]], 1, 14⟩] := by
  have hsay : IsName "say".toList :=
    .intro (by decide) (List.all_eq_true.mp (by decide)) (by decide)
  have hliteral := hquotes.isLiteral
  have hcut : Cut (beforeSaid ++ ⟨[], .text, enquote raw⟩ :: afterSaid) [] :=
    (cut_eventOpening _).append (.cons .nil rfl nofun (.cons .nil rfl nofun
      (.cons .nil hsay nofun (.cons .nil rfl nofun
        (.cons .nil hliteral (fun hslash => absurd hslash hliteral.ne_slash)
          (.cons .nil rfl nofun (.cons .nil rfl nofun .nil)))))))
  obtain ⟨routine, hroutine, rfl⟩ : ∃ routine,
      SpellsRoutine routine (placed {} (beforeSaid ++ ⟨[], .text, enquote raw⟩ :: afterSaid)) ∧
        routine = ⟨.event, "join", [.action .player "say" [.text content]], 1, 14⟩ :=
    ⟨_, .event rfl rfl rfl rfl (.statements rfl (.action (.player rfl) rfl rfl
      (.items rfl (.text rfl (toList_enquote raw) hquotes) .nil rfl)) .nil .absent rfl), rfl⟩
  have hspells := Spells.cons hroutine .nil
  rw [List.append_nil] at hspells
  exact ⟨⟨hcut, .closed .nil⟩, by simp [beforeSaid, afterSaid, eventOpening, Unambiguous],
    hspells.derived⟩

theorem parsed_said : ∃ routines, Parsed (beforeSaid ++ said :: afterSaid) [] routines :=
  have hquotes : Quotes ['\\', 'q', '\\', '"', '\x7b'] "q\"\x7b".toList :=
    .escape (by decide) (.escape (by decide) (.plain (by decide) (by decide) (by decide) .nil))
  ⟨_, parsed_saying hquotes⟩

/-! ### Writing, reading and scanning agree -/

/-- Quoted texts are written, read and passed over alike: every quoted form of a text is
one token in front of anything, which the scanner passes over and which stands for the
text.  Every quoted text of a script that parses ends at its first closing quote, and a
quoted form of its content may stand in its place. -/
theorem quoted_texts_agree :
    (∀ content : String, (∃ raw, QuotedAs content.toList raw) ∧
      ∀ raw, QuotedAs content.toList raw →
        Delimited (enquote raw) ∧ unquote (enquote raw) = content) ∧
    ∀ source routines, parse source = .ok routines →
      (∃ pieces last, source.toList = written pieces last ∧ Parsed pieces last routines) ∧
      ∀ before piece after last, source.toList = written (before ++ piece :: after) last →
        Parsed (before ++ piece :: after) last routines → piece.kind = .text →
          EndsInTime piece.text ∧
          ∀ raw, QuotedAs (unquote piece.text).toList raw →
            ∃ found, parse (String.ofList (written
                (before ++ { piece with text := enquote raw } :: after) last)) = .ok found ∧
              found.map Routine.unplaced = routines.map Routine.unplaced := by
  constructor
  · intro content
    refine ⟨⟨_, quotedAs_flatMap content.toList⟩, fun raw hquoted => ?_⟩
    exact ⟨hquoted.quotes.isLiteral.delimited, hquoted.unquote_enquote⟩
  · intro source routines hparse
    refine ⟨parse_eq_ok_iff.mp hparse, fun before piece after last _ hparsed hkind => ?_⟩
    refine ⟨(hparsed.isLiteral hkind).endsInTime, fun raw hquoted => ?_⟩
    obtain ⟨gap, kind, text⟩ := piece
    obtain rfl : kind = .text := hkind
    exact hparsed.requote hquoted.quotes.isLiteral hquoted.unquote_enquote.symm

theorem quoted_texts_agree_said :
    (∃ stack : Stack, Lr.Stack.Shifts table [] (placed {} beforeSaid) stack ∧
      Cursor.read ⟨{}, "\"\\\\\"\"\x7d".toList⟩ (admitted stack) =
        .token ⟨.text, "\"\\\\\"", {}⟩ ⟨⟨4, 1, 5⟩, "\"\x7d".toList⟩) ∧
    ∃ routines, parse "event player.join \x7bplayer.say(\"\\q\\\"\x7b\")\x7d" = .ok routines ∧
      ∃ found, parse "event player.join \x7bplayer.say(\"q\\\"\x7b\")\x7d" = .ok found ∧
        found.map Routine.unplaced = routines.map Routine.unplaced := by
  constructor
  · obtain ⟨stack, hshifts, hstates⟩ := exists_shifts_of_states beforeSaid
      [85, 66, 46, 34, 20, 16, 13, 10, 6, 0] (by decide +kernel)
    have htext : .text ∈ admitted stack := by
      rw [admitted, lookaheads, Lr.Stack.top_eq_of_states hstates, row_eq]
      decide +kernel
    have hquoted : QuotedAs "\\".toList (['\\', '\\'] ++ []) := .cons (by decide) .nil
    have hread := ((quoted_texts_agree.1 "\\").2 _ hquoted).1.read_eq "\"\x7d".toList {} stack htext
    exact ⟨stack, hshifts, hread⟩
  · obtain ⟨routines, hparsed⟩ := parsed_said
    have hparse := hparsed.parse_eq
    have hquoted : QuotedAs ['q', '"', '\x7b'] (['q'] ++ (['\\', '"'] ++ (['\x7b'] ++ []))) :=
      .cons (by decide) (.cons (by decide) (.cons (by decide) .nil))
    have hsame := ((quoted_texts_agree.2 _ routines hparse).2 beforeSaid said afterSaid []
      String.toList_ofList hparsed rfl).2 _ hquoted
    exact ⟨routines, hparse, hsame⟩

end Blockscript.Script
