import Blockscript.Proofs.Script.Composing

/-!
Parsing reads what is written.  Every spelling of writable routines, in any
layout, is parsed to them; and whatever is parsed is spelled by the lexemes of
the script.
-/

namespace Blockscript.Script

theorem Cut.lexical {pieces : List Piece} {rest : List Char} (hcut : Cut pieces rest)
    (place : Place) : Lexical (placed place pieces) := by
  induction hcut generalizing place with
  | nil => exact List.forall_mem_nil _
  | cons _ hlexeme _ _ ih => exact List.forall_mem_cons.mpr ⟨hlexeme, ih _⟩

/-- A script parses to some routines exactly when it is written in pieces that
spell them. -/
theorem parse_eq_ok_iff_spells {source : String} {routines : List Routine} :
    parse source = .ok routines ↔
      ∃ pieces last, source.toList = written pieces last ∧ Spaced pieces last ∧
        pieces.IsChain Unambiguous ∧ Spells routines (placed {} pieces) := by
  rw [parse_eq_ok_iff]
  constructor
  · rintro ⟨pieces, last, hsource, hspaced, hchain, hderives⟩
    have hspells := (derived_program_iff (hspaced.cut.lexical {})).mp hderives
    exact ⟨pieces, last, hsource, hspaced, hchain, hspells⟩
  · rintro ⟨pieces, last, hsource, hspaced, hchain, hspells⟩
    exact ⟨pieces, last, hsource, hspaced, hchain, hspells.derived⟩

/-! ### A script -/

/-- An event that calls a function, with a comment before it. -/
def greeting : List Piece :=
  [⟨"// hello\n".toList, .event, "event"⟩, ⟨[' '], .player, "player"⟩, ⟨[], .dot, "."⟩,
   ⟨[], .ident, "join"⟩, ⟨[' '], .leftBrace, "\x7b"⟩, ⟨[], .call, "call"⟩,
   ⟨[' '], .ident, "loc"⟩, ⟨[], .leftParen, "("⟩, ⟨[], .rightParen, ")"⟩,
   ⟨[], .semicolon, ";"⟩, ⟨[], .rightBrace, "\x7d"⟩]

def greetingRoutine : Routine :=
  ⟨.event, "join", [.call "loc" false], 2, 14⟩

theorem written_greeting :
    String.ofList (written greeting []) = "// hello\nevent player.join \x7bcall loc();\x7d" := by
  decide

theorem spaced_greeting : Spaced greeting [] := by
  have hcomment : IsLayout ('/' :: '/' :: (" hello".toList ++ '\n' :: [])) :=
    .comment (by decide) .nil
  have hblank : IsLayout [' '] := .blank (by decide) .nil
  have hjoin : IsName "join".toList :=
    .intro (by decide) (List.all_eq_true.mp (by decide)) (by decide)
  have hloc : IsName "loc".toList :=
    .intro (by decide) (List.all_eq_true.mp (by decide)) (by decide)
  refine ⟨?_, .closed .nil⟩
  exact .cons hcomment rfl nofun (.cons hblank rfl nofun (.cons .nil rfl nofun
    (.cons .nil hjoin nofun (.cons hblank rfl nofun (.cons .nil rfl nofun
      (.cons hblank hloc nofun (.cons .nil rfl nofun (.cons .nil rfl nofun
        (.cons .nil rfl nofun (.cons .nil rfl nofun .nil))))))))))

theorem spells_greeting : Spells [greetingRoutine] (placed {} greeting) := by
  have hroutine : ∃ routine, SpellsRoutine routine (placed {} greeting) ∧
      routine = greetingRoutine :=
    ⟨_, .event rfl rfl rfl rfl
      (.statements rfl (.call rfl rfl rfl rfl) .nil (.present rfl) rfl), rfl⟩
  obtain ⟨routine, hroutine, rfl⟩ := hroutine
  have hall := Spells.cons hroutine .nil
  rwa [List.append_nil] at hall

theorem isWritable_greeting : ∀ routine ∈ [greetingRoutine], routine.IsWritable :=
  spells_greeting.isWritable (spaced_greeting.cut.lexical {})

/-! ### Written scripts parse -/

/-- Writable routines have a spelling, and every spelling of them in any layout is
parsed to them, each at the place of its name. -/
theorem parse_written (routines : List Routine)
    (hwritable : ∀ routine ∈ routines, routine.IsWritable) :
    (∃ pieces last found, Spaced pieces last ∧ pieces.IsChain Unambiguous ∧
      Spells found (placed {} pieces) ∧
      found.map Routine.unplaced = routines.map Routine.unplaced) ∧
    ∀ pieces last found, Spaced pieces last → pieces.IsChain Unambiguous →
      Spells found (placed {} pieces) →
      found.map Routine.unplaced = routines.map Routine.unplaced →
      parse (String.ofList (written pieces last)) = .ok found := by
  constructor
  · obtain ⟨pieces, hcomposed, hspells⟩ := exists_script hwritable
    obtain ⟨found, hfound, hsame⟩ := hspells {}
    exact ⟨pieces, [], found, ⟨hcomposed.cut, .closed .nil⟩, hcomposed.unambiguous, hfound, hsame⟩
  · intro pieces last found hspaced hchain hspells _
    exact parse_eq_ok_iff_spells.mpr
      ⟨pieces, last, String.toList_ofList, hspaced, hchain, hspells⟩

theorem parse_written_greeting :
    (∀ routine ∈ [greetingRoutine], routine.IsWritable) ∧
      parse "// hello\nevent player.join \x7bcall loc();\x7d" = .ok [greetingRoutine] := by
  have hparse := (parse_written [greetingRoutine] isWritable_greeting).2 greeting []
    [greetingRoutine] spaced_greeting (by decide) spells_greeting rfl
  rw [written_greeting] at hparse
  exact ⟨isWritable_greeting, hparse⟩

/-! ### Parsed scripts are written -/

/-- A script that parses is written in lexemes with layout between them, and these
derive and spell the routines that it is parsed to, which are writable. -/
theorem written_of_parse {source : String} {routines : List Routine}
    (hparse : parse source = .ok routines) :
    ∃ pieces last, source.toList = written pieces last ∧ Spaced pieces last ∧
      Lr.Derives attribution (.rule .program) routines (placed {} pieces) ∧
      Spells routines (placed {} pieces) ∧ ∀ routine ∈ routines, routine.IsWritable := by
  obtain ⟨pieces, last, hsource, hspaced, -, hspells⟩ := parse_eq_ok_iff_spells.mp hparse
  exact ⟨pieces, last, hsource, hspaced, hspells.derived, hspells,
    hspells.isWritable (hspaced.cut.lexical {})⟩

theorem written_of_parse_greeting :
    parse "// hello\nevent player.join \x7bcall loc();\x7d" = .ok [greetingRoutine] ∧
      ∃ pieces last, "// hello\nevent player.join \x7bcall loc();\x7d".toList =
          written pieces last ∧ Spaced pieces last ∧
        Lr.Derives attribution (.rule .program) [greetingRoutine] (placed {} pieces) ∧
        Spells [greetingRoutine] (placed {} pieces) ∧
        ∀ routine ∈ [greetingRoutine], routine.IsWritable := by
  have hparse : parse "// hello\nevent player.join \x7bcall loc();\x7d" =
      .ok [greetingRoutine] := by
    rw [← written_greeting, parse_eq_ok_iff_spells]
    exact ⟨greeting, [], String.toList_ofList, spaced_greeting, by decide, spells_greeting⟩
  exact ⟨hparse, written_of_parse hparse⟩

end Blockscript.Script
