import Blockscript.Proofs.Script.Parsing
import Mathlib.Data.List.Chain

/-!
How the pieces that a parse has read can go on.  They always begin some script
that parses, and a piece that follows them in any script is one that the machine
shifts.
-/

namespace Blockscript.Script

/-! ### Sample lexemes -/

def Terminal.sample : Terminal → String
  | scopePrefix => "local:"
  | number => "0"
  | ident => "x"
  | text => "\"\""
  | operator => "="
  | t => t.fixedText

theorem Terminal.isLexeme_sample (t : Terminal) : t.IsLexeme t.sample.toList := by
  cases t with
  | scopePrefix => exact ⟨"local", by decide, rfl⟩
  | number =>
      have hdigit : IsDigits ['0'] := ⟨by decide, List.all_eq_true.mp (by decide)⟩
      exact .intro (.inl rfl) (.whole hdigit) (.inl rfl)
  | ident => exact .intro (by decide) nofun (by decide)
  | text => exact .intro .nil
  | operator => exact ⟨'=', by decide, rfl⟩
  | _ => rfl

def Piece.sample (kind : Terminal) : Piece :=
  .ofText kind kind.sample

theorem cut_samples (kinds : List Terminal) :
    Cut (kinds.map Piece.sample) [] ∧
      (written (kinds.map Piece.sample) []).head? ≠ some '/' := by
  induction kinds with
  | nil => exact ⟨.nil, nofun⟩
  | cons kind kinds ih =>
      refine ⟨.cons (.blank rfl .nil) kind.isLexeme_sample (fun _ => ih.2) ih.1, ?_⟩
      simp [written, Piece.sample, Piece.ofText]

/-- A sample can stand behind any piece. -/
theorem unambiguous_sample (left : Piece) (kind : Terminal) :
    Unambiguous left (.sample kind) := by
  intro _ hident
  have hkind : kind = .ident := hident
  subst hkind
  decide

theorem isChain_append_samples {pieces : List Piece} (hchain : pieces.IsChain Unambiguous)
    (kinds : List Terminal) : (pieces ++ kinds.map Piece.sample).IsChain Unambiguous := by
  induction kinds generalizing pieces with
  | nil => rwa [List.map_nil, List.append_nil]
  | cons kind kinds ih =>
      have hlonger : (pieces ++ [Piece.sample kind]).IsChain Unambiguous := by
        rw [List.isChain_append]
        exact ⟨hchain, .singleton _, fun left _ right hright => by
          cases hright
          exact unambiguous_sample left kind⟩
      simpa using ih hlonger

/-! ### What has been read can go on -/

theorem map_kind_samples (place : Place) (kinds : List Terminal) :
    (placed place (kinds.map Piece.sample)).map Token.kind = kinds := by
  rw [map_kind_placed, List.map_map]
  exact List.map_id kinds

/-- Pieces that go on with samples make up a script when they derive routines. -/
theorem Cut.parsed_samples {pieces : List Piece} {rest : List Char} (hcut : Cut pieces rest)
    (hchain : pieces.IsChain Unambiguous) {kinds : List Terminal} {routines : List Routine}
    (hderives : Lr.Derives attribution (.rule .program) routines
      (placed {} (pieces ++ kinds.map Piece.sample))) :
    Parsed (pieces ++ kinds.map Piece.sample) [] routines := by
  obtain ⟨hmore, hhead⟩ := cut_samples kinds
  have hall := (hcut.of_rest fun _ => hhead).append hmore
  exact ⟨⟨hall, .closed .nil⟩, isChain_append_samples hchain kinds, hderives⟩

/-- The pieces read by a parse begin a script that parses. -/
theorem Cut.exists_parsed {pieces : List Piece} {rest : List Char} (hcut : Cut pieces rest)
    (hchain : pieces.IsChain Unambiguous) {stack : Stack}
    (hshifts : Lr.Stack.Shifts table [] (placed {} pieces) stack) :
    ∃ more routines, Parsed (pieces ++ more) [] routines := by
  have htraced := hshifts.traced .nil
  have hspans : Lr.Stack.Spans stack (placed {} pieces) := hshifts.spans mem_productions .nil
  obtain ⟨kinds, hending⟩ := htraced.exists_ending grounded productive mem_productions hspans
  obtain ⟨routines, hderives⟩ := hending
    (placed (({} : Place).after (written pieces [])) (kinds.map Piece.sample))
    (map_kind_samples _ kinds)
  refine ⟨kinds.map Piece.sample, routines, hcut.parsed_samples hchain ?_⟩
  rw [placed_append]
  exact hderives

theorem Cut.isLexeme {pieces : List Piece} {rest : List Char} (hcut : Cut pieces rest)
    {piece : Piece} (hpiece : piece ∈ pieces) : piece.kind.IsLexeme piece.text.toList := by
  induction hcut with
  | nil => contradiction
  | cons hgap hlexeme hslash hrest ih =>
      rcases List.mem_cons.mp hpiece with rfl | hpiece
      · exact hlexeme
      · exact ih hpiece

/-- The piece follows pieces of these kinds in some script. -/
def Follows (pieces : List Piece) (piece : Piece) : Prop :=
  ∃ before after last routines, Parsed (before ++ piece :: after) last routines ∧
    before.map Piece.kind = pieces.map Piece.kind

/-- The machine reads the pieces of a script in front of one of them, and shifts
that one. -/
theorem Parsed.exists_shifts {before after : List Piece} {piece : Piece} {last : List Char}
    {routines : List Routine} (hparsed : Parsed (before ++ piece :: after) last routines) :
    ∃ stack next token, Lr.Stack.Shifts table [] (placed {} before) stack ∧
      token.kind = piece.kind ∧ Lr.Stack.Feeds table stack (some token) (.shifted next) ∧
      piece.NamedBeside (admitted stack) := by
  have haccepts := hparsed.derives.accepts_start saturated complete rfl
  rw [placed_append] at haccepts
  obtain ⟨stack, hshifts, haccepts⟩ := haccepts.exists_shifts
  cases haccepts with
  | read hfeeds _ =>
      refine ⟨stack, _, _, hshifts, rfl, hfeeds, ?_⟩
      rcases List.eq_nil_or_concat' before with rfl | ⟨first, left, rfl⟩
      · cases hshifts
        exact namedBeside_start piece
      · have hchain := hparsed.unambiguous
        rw [List.append_assoc, List.singleton_append, List.isChain_append_cons_cons] at hchain
        rw [placed_append] at hshifts
        obtain ⟨middle, -, hlast⟩ := hshifts.exists_split
        cases hlast with
        | read hleft hnil =>
            cases hnil
            exact hchain.2.1.namedBeside (sequel_of_feeds hleft) (orderly_admitted stack)
              (mem_admitted_of_feeds hfeeds)

/-- A piece that follows what has been read is admitted and shifted. -/
theorem Follows.feeds {pieces : List Piece} {piece : Piece} (hfollows : Follows pieces piece)
    {stack : Stack} (hshifts : Lr.Stack.Shifts table [] (placed {} pieces) stack) :
    piece.kind.IsLexeme piece.text.toList ∧ piece.NamedBeside (admitted stack) ∧
      ∀ token : Token, token.kind = piece.kind →
        ∃ next, Lr.Stack.Feeds table stack (some token) (.shifted next) := by
  obtain ⟨before, after, last, routines, hparsed, hkinds⟩ := hfollows
  obtain ⟨other, next, seen, hbefore, hseen, hfeeds, hnamed⟩ := hparsed.exists_shifts
  have houtline : other.outline = stack.outline := by
    refine hbefore.outline_eq descending rfl hshifts ?_
    exact (map_kind_placed _ _).trans (hkinds.trans (map_kind_placed _ _).symm)
  refine ⟨?_, ?_, ?_⟩
  · exact hparsed.spaced.cut.isLexeme (by simp)
  · have htop := Lr.Stack.top_eq_of_outline houtline
    rwa [admitted, lookaheads, htop] at hnamed
  · intro token hkind
    have hsame : (some seen).map attribution.kind = (some token).map attribution.kind :=
      congrArg some (hseen.trans hkind.symm)
    obtain ⟨result, hresult, halike⟩ := hfeeds.exists_alike houtline hsame
    cases result with
    | shifted next => exact ⟨next, hresult⟩
    | _ => contradiction

end Blockscript.Script
