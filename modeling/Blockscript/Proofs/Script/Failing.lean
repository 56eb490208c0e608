import Blockscript.Proofs.Script.Continuing
import Blockscript.Script.Diagnosis

/-!
Scripts that do not parse.  The parse stops at the first token that cannot follow
the ones before it, and this is what is reported: some script begins with the
tokens read so far, and none goes on with the token that was met.
-/

namespace Blockscript.Script

/-! ### The round that refuses -/

/-- Why a round refuses. -/
inductive Stage.Refuses (stage : Stage) : Failure → Prop
  | atEnd {left : Stack} (hread : stage.cursor.read (admitted stage.stack) = .finished)
      (hfeeds : Lr.Stack.Feeds table stage.stack none (.rejected left)) :
      Refuses stage ⟨.endOfInput, stage.last, lookaheads left, left⟩
  | rejected {token : Token} {next : Cursor} {left : Stack}
      (hread : stage.cursor.read (admitted stage.stack) = .token token next)
      (hfeeds : Lr.Stack.Feeds table stage.stack (some token) (.rejected left)) :
      Refuses stage ⟨.token token.text, token.place, lookaheads left, left⟩
  | unexpected {token : Token}
      (hread : stage.cursor.read (admitted stage.stack) = .unexpected token) :
      Refuses stage ⟨.token token.text, token.place,
        (tried (admitted stage.stack)).map some, stage.stack⟩
  | unreadable {c : Char} {place : Place}
      (hread : stage.cursor.read (admitted stage.stack) = .unreadable c place) :
      Refuses stage ⟨.character c, place, (tried (admitted stage.stack)).map some, stage.stack⟩

/-- A machine that has not derailed refuses for one of these reasons. -/
theorem Stage.refuses_of_round {stage : Stage} {failure : Failure}
    (htraced : Lr.Stack.Traced table stage.stack) (hround : stage.round = .refused failure) :
    stage.Refuses failure := by
  unfold Stage.round Script.round at hround
  split at hround
  · rename_i hread
    obtain ⟨outcome, hfeeds⟩ := htraced.exists_feeds grounded descending none
    rw [hfeeds.feed_eq descending] at hround
    rcases hfeeds.cases_outcome with ⟨left, rfl⟩ | ⟨-, meaning, rfl⟩ | ⟨token, next, h, -⟩
    · cases hround
      exact .atEnd hread hfeeds
    · contradiction
    · contradiction
  · rename_i token next hread
    obtain ⟨outcome, hfeeds⟩ := htraced.exists_feeds grounded descending (some token)
    rw [hfeeds.feed_eq descending] at hround
    rcases hfeeds.cases_outcome with ⟨left, rfl⟩ | ⟨h, -⟩ | ⟨-, next, -, rfl⟩
    · cases hround
      exact .rejected hread hfeeds
    · contradiction
    · contradiction
  · rename_i token hread
    cases hround
    exact .unexpected hread
  · rename_i c place hread
    cases hround
    exact .unreadable hread

theorem Stage.Refuses.round_eq {stage : Stage} {failure : Failure}
    (hrefuses : stage.Refuses failure) : stage.round = .refused failure := by
  unfold Stage.round Script.round
  cases hrefuses with
  | atEnd hread hfeeds =>
      rw [hread, hfeeds.feed_eq descending]
      rfl
  | rejected hread hfeeds =>
      rw [hread]
      exact congrArg (Round.atToken _ _) (hfeeds.feed_eq descending)
  | unexpected hread => rw [hread]
  | unreadable hread => rw [hread]

/-- A round that refuses leaves a stack of the same tokens. -/
theorem Stage.Refuses.spans {stage : Stage} {failure : Failure} (hrefuses : stage.Refuses failure)
    {word : List Token} (hspans : Lr.Stack.Spans stage.stack word) :
    Lr.Stack.Spans failure.stack word := by
  cases hrefuses with
  | atEnd hread hfeeds => exact hfeeds.spans mem_productions hspans
  | rejected hread hfeeds => exact hfeeds.spans mem_productions hspans
  | unexpected hread => exact hspans
  | unreadable hread => exact hspans

/-- A failed parse has read pieces of its script and refused what comes next. -/
theorem exists_refuses_of_parse {source : String} {failure : Failure}
    (hparse : parse source = .error failure) :
    ∃ pieces stage, (Stage.initial source).Reads (placed {} pieces) stage ∧
      source.toList = written pieces stage.cursor.rest ∧
      stage.cursor.place = ({} : Place).after (written pieces []) ∧
      Cut pieces stage.cursor.rest ∧ pieces.IsChain Unambiguous ∧ stage.Refuses failure := by
  obtain ⟨pieces, stage, hreads, hsource, hplace, hcut, hchain, hround⟩ :=
    exists_reads_of_parse source
  rw [hparse] at hround
  have htraced := hreads.shifts.traced .nil
  exact ⟨pieces, stage, hreads, hsource, hplace, hcut, hchain,
    stage.refuses_of_round htraced hround⟩

/-- The place of the last token is known. -/
theorem Stage.Reads.last_eq {stage final : Stage} {tokens : List Token}
    (hreads : stage.Reads tokens final) {token : Token} (htoken : tokens.getLast? = some token) :
    final.last = token.place := by
  induction hreads with
  | nil => contradiction
  | @cons stage final first tokens next behind hread hfeeds hrest ih =>
      cases tokens with
      | nil =>
          cases hrest
          cases htoken
          rfl
      | cons second tokens =>
          rw [List.getLast?_cons_cons] at htoken
          exact ih htoken

/-! ### The pieces before a failure -/

/-- A parse has read the pieces of its script and refuses what comes next. -/
def StopsBehind (source : String) (pieces : List Piece) (failure : Failure) : Prop :=
  ∃ stage, (Stage.initial source).Reads (placed {} pieces) stage ∧
    source.toList = written pieces stage.cursor.rest ∧ stage.round = .refused failure

theorem StopsBehind.parse_eq {source : String} {pieces : List Piece} {failure : Failure}
    (hstops : StopsBehind source pieces failure) : parse source = .error failure := by
  obtain ⟨stage, hreads, -, hround⟩ := hstops
  exact hreads.parse_eq hround

theorem exists_stopsBehind_of_parse {source : String} {failure : Failure}
    (hparse : parse source = .error failure) : ∃ pieces, StopsBehind source pieces failure := by
  obtain ⟨pieces, stage, hreads, hsource, -, -, -, hrefuses⟩ := exists_refuses_of_parse hparse
  exact ⟨pieces, stage, hreads, hsource, hrefuses.round_eq⟩

theorem StopsBehind.exists_refuses {source : String} {pieces : List Piece} {failure : Failure}
    (hstops : StopsBehind source pieces failure) :
    ∃ stage : Stage, Lr.Stack.Shifts table [] (placed {} pieces) stage.stack ∧
      stage.Refuses failure := by
  obtain ⟨stage, hreads, -, hround⟩ := hstops
  exact ⟨stage, hreads.shifts, stage.refuses_of_round (hreads.shifts.traced .nil) hround⟩

/-- The pieces that were read stand in the source as they were cut. -/
theorem StopsBehind.cut {source : String} {pieces : List Piece} {failure : Failure}
    (hstops : StopsBehind source pieces failure) :
    ∃ rest, Cut pieces rest ∧ pieces.IsChain Unambiguous := by
  obtain ⟨stage, hreads, hsource, -⟩ := hstops
  obtain ⟨others, hplaced, hwritten, -, hcut, hchain, -⟩ := hreads.exists_pieces
  obtain rfl : pieces = others := eq_of_placed_eq hplaced (hsource.symm.trans hwritten)
  exact ⟨_, hcut, hchain⟩

/-- The states that pieces lead to are computed from the rows. -/
theorem exists_shifts_of_states (pieces : List Piece) (states : List Nat)
    (hstates : (Lr.Stack.shiftAll? ⟨rows.toArray⟩ ([] : Stack) (placed {} pieces)).map
      Lr.Stack.states = some states) :
    ∃ stack, Lr.Stack.Shifts table ([] : Stack) (placed {} pieces) stack ∧
      stack.states = states := by
  rw [← table_eq, Option.map_eq_some_iff] at hstates
  obtain ⟨stack, hshifts, hstack⟩ := hstates
  exact ⟨stack, Lr.Stack.shifts_of_shiftAll? hshifts, hstack⟩

/-- A parse stops in the states that its pieces lead to if the token behind them is not
admitted there. -/
theorem exists_stopsBehind_of_states {source : String} {pieces : List Piece} {rest : List Char}
    (hcut : Cut pieces rest) (hchain : pieces.IsChain Unambiguous)
    (hlayout : ∀ c ∈ rest.head?, c = ' ') (hsource : source.toList = written pieces rest)
    {top : Nat} {states : List Nat}
    (hstates : (Lr.Stack.shiftAll? ⟨rows.toArray⟩ ([] : Stack) (placed {} pieces)).map
      Lr.Stack.states = some (top :: states))
    (token : Token)
    (hread : Cursor.read ⟨({} : Place).after (written pieces []), rest⟩
      ((Lr.Row.lookaheads (rows[top]?.getD {})).filterMap id) = .unexpected token) :
    ∃ failure, StopsBehind source pieces failure ∧ failure.states = top :: states ∧
      failure.found = .token token.text ∧ failure.place = token.place := by
  obtain ⟨stack, hshifts, hstates⟩ := exists_shifts_of_states pieces _ hstates
  have hends : ∀ t : Terminal, t.Ends rest := fun t =>
    Terminal.ends_of_endedBy fun c hc => by
      rw [hlayout c hc]
      exact Terminal.endedBy_of_layout (.inl rfl) t
  obtain ⟨last, hreads⟩ := hcut.exists_reads hends hchain
    (fun piece _ => namedBeside_start piece) hshifts {}
  rw [← row_eq, ← Lr.Stack.top_eq_of_states hstates] at hread
  rw [← hsource] at hreads
  exact ⟨_, ⟨_, hreads, hsource, (Stage.Refuses.unexpected hread).round_eq⟩, hstates, rfl, rfl⟩

/-! ### Two actions without a separator -/

def eventOpening : List Piece :=
  [⟨[], .event, "event"⟩, ⟨[' '], .player, "player"⟩, ⟨[], .dot, "."⟩, ⟨[], .ident, "join"⟩,
    ⟨[' '], .leftBrace, "\x7b"⟩]

theorem cut_eventOpening (rest : List Char) : Cut eventOpening rest := by
  have hblank : IsLayout [' '] := .blank rfl .nil
  have hjoin : IsName "join".toList :=
    .intro (by decide) (List.all_eq_true.mp (by decide)) (by decide)
  exact .cons .nil rfl nofun (.cons hblank rfl nofun (.cons .nil rfl nofun
    (.cons .nil hjoin nofun (.cons hblank rfl nofun .nil))))

def unseparated : String :=
  "event player.join \x7b player.jump() player.jump() \x7d"

def firstAction : List Piece :=
  eventOpening ++ [⟨[' '], .player, "player"⟩, ⟨[], .dot, "."⟩, ⟨[], .ident, "jump"⟩,
    ⟨[], .leftParen, "("⟩, ⟨[], .rightParen, ")"⟩]

theorem cut_firstAction (rest : List Char) : Cut firstAction rest := by
  have hjump : IsName "jump".toList :=
    .intro (by decide) (List.all_eq_true.mp (by decide)) (by decide)
  exact (cut_eventOpening _).append (.cons (.blank rfl .nil) rfl nofun (.cons .nil rfl nofun
    (.cons .nil hjump nofun (.cons .nil rfl nofun (.cons .nil rfl nofun .nil)))))

/-- The second action is refused before the first is reduced. -/
theorem stopsBehind_firstAction : ∃ failure, StopsBehind unseparated firstAction failure ∧
    failure.states = [100, 85, 66, 46, 34, 20, 16, 13, 10, 6, 0] ∧
      failure.found = .token "player" ∧ failure.place = ⟨34, 1, 35⟩ :=
  exists_stopsBehind_of_states (cut_firstAction " player.jump() \x7d".toList) (by decide)
    (by simp) (by decide) (by decide +kernel) ⟨.player, "player", ⟨34, 1, 35⟩⟩ rfl

/-! ### What is reported -/

def Failure.reportedPlace (failure : Failure) (source : String) : Place :=
  match failure.found, unclosedBrace? source with
  | .endOfInput, some brace => brace
  | _, _ => failure.place

theorem Failure.reportedPlace_eq {failure : Failure} (hfound : failure.found ≠ .endOfInput)
    (source : String) : failure.reportedPlace source = failure.place := by
  unfold Failure.reportedPlace
  split
  · contradiction
  · rfl

theorem Failure.whereabouts_problem (failure : Failure) (source : List Char) :
    failure.problem.whereabouts source =
      ((failure.place.line : Int), Mark.known failure.place.column) := by
  have hline : ¬ (failure.place.line : Int) < 0 := by omega
  simp only [Problem.whereabouts, Failure.problem, hline, ↓reduceIte]

/-- A report names the place, the token that was met, and what was expected. -/
theorem Failure.report_eq (failure : Failure) (source : String) :
    (failure.report source).line = (failure.reportedPlace source).line ∧
      (failure.report source).column = .known (failure.reportedPlace source).column ∧
      (failure.report source).token = some failure.foundText ∧
      (failure.report source).expected = failure.problem.sortedExpected := by
  have hplain : ∀ rule, (failure.problem.report source rule).line = failure.place.line ∧
      (failure.problem.report source rule).column = .known failure.place.column := by
    intro rule
    rw [Problem.report, failure.whereabouts_problem]
    exact ⟨rfl, rfl⟩
  unfold Failure.report Failure.reportedPlace
  cases failure.found with
  | endOfInput =>
      cases unclosedBrace? source with
      | none => exact ⟨(hplain _).1, (hplain _).2, rfl, rfl⟩
      | some brace => exact ⟨rfl, rfl, rfl, rfl⟩
  | token text => exact ⟨(hplain _).1, (hplain _).2, rfl, rfl⟩
  | character c => exact ⟨(hplain _).1, (hplain _).2, rfl, rfl⟩

/-! ### The first impossible token -/

/-- What follows the pieces in no script: a token of this text, nor, where no token
is read at all, any token that begins there. -/
structure Impossible (pieces : List Piece) (text after : List Char) : Prop where
  token : ∀ piece, Follows pieces piece → piece.text.toList ≠ text
  begun : (∀ t : Terminal, t.split? (text ++ after) = none) →
    ∀ piece, Follows pieces piece → ¬ piece.text.toList <+: text ++ after

/-- Where no terminal reads anything, no lexeme stands. -/
theorem Terminal.IsLexeme.not_prefix_of_unread {t : Terminal} {lexeme text : List Char}
    (hlexeme : t.IsLexeme lexeme) (hnone : ∀ u ∈ tried Terminal.all, u.split? text = none) :
    ¬ lexeme <+: text := by
  rintro ⟨rest, rfl⟩
  obtain ⟨u, hu, hread⟩ := hlexeme.exists_split? rest
  exact hread (hnone u hu)

theorem impossible_of_token {pieces : List Piece} {stack : Stack}
    (hshifts : Lr.Stack.Shifts table [] (placed {} pieces) stack) {text after : List Char}
    (htoken : ∀ piece, Follows pieces piece → piece.text.toList ≠ text) :
    Impossible pieces text after where
  token := htoken
  begun hnone _ hfollows := (hfollows.feeds hshifts).1.not_prefix_of_unread fun u _ => hnone u

/-- A token that the machine rejects follows in no script. -/
theorem Follows.text_ne_of_rejected {pieces : List Piece} {piece : Piece}
    (hfollows : Follows pieces piece) {stack left : Stack}
    (hshifts : Lr.Stack.Shifts table [] (placed {} pieces) stack) {cursor next : Cursor}
    {token : Token} (hread : cursor.read (admitted stack) = .token token next)
    (hrejects : Lr.Stack.Feeds table stack (some token) (.rejected left)) :
    piece.text ≠ token.text := by
  intro htext
  obtain ⟨hlexeme, hnamed, hfeeds⟩ := hfollows.feeds hshifts
  obtain ⟨-, lexeme, -, -, hfound, -, hfoundText, -, -, hname⟩ := Cursor.read_eq_token hread
  have hadmitted : piece.kind ∈ admitted stack := by
    obtain ⟨next, hshifted⟩ := hfeeds ⟨piece.kind, piece.text, {}⟩ rfl
    exact mem_admitted_of_feeds hshifted
  rw [htext, hfoundText, String.toList_ofList] at hlexeme
  rcases hlexeme.kind_eq hfound with hkind | ⟨hsoft, hident⟩ | ⟨hsoft, hident⟩
  · obtain ⟨next, hshifted⟩ := hfeeds token hkind.symm
    have hsame := hshifted.unique descending hrejects
    contradiction
  · -- A name that is a soft word is not read as a name where the word is admitted.
    apply hname hident piece.kind hadmitted
    rw [hfoundText]
    exact softWord?_of_isLexeme hsoft hlexeme
  · apply hnamed hident token.kind (Cursor.kind_mem_of_token? (Cursor.read_eq_token_iff.mp hread))
    rw [htext, hfoundText]
    exact softWord?_of_isLexeme hsoft hfound

/-- A token that the admitted terminals do not read follows in no script. -/
theorem Follows.text_ne_of_unexpected {pieces : List Piece} {piece : Piece}
    (hfollows : Follows pieces piece) {stack : Stack}
    (hshifts : Lr.Stack.Shifts table [] (placed {} pieces) stack) {cursor : Cursor}
    {gap text after : List Char} (hstuck : Stuck cursor (admitted stack) gap (text ++ after))
    {t : Terminal} (ht : t ∈ tried Terminal.all)
    (hread : t.split? (text ++ after) = some (text, after)) : piece.text.toList ≠ text := by
  rintro rfl
  obtain ⟨hlexeme, -, hfeeds⟩ := hfollows.feeds hshifts
  obtain ⟨next, hshifted⟩ := hfeeds ⟨piece.kind, piece.text, {}⟩ rfl
  have hadmitted : piece.kind ∈ admitted stack := mem_admitted_of_feeds hshifted
  have hnone := hstuck.none_read _ (readAs_mem_tried hadmitted)
  have hreads : (readAs (admitted stack) piece.kind).IsLexeme piece.text.toList :=
    IsLexeme.readAs hlexeme
  have hsoft : t.isSoft = false := by
    have hboth := (mem_tried_iff.mp ht).2
    simpa [mem_all] using hboth
  rcases hreads.kind_eq (Terminal.split?_eq_some hread).2 with hkind | ⟨hword, -⟩ | ⟨hword, -⟩
  · rw [hkind, hread] at hnone
    contradiction
  · have hends : ∀ u : Terminal, u.isSoft = true → u.Ends after := by
      intro u hu
      cases u with
      | scopePrefix | number | ident => contradiction
      | _ => trivial
    rw [Terminal.split?_append hreads (hends _ hword)] at hnone
    contradiction
  · rw [hsoft] at hword
    contradiction

/-- The place and the text that a round refuses, if it is not the end of the script. -/
structure Failure.RefusedAt (failure : Failure) (pieces : List Piece) (rest : List Char)
    (gap text after : List Char) : Prop where
  split : rest = gap ++ (text ++ after)
  layout : IsLayout gap
  found : failure.foundText = String.ofList text
  place : failure.place = ({} : Place).after (written pieces gap)
  impossible : Impossible pieces text after

theorem Stage.Refuses.refusedAt {stage : Stage} {failure : Failure}
    (hrefuses : stage.Refuses failure) (hfound : failure.found ≠ .endOfInput)
    {pieces : List Piece} (hshifts : Lr.Stack.Shifts table [] (placed {} pieces) stage.stack)
    (hplace : stage.cursor.place = ({} : Place).after (written pieces [])) :
    ∃ gap text after, failure.RefusedAt pieces stage.cursor.rest gap text after := by
  have hbehind : ∀ gap, stage.cursor.place.after gap = ({} : Place).after (written pieces gap) := by
    intro gap
    rw [hplace, written_eq_append pieces gap, Place.after_append]
  cases hrefuses with
  | atEnd hread hfeeds => contradiction
  | rejected hread hfeeds =>
      obtain ⟨gap, lexeme, hrest, hgap, -, -, htext, hat, -, -⟩ := Cursor.read_eq_token hread
      refine ⟨gap, lexeme, _, hrest, hgap, htext, hat.trans (hbehind gap), ?_⟩
      apply impossible_of_token hshifts
      intro piece hfollows heq
      apply hfollows.text_ne_of_rejected hshifts hread hfeeds
      rw [htext, ← heq, String.ofList_toList]
  | unexpected hread =>
      obtain ⟨gap, after, hstuck, hat, t, ht, hsplit⟩ := Cursor.read_eq_unexpected hread
      refine ⟨gap, _, after, hstuck.split, hstuck.layout, String.ofList_toList.symm,
        hat.trans (hbehind gap), ?_⟩
      apply impossible_of_token hshifts
      intro piece hfollows
      exact hfollows.text_ne_of_unexpected hshifts hstuck ht hsplit
  | @unreadable c place hread =>
      obtain ⟨gap, after, hstuck, hat, hnone⟩ := Cursor.read_eq_unreadable hread
      refine ⟨gap, [c], after, hstuck.split, hstuck.layout, rfl, hat.trans (hbehind gap), ?_⟩
      apply impossible_of_token hshifts
      intro piece hfollows heq
      apply (hfollows.feeds hshifts).1.not_prefix_of_unread hnone
      rw [heq]
      exact List.prefix_append [c] after

theorem Terminal.IsLexeme.ne_endOfInputText {t : Terminal} {lexeme : List Char}
    (hlexeme : t.IsLexeme lexeme) : String.ofList lexeme ≠ endOfInputText := by
  intro htext
  obtain ⟨c, rest, rfl, hbegins⟩ := hlexeme.begins
  have hhead : endOfInputText.toList.head? = some '<' := by decide
  rw [← htext, String.toList_ofList] at hhead
  cases hhead
  have hall : ∀ t ∈ Terminal.all, t.begins '<' = false := by decide
  rw [hall t (mem_all t)] at hbegins
  contradiction

/-- Only the end of the input is reported as such. -/
theorem Stage.Refuses.foundText_eq_iff {stage : Stage} {failure : Failure}
    (hrefuses : stage.Refuses failure) :
    failure.foundText = endOfInputText ↔ failure.found = .endOfInput := by
  cases hrefuses with
  | atEnd hread hfeeds => exact ⟨fun _ => rfl, fun _ => rfl⟩
  | rejected hread hfeeds =>
      obtain ⟨-, lexeme, -, -, hlexeme, -, htext, -⟩ := Cursor.read_eq_token hread
      refine ⟨fun hfound => absurd hfound ?_, nofun⟩
      exact htext.trans_ne hlexeme.ne_endOfInputText
  | unexpected hread =>
      obtain ⟨-, after, -, -, t, -, hsplit⟩ := Cursor.read_eq_unexpected hread
      refine ⟨fun hfound => absurd hfound ?_, nofun⟩
      have hne := (Terminal.split?_eq_some hsplit).2.ne_endOfInputText
      rwa [String.ofList_toList] at hne
  | @unreadable c place hread =>
      refine ⟨fun hfound => ?_, nofun⟩
      have hlong : (String.singleton c).length = endOfInputText.length :=
        congrArg String.length hfound
      rw [String.length_singleton] at hlong
      contradiction

/-- An empty script is accepted. -/
theorem feeds_empty : ∃ routines,
    Lr.Stack.Feeds table ([] : Stack) none (.accepted routines) := by
  have hderives : Lr.Derives attribution (.rule .program) _ [] :=
    .production .emptyProgram (mem_productions _) .nil
  have haccepts := hderives.accepts_start saturated complete rfl
  cases haccepts with
  | finish hfeeds => exact ⟨_, hfeeds⟩

/-- The end of a script is placed at its last token, and there is one. -/
theorem Stage.Refuses.endedAt {stage : Stage} {failure : Failure}
    (hrefuses : stage.Refuses failure) (hfound : failure.found = .endOfInput) {source : String}
    {pieces : List Piece} (hreads : (Stage.initial source).Reads (placed {} pieces) stage) :
    IsEndLayout stage.cursor.rest ∧ ∃ before last, pieces = before ++ [last] ∧
      failure.place = ({} : Place).after (written before last.gap) := by
  cases hrefuses with
  | rejected | unexpected | unreadable => contradiction
  | atEnd hread hrejects =>
      refine ⟨Cursor.read_eq_finished hread, ?_⟩
      rcases List.eq_nil_or_concat' pieces with rfl | ⟨before, last, rfl⟩
      · cases hreads
        obtain ⟨routines, haccepts⟩ := feeds_empty
        have hsame := haccepts.unique descending hrejects
        contradiction
      · refine ⟨before, last, rfl, ?_⟩
        have hlast : (placed {} (before ++ [last])).getLast? =
            some ⟨last.kind, last.text, ({} : Place).after (written before last.gap)⟩ := by
          rw [placed_append, written_eq_append before last.gap, Place.after_append]
          simp [placed]
        exact hreads.last_eq hlast

/-- The error is reported just behind a text. -/
def SyntaxError.IsBehind (error : SyntaxError) (text : List Char) : Prop :=
  error.line = (endOfText text).1 ∧ error.column = .known (endOfText text).2

/-- The error of a script is reported at the first token that cannot follow the
pieces before it, or at the end of the script. -/
structure SyntaxError.IsFirst (error : SyntaxError) (source : String) (pieces : List Piece)
    (rest : List Char) : Prop where
  /-- The pieces are those that the parser has read. -/
  read : ∃ failure, parse source = .error failure ∧
    Lr.Stack.Spans failure.stack (placed {} pieces)
  text : source.toList = written pieces rest
  cut : Cut pieces rest
  /-- Some script that begins with the pieces parses. -/
  viable : ∃ more routines, Parsed (pieces ++ more) [] routines ∧
    parse (String.ofList (written (pieces ++ more) [])) = .ok routines
  token : error.token ≠ some endOfInputText → ∃ gap found after,
    rest = gap ++ (found ++ after) ∧ IsLayout gap ∧ error.token = some (String.ofList found) ∧
      error.IsBehind (written pieces gap) ∧ Impossible pieces found after
  finished : error.token = some endOfInputText → IsEndLayout rest ∧
    match unclosedBrace? source with
    | some brace => error.line = brace.line ∧ error.column = .known brace.column
    | none => ∃ before last, pieces = before ++ [last] ∧ error.IsBehind (written before last.gap)

theorem Failure.isBehind {failure : Failure} {source : String} {text : List Char}
    (hplace : failure.reportedPlace source = ({} : Place).after text) :
    (failure.report source).IsBehind text := by
  obtain ⟨hline, hcolumn, -, -⟩ := failure.report_eq source
  rw [hplace, Place.after_eq] at hline hcolumn
  exact ⟨hline.trans (by simp [endOfText]), hcolumn.trans (by simp [endOfText])⟩

theorem read_eq_error {source : String} {failure : Failure}
    (hparse : parse source = .error failure) :
    Script.read source = .error (failure.report source) := by
  rw [Script.read, hparse]
  rfl

/-- A script cannot be read where its parse fails. -/
theorem exists_failure_of_read {source : String} {error : SyntaxError}
    (hread : Script.read source = .error error) :
    ∃ failure, parse source = .error failure ∧ failure.report source = error := by
  unfold Script.read at hread
  cases hparse : parse source with
  | ok routines =>
      rw [hparse] at hread
      contradiction
  | error failure =>
      rw [hparse] at hread
      cases hread
      exact ⟨failure, rfl, rfl⟩

/-- A script that cannot be read is reported at its first impossible token. -/
theorem exists_isFirst_of_read {source : String} {error : SyntaxError}
    (hread : Script.read source = .error error) :
    ∃ pieces rest, error.IsFirst source pieces rest := by
  obtain ⟨failure, hparse, rfl⟩ := exists_failure_of_read hread
  obtain ⟨pieces, stage, hreads, hsource, hplace, hcut, hchain, hrefuses⟩ :=
    exists_refuses_of_parse hparse
  have hshifts := hreads.shifts
  obtain ⟨-, -, htoken, -⟩ := failure.report_eq source
  refine ⟨pieces, stage.cursor.rest, ?_, hsource, hcut, ?_, ?_, ?_⟩
  · exact ⟨failure, hparse, hrefuses.spans (hshifts.spans mem_productions .nil)⟩
  · obtain ⟨more, routines, hparsed⟩ := hcut.exists_parsed hchain hshifts
    exact ⟨more, routines, hparsed, hparsed.parse_eq⟩
  · intro hother
    rw [htoken, ne_eq, Option.some.injEq, hrefuses.foundText_eq_iff] at hother
    obtain ⟨gap, found, after, hat⟩ := hrefuses.refusedAt hother hshifts hplace
    refine ⟨gap, found, after, hat.split, hat.layout, htoken.trans (congrArg some hat.found),
      ?_, hat.impossible⟩
    apply Failure.isBehind
    rw [← hat.place, Failure.reportedPlace_eq hother]
  · intro hend
    rw [htoken, Option.some.injEq, hrefuses.foundText_eq_iff] at hend
    obtain ⟨hrest, before, last, rfl, hlast⟩ := hrefuses.endedAt hend hreads
    obtain ⟨hline, hcolumn, -, -⟩ := failure.report_eq source
    refine ⟨hrest, ?_⟩
    split
    · rename_i brace hbrace
      simp only [Failure.reportedPlace, hend, hbrace] at hline hcolumn
      exact ⟨hline, hcolumn⟩
    · rename_i hbrace
      refine ⟨before, last, rfl, Failure.isBehind ?_⟩
      simp only [Failure.reportedPlace, hend, hbrace, hlast]

/-- The second of two actions in a row is the first token that cannot follow. -/
theorem exists_isFirst_of_unseparated :
    ∃ error, Script.read unseparated = .error error ∧
      (error.token, error.line, error.column) = (some "player", 1, .known 35) ∧
      ∃ pieces rest, pieces ≠ [] ∧ error.IsFirst unseparated pieces rest := by
  obtain ⟨failure, hstops, -, hfound, hplace⟩ := stopsBehind_firstAction
  have hread := read_eq_error hstops.parse_eq
  obtain ⟨hline, hcolumn, htoken, -⟩ := failure.report_eq unseparated
  have hother : failure.found ≠ .endOfInput := by simp [hfound]
  rw [Failure.reportedPlace_eq hother, hplace] at hline hcolumn
  rw [Failure.foundText, hfound] at htoken
  obtain ⟨pieces, rest, hfirst⟩ := exists_isFirst_of_read hread
  refine ⟨_, hread, ?_, pieces, rest, ?_, hfirst⟩
  · rw [htoken, hline, hcolumn]
    rfl
  · -- Nothing but layout would stand before the second action.
    rintro rfl
    have hnotEnd : (failure.report unseparated).token ≠ some endOfInputText := by
      rw [htoken]
      decide
    obtain ⟨gap, found, after, hrest, hgap, -, ⟨-, hbehind⟩, -⟩ := hfirst.token hnotEnd
    have htext : unseparated.toList = gap ++ (found ++ after) := hfirst.text.trans hrest
    rw [hcolumn] at hbehind
    cases hgap with
    | nil => exact absurd hbehind (by decide)
    | blank hblank =>
        obtain ⟨rfl, -⟩ := List.cons.inj htext
        contradiction
    | comment => exact absurd (List.cons.inj htext).1 (by decide)

end Blockscript.Script
