import Blockscript.Proofs.Script.Beside
import Blockscript.Proofs.Script.Correctness
import Blockscript.Proofs.Script.Scanning

/-!
Scripts one below the other.  When both parse, so do their lines together, and the
routines are those of the first and then those of the second, further down.
-/

namespace Blockscript.Script

/-! ### Lowered trees -/

/-- A routine with so many lines before it. -/
def Routine.lowered (lines : Nat) (routine : Routine) : Routine :=
  { routine with line := routine.line + lines }

/-- Change the routines in the part of a tree that a rule stands for: only they tell
where they stand. -/
def mapRoutines (change : Routine → Routine) : (r : Rule) → r.Meaning → r.Meaning
  | .program, routines | .routines, routines => routines.map change
  | .routine, routine | .eventDef, routine | .processDef, routine | .functionDef, routine =>
      change routine
  | .block, meaning | .statements, meaning | .statement, meaning | .action, meaning
  | .assignment, meaning | .playerCondition, meaning | .condition, meaning
  | .variableCondition, meaning | .otherwise, meaning | .selection, meaning
  | .steps, meaning | .step, meaning | .functionCall, meaning | .processCall, meaning
  | .arguments, meaning | .values, meaning | .value, meaning | .reference, meaning
  | .coordinate, meaning => meaning

/-- Lowering the tokens of a tree lowers its routines. -/
def lowering (characters lines : Nat) : Lr.Relabelling attribution where
  token _ token := Token.lowered token characters lines
  meaning := mapRoutines (Routine.lowered lines)
  kind_token _ _ := rfl
  interpret p meanings := by
    cases p with
    | nextRoutine =>
        obtain ⟨routines, routine, -⟩ := meanings
        exact List.map_concat
    | _ => rfl

theorem placed_lowered (place : Place) (characters lines : Nat) (pieces : List Piece) :
    placed (place.lowered characters lines) pieces =
      (placed place pieces).map fun token => token.lowered characters lines := by
  induction pieces generalizing place with
  | nil => rfl
  | cons piece pieces ih =>
      simp only [placed, Place.after_lowered, ih, List.map_cons]
      rfl

/-! ### Layout between two scripts -/

theorem IsLayout.append {first rest : List Char} (hfirst : IsLayout first)
    (hrest : IsLayout rest) : IsLayout (first ++ rest) := by
  induction hfirst with
  | nil => exact hrest
  | blank hc _ ih => exact .blank hc ih
  | comment hbody _ ih =>
      have hall := IsLayout.comment hbody ih
      simpa using hall

/-- The end of a line closes the comment behind the last token. -/
theorem IsEndLayout.append_lineFeed {last : List Char} (hlast : IsEndLayout last) :
    IsLayout (last ++ ['\n']) := by
  cases hlast with
  | closed hgap => exact hgap.append (.blank rfl .nil)
  | comment hgap hbody =>
      have hall := hgap.append (.comment hbody .nil)
      simpa using hall

theorem IsLayout.append_endLayout {gap last : List Char} (hgap : IsLayout gap)
    (hlast : IsEndLayout last) : IsEndLayout (gap ++ last) := by
  cases hlast with
  | closed hlast => exact .closed (hgap.append hlast)
  | comment hlast hbody =>
      have hall := IsEndLayout.comment (hgap.append hlast) hbody
      simpa using hall

def indented (gap : List Char) : List Piece → List Piece
  | [] => []
  | piece :: rest => { piece with gap := gap ++ piece.gap } :: rest

theorem written_indented (gap : List Char) (piece : Piece) (rest : List Piece)
    (last : List Char) :
    written (indented gap (piece :: rest)) last = gap ++ written (piece :: rest) last := by
  simp only [indented, written, List.append_assoc]

theorem placed_indented (place : Place) (gap : List Char) (pieces : List Piece) :
    placed place (indented gap pieces) = placed (place.after gap) pieces := by
  cases pieces with
  | nil => rfl
  | cons piece rest => simp only [indented, placed, Place.after_append]

theorem Cut.indented {gap : List Char} (hgap : IsLayout gap) {pieces : List Piece}
    {rest : List Char} (hcut : Cut pieces rest) : Cut (indented gap pieces) rest := by
  cases hcut with
  | nil => exact .nil
  | cons hfirst hlexeme hslash hcut => exact .cons (hgap.append hfirst) hlexeme hslash hcut

/-! ### Scripts that both parse -/

theorem Spells.append {routines more : List Routine} {first rest : List Token}
    (hfirst : Spells routines first) (hrest : Spells more rest) :
    Spells (routines ++ more) (first ++ rest) := by
  induction hfirst with
  | nil => exact hrest
  | cons hroutine _ ih =>
      rw [List.append_assoc]
      exact .cons hroutine ih

theorem Spells.head_mem_starters {routines : List Routine} {token : Token}
    {tokens : List Token} (hspells : Spells routines (token :: tokens)) :
    token.kind ∈ starters := by
  generalize hword : token :: tokens = word at hspells
  cases hspells with
  | nil => contradiction
  | cons hfirst hrest =>
      cases hfirst with
      | event hkind | process hkind | function hkind =>
          cases hword
          rw [hkind]
          decide

/-- Pieces go on behind a gap, or the layout behind the last one does. -/
theorem Spaced.exists_indented {gap : List Char} (hgap : IsLayout gap) {pieces : List Piece}
    {last : List Char} (hspaced : Spaced pieces last) :
    ∃ ended, written (indented gap pieces) ended = gap ++ written pieces last ∧
      Spaced (indented gap pieces) ended := by
  obtain ⟨hcut, hlast⟩ := hspaced
  cases pieces with
  | nil => exact ⟨gap ++ last, rfl, .nil, hgap.append_endLayout hlast⟩
  | cons piece rest =>
      refine ⟨last, written_indented gap piece rest last, ?_⟩
      exact ⟨hcut.indented hgap, hlast⟩

theorem isChain_indented (gap : List Char) {pieces : List Piece}
    (hchain : pieces.IsChain Unambiguous) : (indented gap pieces).IsChain Unambiguous := by
  cases pieces with
  | nil => exact .nil
  | cons piece rest =>
      cases rest with
      | nil => exact .singleton _
      | cons next rest =>
          obtain ⟨hfirst, hrest⟩ := List.isChain_cons_cons.mp hchain
          exact .cons_cons hfirst hrest

/-- The tokens of a script below another one spell its routines further down. -/
theorem Parsed.spells_lowered {pieces : List Piece} {last : List Char}
    {routines : List Routine} (hparsed : Parsed pieces last routines) (characters lines : Nat) :
    Spells (routines.map (Routine.lowered lines))
      (placed (({} : Place).lowered characters lines) pieces) := by
  have hderives := hparsed.derives.relabel (lowering characters lines)
  apply (derived_program_iff (hparsed.spaced.cut.lexical _)).mp
  rw [placed_lowered]
  exact hderives

/-- The text behind the last piece of a script, with a line feed. -/
theorem head?_append_lineFeed {last rest : List Char} (hlast : last.head? ≠ some '/') :
    (last ++ ['\n'] ++ rest).head? ≠ some '/' := by
  cases last with
  | nil => simp
  | cons c last => exact hlast

/-- The second script begins below the lines of the first one. -/
theorem after_seam {first : String} {pieces : List Piece} {last : List Char}
    (hfirst : first.toList = written pieces last) :
    ({} : Place).after (written pieces (last ++ ['\n'])) =
      ({} : Place).lowered (first.toList.length + 1) (first.toList.count '\n' + 1) := by
  rw [written_eq_append, ← List.append_assoc, ← written_eq_append, ← hfirst,
    Place.after_lineFeed]

/-- Scripts that parse also parse one below the other. -/
theorem parse_join {first second : String} {routines more : List Routine}
    (hfirst : parse first = .ok routines) (hsecond : parse second = .ok more) :
    parse (first ++ "\n" ++ second) =
      .ok (routines ++ more.map (Routine.lowered (first.toList.count '\n' + 1))) := by
  obtain ⟨left, last, hleft, hspaced, hchain, hspells⟩ := parse_eq_ok_iff_spells.mp hfirst
  obtain ⟨right, finish, hright, hparsed⟩ := parse_eq_ok_iff.mp hsecond
  obtain ⟨hcut, hlast⟩ := hspaced
  obtain ⟨ended, hwritten, hbelow⟩ := hparsed.spaced.exists_indented hlast.append_lineFeed
  obtain ⟨hmore, hended⟩ := hbelow
  have hlower := hparsed.spells_lowered (first.toList.length + 1) (first.toList.count '\n' + 1)
  apply parse_eq_ok_iff_spells.mpr
  refine ⟨left ++ indented (last ++ ['\n']) right, ended, ?_, ?_, ?_, ?_⟩
  · rw [written_append, hwritten, written_eq_append left, ← hright]
    rw [written_eq_append left] at hleft
    simp [hleft]
  · refine ⟨(hcut.of_rest fun hslash => ?_).append hmore, hended⟩
    rw [hwritten]
    exact head?_append_lineFeed hslash
  · rw [List.isChain_append]
    refine ⟨hchain, isChain_indented _ hparsed.unambiguous, fun before _ piece hpiece => ?_⟩
    intro _ hident
    cases right with
    | nil => contradiction
    | cons head rest =>
        cases hpiece
        have hstarts := hlower.head_mem_starters
        rw [hident] at hstarts
        contradiction
  · rw [placed_append, placed_indented, ← Place.after_append, ← written_eq_append,
      after_seam hleft]
    exact hspells.append hlower

/-! ### The second script does not parse -/

/-- The first token of a script is shifted onto the empty stack. -/
theorem outline_of_feeds_nil {token : Token} {next : Stack}
    (hfeeds : Lr.Stack.Feeds table ([] : Stack) (some token) (.shifted next)) :
    ∃ state, routineShifts.lookup token.kind = some state ∧
      next.outline = [(state, .terminal token.kind)] := by
  have hend : (table.row 0).reduction? none = some .emptyProgram := by
    rw [row_eq]
    rfl
  obtain ⟨hlookup, hnone⟩ := (closingRow_of_reduction? hend).whole rfl token.kind (mem_all _)
  cases hfeeds with
  | @shift _ _ target hshift => exact ⟨target, hlookup.symm.trans hshift, rfl⟩
  | reduce hshift hreduce hpop hgoes hgoto hrest =>
      exact absurd (hnone.symm.trans hreduce) nofun

section Seam

variable {stack : Stack} {routines : List Routine}
  (haccepts : Lr.Stack.Feeds table stack none (.accepted routines)) {cursor : Cursor}
  {second : String} {characters lines : Nat}
  (hcursor : ∀ admitted, cursor.read admitted =
    ((Stage.initial second).cursor.lowered characters lines).read admitted)

include haccepts hcursor

/-- The first token of the second script is shifted as if it stood alone. -/
theorem exists_beside_of_first {token : Token} {behind : Cursor} {next : Stack}
    (hread : (Stage.initial second).cursor.read (admitted []) = .token token behind)
    (hfeeds : Lr.Stack.Feeds table ([] : Stack) (some token) (.shifted next)) (last : Place) :
    ∃ other, Stage.Reads ⟨stack, last, cursor⟩ [token.lowered characters lines] other ∧
      Stage.Beside ⟨next, token.place, behind⟩ other characters lines := by
  have hfirst : cursor.read (admitted stack) = .token (token.lowered characters lines)
      (behind.lowered characters lines) := by
    rw [hcursor, Cursor.read_lowered, Cursor.read_token_resumed haccepts hread]
    rfl
  obtain ⟨state, hstate, hnext⟩ := outline_of_feeds_nil hfeeds
  rcases feeds_resumed haccepts (token.lowered characters lines) with
    ⟨pushed, target, base, hpushed, htarget, hbase, houtline⟩ | ⟨hother, -⟩
  · obtain rfl : state = target := Option.some.inj (hstate.symm.trans htarget)
    refine ⟨_, .cons hfirst hpushed .nil, ?_, rfl, rfl⟩
    simp only [bases, List.mem_cons, List.not_mem_nil, or_false] at hbase
    rcases hbase with rfl | rfl
    · exact .same (hnext.trans houtline.symm)
    · refine .above (congrArg List.getLast? hnext) (by simp) ?_
      rw [hnext]
      exact houtline
  · have hkind : token.kind ∈ starters := mem_admitted_nil_iff.mp
      (Cursor.kind_mem_of_token? (Cursor.read_eq_token_iff.mp hread))
    exact absurd hkind hother

/-- What is refused at the beginning of the second script alone is refused behind the
first one too. -/
theorem exists_refuses_of_first {failure : Failure}
    (hrefuses : (Stage.initial second).Refuses failure) (last : Place) :
    ∃ other, Stage.Refuses ⟨stack, last, cursor⟩ other ∧
      failure.Lowered other characters lines := by
  have hread : cursor.read (admitted stack) =
      ((Stage.initial second).cursor.read (admitted stack)).lowered characters lines := by
    rw [hcursor, Cursor.read_lowered]
  cases hrefuses with
  | atEnd hfirst hrejects =>
      obtain ⟨empty, hempty⟩ := feeds_empty
      have hsame := hempty.unique descending hrejects
      contradiction
  | @rejected token next left hfirst hrejects =>
      have hkind := mem_admitted_nil_iff.mp
        (Cursor.kind_mem_of_token? (Cursor.read_eq_token_iff.mp hfirst))
      obtain ⟨empty, hempty⟩ := feeds_empty
      rcases feeds_resumed hempty token with ⟨next, -, -, hshifts, -⟩ | ⟨hother, -⟩
      · have hsame := hshifts.unique descending hrejects
        contradiction
      · contradiction
  | @unexpected token hfirst =>
      rcases Cursor.read_unexpected_resumed haccepts hfirst with hsame | ⟨next, hsame, hother⟩
      · rw [hsame] at hread
        exact ⟨_, .unexpected hread, rfl, rfl⟩
      · rw [hsame] at hread
        rcases feeds_resumed haccepts (token.lowered characters lines) with
          ⟨pushed, target, base, -, htarget, -⟩ | ⟨-, left, hrejects⟩
        · have hlookup : ∀ t ∈ Terminal.all, t ∉ starters → routineShifts.lookup t = none := by
            decide
          exact absurd (htarget.symm.trans (hlookup _ (mem_all _) hother)) nofun
        · exact ⟨_, .rejected hread hrejects, rfl, rfl⟩
  | unreadable hfirst =>
      rw [Cursor.read_unreadable hfirst] at hread
      exact ⟨_, .unreadable hread, rfl, rfl⟩

/-- What is refused behind the first token of the second script alone is refused behind
the first script too, with stacks side by side, and with the same stack if there was none
before. -/
theorem exists_refuses_of_later {token : Token} {tokens : List Token} {stage : Stage}
    (hreads : (Stage.initial second).Reads (token :: tokens) stage) {failure : Failure}
    (hrefuses : stage.Refuses failure) (last : Place) :
    ∃ word final other, Stage.Reads ⟨stack, last, cursor⟩
        (token.lowered characters lines :: word) final ∧
      final.Refuses other ∧ failure.Lowered other characters lines ∧
      Beside failure.stack other.stack ∧
      (stack = [] → failure.stack.outline = other.stack.outline) ∧
      other.expected = failure.expected := by
  have hshifts := hreads.shifts
  cases hreads with
  | cons hread hfeeds hrest =>
      obtain ⟨middle, hfirst, hbeside⟩ := exists_beside_of_first haccepts hcursor hread hfeeds last
      obtain ⟨final, hlater, hfinal⟩ := hbeside.exists_reads hrest
      obtain ⟨other, hother, hlowered, hstacks, hsame, hexpected⟩ := hfinal.exists_refuses hrefuses
      have hall := hfirst.append hlater
      refine ⟨_, final, other, hall, hother, hlowered, hstacks, fun hempty => hsame ?_, hexpected⟩
      subst hempty
      apply hshifts.outline_eq descending rfl hall.shifts
      simp [Token.lowered, attribution]

end Seam

/-- The first script is read up to the seam, from where on the second one is read
further down. -/
theorem exists_reads_seam {first : String} {routines : List Routine}
    (hfirst : parse first = .ok routines) (second : String) :
    ∃ tokens stack last cursor, Spells routines tokens ∧
      Lr.Stack.Feeds table stack none (.accepted routines) ∧
      (Stage.initial (first ++ "\n" ++ second)).Reads tokens ⟨stack, last, cursor⟩ ∧
      ∀ admitted, cursor.read admitted = ((Stage.initial second).cursor.lowered
        (first.toList.length + 1) (first.toList.count '\n' + 1)).read admitted := by
  obtain ⟨pieces, last, hsource, hparsed⟩ := parse_eq_ok_iff.mp hfirst
  obtain ⟨hcut, hlast⟩ := hparsed.spaced
  have hgap := hlast.append_lineFeed
  have hends : ∀ t : Terminal, t.Ends (last ++ ['\n'] ++ second.toList) := by
    intro t
    refine Terminal.ends_of_endedBy fun c hc => Terminal.endedBy_of_layout (hgap.head ?_) t
    rwa [List.head?_append_of_ne_nil _ (by simp)] at hc
  obtain ⟨stack, ended, haccepts, hreads⟩ :=
    hparsed.exists_reads (hcut.of_rest head?_append_lineFeed) hends
  have htext : String.ofList (written pieces (last ++ ['\n'] ++ second.toList)) =
      first ++ "\n" ++ second := by
    apply String.toList_inj.mp
    rw [written_eq_append] at hsource ⊢
    simp [hsource]
  rw [htext] at hreads
  have hspells := (derived_program_iff (hparsed.spaced.cut.lexical {})).mp hparsed.derives
  refine ⟨_, stack, ended, _, hspells, haccepts, hreads, fun admitted => ?_⟩
  rw [Cursor.read_behind hgap, ← Place.after_append, ← written_eq_append, after_seam hsource]
  rfl

/-- The error of a script is reported at its first token: only layout stands before
it. -/
def SyntaxError.AtFirstToken (error : SyntaxError) (source : String) : Prop :=
  error.token ≠ some endOfInputText ∧
    ∃ gap rest, source.toList = gap ++ rest ∧ IsLayout gap ∧ error.IsBehind gap

theorem Stage.Refuses.atFirstToken {source : String} {failure : Failure}
    (hrefuses : (Stage.initial source).Refuses failure) :
    (failure.report source).AtFirstToken source := by
  have hreads : (Stage.initial source).Reads (placed {} []) (Stage.initial source) := .nil
  have hfound : failure.found ≠ .endOfInput := by
    intro hend
    obtain ⟨-, before, last, hpieces, -⟩ := hrefuses.endedAt hend hreads
    exact List.append_ne_nil_of_right_ne_nil _ (List.cons_ne_nil _ _) hpieces.symm
  obtain ⟨gap, text, after, hat⟩ := hrefuses.refusedAt hfound hreads.shifts rfl
  constructor
  · rw [(failure.report_eq source).2.2.1, ne_eq, Option.some.injEq, hrefuses.foundText_eq_iff]
    exact hfound
  · refine ⟨gap, text ++ after, hat.split, hat.layout, Failure.isBehind ?_⟩
    rw [Failure.reportedPlace_eq hfound]
    exact hat.place

/-- A script that does not parse does not parse below another one, and fails further
down in the same way; unless it fails at its first token, the same is expected. -/
theorem parse_join_error {first second : String} {routines : List Routine} {failure : Failure}
    (hfirst : parse first = .ok routines) (hsecond : parse second = .error failure) :
    ∃ other, parse (first ++ "\n" ++ second) = .error other ∧
      failure.Lowered other (first.toList.length + 1) (first.toList.count '\n' + 1) ∧
      (¬ (failure.report second).AtFirstToken second →
        other.expected = failure.expected) := by
  obtain ⟨tokens, stack, last, cursor, -, haccepts, hreads, hcursor⟩ :=
    exists_reads_seam hfirst second
  obtain ⟨pieces, stage, hmore, -, -, -, -, hrefuses⟩ := exists_refuses_of_parse hsecond
  generalize placed {} pieces = word at hmore
  cases word with
  | nil =>
      cases hmore
      obtain ⟨other, hother, hlowered⟩ := exists_refuses_of_first haccepts hcursor hrefuses last
      exact ⟨other, hreads.parse_eq hother.round_eq, hlowered,
        fun hlater => absurd hrefuses.atFirstToken hlater⟩
  | cons token word =>
      obtain ⟨_, final, other, hlater, hother, hlowered, -, -, hexpected⟩ :=
        exists_refuses_of_later haccepts hcursor hmore hrefuses last
      exact ⟨other, (hreads.append hlater).parse_eq hother.round_eq, hlowered, fun _ => hexpected⟩

/-! ### What is reported for the second script -/

/-- Scanning for braces does not depend on where the text stands. -/
theorem openBracesWithin_lowered (rounds : Nat) (place : Place) (pending : List Place)
    (cs : List Char) (characters lines : Nat) :
    openBracesWithin rounds (place.lowered characters lines)
        (pending.map fun brace => brace.lowered characters lines) cs =
      (openBracesWithin rounds place pending cs).map
        fun brace => brace.lowered characters lines := by
  induction rounds generalizing place pending cs with
  | zero => rfl
  | succ rounds ih =>
      cases cs with
      | nil => rfl
      | cons c rest =>
          have hopened := ih (place.next c) (place :: pending) rest
          simp only [openBracesWithin, Place.after_lowered, Place.next_lowered, ← List.map_drop,
            ih, apply_ite (List.map fun brace => Place.lowered brace characters lines)]
          rw [List.map_cons] at hopened
          rw [hopened]

/-- The scanner is where it was at the beginning behind a script that parses. -/
theorem unclosedBrace?_join {first : String} {routines : List Routine}
    (hfirst : parse first = .ok routines) (second : String) :
    unclosedBrace? (first ++ "\n" ++ second) = (unclosedBrace? second).map
      fun brace => brace.lowered (first.toList.length + 1) (first.toList.count '\n' + 1) := by
  obtain ⟨pieces, last, hsource, hparsed⟩ := parse_eq_ok_iff.mp hfirst
  obtain ⟨hcut, hlast⟩ := hparsed.spaced
  have hjoined : (first ++ "\n" ++ second).toList =
      written pieces (last ++ ['\n'] ++ second.toList) := by
    rw [written_eq_append] at hsource ⊢
    simp [hsource]
  have hscan : openBracesFrom {} [] (written pieces (last ++ ['\n'] ++ second.toList)) = _ :=
    (hcut.of_rest head?_append_lineFeed).openBracesFrom_written {} []
  rw [foldl_braceStep_of_rule [] hparsed.derives, hlast.append_lineFeed.openBracesFrom_append,
    ← Place.after_append, ← written_eq_append, after_seam hsource] at hscan
  have hbelow := openBracesWithin_lowered second.toList.length {} [] second.toList
    (first.toList.length + 1) (first.toList.count '\n' + 1)
  rw [unclosedBrace?, unclosedBrace?, hjoined, ← List.head?_map]
  exact congrArg List.head? (hscan.trans hbelow)

theorem Failure.Lowered.reportedPlace_eq {failure other : Failure} {characters lines : Nat}
    (hlowered : failure.Lowered other characters lines) {source joined : String}
    (hbrace : unclosedBrace? joined =
      (unclosedBrace? source).map fun brace => brace.lowered characters lines) :
    other.reportedPlace joined = (failure.reportedPlace source).lowered characters lines := by
  unfold Failure.reportedPlace
  rw [hlowered.found, hbrace, hlowered.place]
  cases failure.found with
  | endOfInput => cases unclosedBrace? source <;> rfl
  | _ => rfl

theorem read_eq_ok_iff {source : String} {routines : List Routine} :
    Script.read source = .ok routines ↔ parse source = .ok routines := by
  unfold Script.read
  cases parse source <;> simp [Except.mapError]

/-- The error of a script, and its error with so many lines before it. -/
structure SyntaxError.Lowered (error other : SyntaxError) (lines : Nat) : Prop where
  token : other.token = error.token
  line : other.line = error.line + lines
  column : other.column = error.column

/-- A script that cannot be read is reported in the same way below another one, but
for the lines before it. -/
theorem read_join_error {first second : String} {routines : List Routine} {error : SyntaxError}
    (hfirst : Script.read first = .ok routines) (hsecond : Script.read second = .error error) :
    ∃ other, Script.read (first ++ "\n" ++ second) = .error other ∧
      error.Lowered other (first.toList.count '\n' + 1) ∧
      (¬ error.AtFirstToken second → other.expected = error.expected) := by
  rw [read_eq_ok_iff] at hfirst
  obtain ⟨failure, hparse, rfl⟩ := exists_failure_of_read hsecond
  obtain ⟨other, hjoined, hlowered, hexpected⟩ := parse_join_error hfirst hparse
  have hplace := hlowered.reportedPlace_eq (unclosedBrace?_join hfirst second)
  obtain ⟨hline, hcolumn, htoken, hnames⟩ := failure.report_eq second
  obtain ⟨hotherLine, hotherColumn, hotherToken, hotherNames⟩ :=
    other.report_eq (first ++ "\n" ++ second)
  refine ⟨_, read_eq_error hjoined, ⟨?_, ?_, ?_⟩, fun hlater => ?_⟩
  · rw [hotherToken, htoken, Failure.foundText, Failure.foundText, hlowered.found]
  · rw [hotherLine, hline, hplace]
    exact Int.natCast_add _ _
  · rw [hotherColumn, hcolumn, hplace]
    rfl
  · rw [hotherNames, hnames]
    unfold Problem.sortedExpected Failure.problem
    rw [hexpected hlater]

end Blockscript.Script
