import Blockscript.Proofs.Lr.Halting
import Blockscript.Proofs.Script.Failing

/-!
Parsing step by step, with no bound on the steps: a piece of layout is skipped, a token
is read, the machine reduces or shifts.  Every run comes to an end, whatever stack and
lookahead it begins with.  The run of a script never derails, and it ends in what
parsing the script gives.
-/

namespace Blockscript.Script

/-! ### Matches consume text -/

/-- What is split off is the beginning of the text, and not empty. -/
def Consumes (split : List Char → Option (List Char × List Char)) : Prop :=
  ∀ cs found rest, split cs = some (found, rest) → cs = found ++ rest ∧ found ≠ []

theorem Consumes.length_lt {split : List Char → Option (List Char × List Char)}
    (hsplit : Consumes split) {cs found rest : List Char}
    (hfound : split cs = some (found, rest)) : rest.length < cs.length := by
  obtain ⟨rfl, hne⟩ := hsplit cs found rest hfound
  have hpos : 0 < found.length := List.length_pos_iff.mpr hne
  rw [List.length_append]
  omega

theorem Terminal.consumes (t : Terminal) : Consumes t.split? := by
  intro cs found rest hsplit
  obtain ⟨hrest, hlexeme⟩ := Terminal.split?_eq_some hsplit
  obtain ⟨c, tail, rfl, -⟩ := hlexeme.begins
  exact ⟨hrest, List.cons_ne_nil c tail⟩

/-- Split off one piece of layout: a run of blanks, or a comment up to the end of its
line. -/
def splitGap? : List Char → Option (List Char × List Char)
  | [] => none
  | '/' :: '/' :: rest =>
      some ('/' :: '/' :: rest.takeWhile (· != '\n'), rest.dropWhile (· != '\n'))
  | c :: rest =>
      if isBlank c then some (c :: rest.takeWhile isBlank, rest.dropWhile isBlank) else none

theorem consumes_splitGap? : Consumes splitGap? := by
  intro cs found rest hsplit
  unfold splitGap? at hsplit
  split at hsplit
  · contradiction
  · cases hsplit
    simp
  · split at hsplit
    · cases hsplit
      simp
    · contradiction

theorem isLayout_of_blanks {gap : List Char} (hgap : ∀ c ∈ gap, isBlank c = true) :
    IsLayout gap := by
  induction gap with
  | nil => exact .nil
  | cons c gap ih =>
      rw [List.forall_mem_cons] at hgap
      exact .blank hgap.1 (ih hgap.2)

theorem splitLayout_comment (body : List Char) :
    splitLayout true body = (body.takeWhile (· != '\n') ++
      (splitLayout false (body.dropWhile (· != '\n'))).1,
      (splitLayout false (body.dropWhile (· != '\n'))).2) := by
  induction body with
  | nil => rfl
  | cons c body ih =>
      by_cases hc : c = '\n'
      · subst hc
        simp [splitLayout, isBlank]
      · have hline : (c != '\n') = true := bne_iff_ne.mpr hc
        simp only [splitLayout, hline, ih, List.takeWhile_cons_of_pos, List.dropWhile_cons_of_pos,
          List.cons_append]

/-- Layout is split off piece by piece. -/
theorem splitLayout_of_splitGap? {cs gap rest : List Char}
    (hgap : splitGap? cs = some (gap, rest)) :
    splitLayout false cs = (gap ++ (splitLayout false rest).1, (splitLayout false rest).2) := by
  unfold splitGap? at hgap
  split at hgap
  · contradiction
  · cases hgap
    simp only [splitLayout, splitLayout_comment, List.cons_append]
  · split at hgap
    · rename_i c after hslash hblank
      cases hgap
      have hlayout : IsLayout (c :: after.takeWhile isBlank) :=
        .blank hblank (isLayout_of_blanks (List.all_eq_true.mp List.all_takeWhile))
      rw [← hlayout.splitLayout_append, List.cons_append, List.takeWhile_append_dropWhile]
    · contradiction

/-- There is no piece of layout where a text does not begin with layout. -/
theorem splitGap?_eq_none_iff {cs : List Char} : splitGap? cs = none ↔ Solid cs := by
  constructor
  · rintro hnone c tail rfl
    unfold splitGap? at hnone
    split at hnone
    · contradiction
    · contradiction
    · rename_i hslash heq
      cases heq
      simp only [ite_eq_right_iff, reduceCtorEq, imp_false, Bool.not_eq_true] at hnone
      refine ⟨hnone, ?_⟩
      rintro rfl hhead
      obtain ⟨after, rfl⟩ := List.head?_eq_some_iff.mp hhead
      exact hslash after rfl rfl
  · intro hsolid
    unfold splitGap?
    split
    · rfl
    · exact absurd rfl ((hsolid _ _ rfl).2 rfl)
    · simp [(hsolid _ _ rfl).1]

theorem Cursor.skipLayout_past {cursor : Cursor} {gap rest : List Char}
    (hgap : splitGap? cursor.rest = some (gap, rest)) :
    (cursor.past gap rest).skipLayout = cursor.skipLayout := by
  simp only [Cursor.skipLayout, Cursor.past, splitLayout_of_splitGap? hgap, Place.after_append]

theorem Cursor.skipLayout_of_solid {cursor : Cursor} (hsolid : Solid cursor.rest) :
    cursor.skipLayout = cursor := by
  simp only [Cursor.skipLayout, splitLayout_solid hsolid]
  rfl

theorem Cursor.solid_skipLayout (cursor : Cursor) : Solid cursor.skipLayout.rest :=
  (splitLayout_splits false cursor.rest).2.solid

theorem Cursor.read_skipLayout (cursor : Cursor) (admitted : List Terminal) :
    cursor.skipLayout.read admitted = cursor.read admitted := by
  simp only [Cursor.read, Cursor.skipLayout_of_solid cursor.solid_skipLayout]

/-! ### Single steps -/

/-- A parse between two of its steps: the stage it has come to, and the lookahead that
has been read there, if one has; the end of the script is one, too. -/
structure Config where
  stage : Stage
  lookahead : Option (Option Token)

inductive Turn where
  | onward (next : Config)
  | halted (result : Except Failure (List Routine))
  /-- The table asks for symbols that are not on the stack, or sends a rule nowhere. -/
  | derailed

/-- The failure of a stage that has no use for its lookahead. -/
def Stage.refusal (stage : Stage) (lookahead : Option Token) : Failure where
  found :=
    match lookahead with
    | some token => .token token.text
    | none => .endOfInput
  place := (lookahead.map Token.place).getD stage.last
  expected := lookaheads stage.stack
  stack := stage.stack

/-- The turn of a stage at which the given stands next. -/
def Turn.ofReading (stage : Stage) : Reading → Turn
  | .finished => .onward ⟨stage, some none⟩
  | .token token next => .onward ⟨{ stage with cursor := next }, some (some token)⟩
  | .unexpected token =>
      .halted (.error ⟨.token token.text, token.place,
        (tried (admitted stage.stack)).map some, stage.stack⟩)
  | .unreadable c place =>
      .halted (.error ⟨.character c, place,
        (tried (admitted stage.stack)).map some, stage.stack⟩)

/-- Skip a piece of layout, or read the lookahead. -/
def Stage.lex (stage : Stage) : Turn :=
  match splitGap? stage.cursor.rest with
  | some (gap, rest) => .onward ⟨{ stage with cursor := stage.cursor.past gap rest }, none⟩
  | none => .ofReading stage (stage.cursor.read (admitted stage.stack))

/-- The turn of a stage at which the machine makes the given move. -/
def Turn.ofMove (stage : Stage) (lookahead : Option Token) : Lr.Move attribution → Turn
  | .shift next =>
      .onward ⟨⟨next, (lookahead.map Token.place).getD stage.last, stage.cursor⟩, none⟩
  | .reduce next => .onward ⟨{ stage with stack := next }, some lookahead⟩
  | .accept routines => .halted (.ok routines)
  | .reject => .halted (.error (stage.refusal lookahead))
  | .short | .lost => .derailed

/-- One step of the machine on the lookahead. -/
def Stage.act (stage : Stage) (lookahead : Option Token) : Turn :=
  .ofMove stage lookahead (Lr.Stack.move table stage.stack lookahead)

def Config.step : Config → Turn
  | ⟨stage, none⟩ => stage.lex
  | ⟨stage, some lookahead⟩ => stage.act lookahead

/-- What a step does that goes on. -/
inductive Config.Advances : Config → Config → Prop
  | skip {stage : Stage} {gap rest : List Char}
      (hgap : splitGap? stage.cursor.rest = some (gap, rest)) :
      Advances ⟨stage, none⟩ ⟨{ stage with cursor := stage.cursor.past gap rest }, none⟩
  | finish {stage : Stage} (hread : stage.cursor.read (admitted stage.stack) = .finished) :
      Advances ⟨stage, none⟩ ⟨stage, some none⟩
  | read {stage : Stage} {token : Token} {next : Cursor}
      (hread : stage.cursor.read (admitted stage.stack) = .token token next) :
      Advances ⟨stage, none⟩ ⟨{ stage with cursor := next }, some (some token)⟩
  | shift {stage : Stage} {token : Token} {next : Stack}
      (hmoves : Lr.Stack.Moves table stage.stack (some token) (.shift next)) :
      Advances ⟨stage, some (some token)⟩ ⟨⟨next, token.place, stage.cursor⟩, none⟩
  | reduce {stage : Stage} {lookahead : Option Token} {next : Stack}
      (hmoves : Lr.Stack.Moves table stage.stack lookahead (.reduce next)) :
      Advances ⟨stage, some lookahead⟩ ⟨{ stage with stack := next }, some lookahead⟩

theorem Config.advances_of_step {config next : Config} (hstep : config.step = .onward next) :
    config.Advances next := by
  obtain ⟨stage, _ | lookahead⟩ := config
  · rw [Config.step, Stage.lex] at hstep
    split at hstep
    · rename_i gap rest hgap
      cases hstep
      exact .skip hgap
    · cases hread : stage.cursor.read (admitted stage.stack) with
      | finished =>
          rw [hread] at hstep
          cases hstep
          exact .finish hread
      | token token behind =>
          rw [hread] at hstep
          cases hstep
          exact .read hread
      | unexpected token =>
          rw [hread] at hstep
          contradiction
      | unreadable c place =>
          rw [hread] at hstep
          contradiction
  · have hmoves := Lr.Stack.moves_move table stage.stack lookahead
    rw [Config.step, Stage.act] at hstep
    generalize Lr.Stack.move table stage.stack lookahead = move at hmoves hstep
    cases move with
    | shift stack =>
        obtain ⟨token, rfl⟩ := hmoves.exists_token
        cases hstep
        exact .shift hmoves
    | reduce stack =>
        cases hstep
        exact .reduce hmoves
    | accept | reject | short | lost => contradiction

/-! ### Every run ends -/

/-- How much a parse may still read: each character may be a token, which is read first
and then shifted, and the end of the script is read last. -/
def Config.unread (config : Config) : Nat :=
  3 * config.stage.cursor.rest.length +
    match config.lookahead with
    | none => 1
    | some none => 0
    | some (some _) => 2

/-- Every step reads on, or it reduces the states of the stack. -/
theorem Config.Advances.decreases {config next : Config} (hadvances : config.Advances next) :
    Prod.Lex (· < ·) (fun next states => table.Reduces grammar states next)
      (next.unread, Lr.Stack.states next.stage.stack)
      (config.unread, Lr.Stack.states config.stage.stack) := by
  cases hadvances with
  | skip hgap =>
      have hshorter := consumes_splitGap?.length_lt hgap
      refine .left _ _ ?_
      simp only [Config.unread, Cursor.past]
      omega
  | finish hread =>
      refine .left _ _ ?_
      simp only [Config.unread]
      omega
  | read hread =>
      have hshorter := Cursor.length_lt_of_read hread
      refine .left _ _ ?_
      simp only [Config.unread]
      omega
  | shift hmoves =>
      refine .left _ _ ?_
      simp only [Config.unread]
      omega
  | reduce hmoves => exact .right _ hmoves.reduces

theorem Config.wellFounded_step :
    WellFounded fun next config : Config => config.step = .onward next := by
  have hstates := Lr.Table.wellFounded_reduces grounded descending
  -- A shift makes the stack longer, so what is unread comes before the states.
  refine Subrelation.wf ?_ (InvImage.wf
    (fun config : Config => (config.unread, Lr.Stack.states config.stage.stack))
    (Prod.lex ⟨_, Nat.lt_wfRel.wf⟩ ⟨_, hstates⟩).wf)
  intro next config hstep
  exact (Config.advances_of_step hstep).decreases

/-! ### The run of a script stays on the table -/

/-- A number of steps lead from one configuration to another. -/
def Config.Reaches : Config → Config → Prop :=
  Relation.ReflTransGen fun config next => config.step = .onward next

theorem Config.Advances.traced {config next : Config} (hadvances : config.Advances next)
    (htraced : Lr.Stack.Traced table config.stage.stack) :
    Lr.Stack.Traced table next.stage.stack := by
  cases hadvances with
  | skip | finish | read => exact htraced
  | shift hmoves => exact hmoves.traced_of_shift htraced
  | reduce hmoves => exact hmoves.traced_of_reduce htraced

theorem Config.Reaches.traced {config final : Config} (hreaches : config.Reaches final)
    (htraced : Lr.Stack.Traced table config.stage.stack) :
    Lr.Stack.Traced table final.stage.stack := by
  induction hreaches with
  | refl => exact htraced
  | tail _ hstep ih => exact (Config.advances_of_step hstep).traced ih

theorem Config.step_ne_derailed {config : Config}
    (htraced : Lr.Stack.Traced table config.stage.stack) : config.step ≠ .derailed := by
  obtain ⟨stage, _ | lookahead⟩ := config
  · rw [Config.step, Stage.lex]
    split
    · exact nofun
    · cases stage.cursor.read (admitted stage.stack) <;> exact nofun
  · have hmoves := Lr.Stack.moves_move table stage.stack lookahead
    obtain ⟨hshort, hlost⟩ := hmoves.ne_of_traced grounded htraced
    rw [Config.step, Stage.act]
    generalize Lr.Stack.move table stage.stack lookahead = move at hshort hlost
    cases move with
    | shift | reduce | accept | reject => exact nofun
    | short | lost => contradiction

/-! ### The run of a script ends in its parse -/

/-- The layout in front of a token is skipped piece by piece. -/
theorem Stage.reaches_skipLayout (stage : Stage) :
    Config.Reaches ⟨stage, none⟩ ⟨{ stage with cursor := stage.cursor.skipLayout }, none⟩ := by
  induction hlength : stage.cursor.rest.length using Nat.strongRecOn generalizing stage with
  | ind n ih =>
      cases hgap : splitGap? stage.cursor.rest with
      | none =>
          rw [Cursor.skipLayout_of_solid (splitGap?_eq_none_iff.mp hgap)]
          exact .refl
      | some parts =>
          obtain ⟨gap, rest⟩ := parts
          have hshorter := consumes_splitGap?.length_lt hgap
          have hrest := ih rest.length (hlength ▸ hshorter)
            { stage with cursor := stage.cursor.past gap rest } rfl
          rw [Cursor.skipLayout_past hgap] at hrest
          refine .head ?_ hrest
          rw [Config.step, Stage.lex, hgap]

/-- Behind the layout the lookahead is read. -/
theorem Stage.lex_skipLayout (stage : Stage) :
    Stage.lex { stage with cursor := stage.cursor.skipLayout } =
      .ofReading { stage with cursor := stage.cursor.skipLayout }
        (stage.cursor.read (admitted stage.stack)) := by
  rw [Stage.lex, splitGap?_eq_none_iff.mpr stage.cursor.solid_skipLayout]
  simp only [Cursor.read_skipLayout]

/-- The machine reduces until the step that ends in its outcome. -/
theorem Stage.exists_reaches (stage : Stage) {lookahead : Option Token}
    {outcome : Lr.Outcome attribution}
    (hfeeds : Lr.Stack.Feeds table stage.stack lookahead outcome) :
    ∃ left, Config.Reaches ⟨stage, some lookahead⟩ ⟨{ stage with stack := left }, some lookahead⟩ ∧
      outcome.EndsWith table left lookahead := by
  obtain ⟨left, hreductions, hends⟩ :=
    Lr.Stack.exists_reductions (hfeeds.feed_eq descending) hfeeds.ne_derailed
  have hsteps : ∀ stack next, Lr.Stack.move table stack lookahead = .reduce next →
      Config.step ⟨{ stage with stack }, some lookahead⟩ =
        .onward ⟨{ stage with stack := next }, some lookahead⟩ := by
    intro stack next hmove
    exact congrArg (Turn.ofMove { stage with stack } lookahead) hmove
  exact ⟨left, Relation.ReflTransGen.lift
    (fun stack => Config.mk { stage with stack } (some lookahead)) hsteps _ _ hreductions, hends⟩

/-- A token is read behind the layout, and the machine reduces. -/
theorem Stage.exists_reaches_of_token {stage : Stage} {token : Token} {next : Cursor}
    (hread : stage.cursor.read (admitted stage.stack) = .token token next)
    {outcome : Lr.Outcome attribution}
    (hfeeds : Lr.Stack.Feeds table stage.stack (some token) outcome) :
    ∃ left, Config.Reaches ⟨stage, none⟩ ⟨⟨left, stage.last, next⟩, some (some token)⟩ ∧
      outcome.EndsWith table left (some token) := by
  have hlex := stage.lex_skipLayout
  rw [hread] at hlex
  obtain ⟨left, hreductions, hends⟩ := Stage.exists_reaches { stage with cursor := next } hfeeds
  exact ⟨left, stage.reaches_skipLayout.trans (.head hlex hreductions), hends⟩

/-- The end of the script is read behind the layout, and the machine reduces. -/
theorem Stage.exists_reaches_of_finished {stage : Stage}
    (hread : stage.cursor.read (admitted stage.stack) = .finished)
    {outcome : Lr.Outcome attribution}
    (hfeeds : Lr.Stack.Feeds table stage.stack none outcome) :
    ∃ left, Config.Reaches ⟨stage, none⟩
        ⟨⟨left, stage.last, stage.cursor.skipLayout⟩, some none⟩ ∧
      outcome.EndsWith table left none := by
  have hlex := stage.lex_skipLayout
  rw [hread] at hlex
  obtain ⟨left, hreductions, hends⟩ :=
    Stage.exists_reaches { stage with cursor := stage.cursor.skipLayout } hfeeds
  exact ⟨left, stage.reaches_skipLayout.trans (.head hlex hreductions), hends⟩

/-- Rounds that read tokens and shift them are a number of steps. -/
theorem Stage.Reads.reaches {stage final : Stage} {tokens : List Token}
    (hreads : stage.Reads tokens final) : Config.Reaches ⟨stage, none⟩ ⟨final, none⟩ := by
  induction hreads with
  | nil => exact .refl
  | @cons stage final token tokens next behind hread hfeeds hrest ih =>
      obtain ⟨left, hreaches, hends⟩ := Stage.exists_reaches_of_token hread hfeeds
      have hshift : Config.step ⟨⟨left, stage.last, behind⟩, some (some token)⟩ =
          .onward ⟨⟨next, token.place, behind⟩, none⟩ :=
        congrArg (Turn.ofMove ⟨left, stage.last, behind⟩ (some token)) hends
      exact hreaches.trans (.head hshift ih)

/-- A round that refuses ends in its failure. -/
theorem Stage.Refuses.exists_halted {stage : Stage} {failure : Failure}
    (hrefuses : stage.Refuses failure) :
    ∃ final, Config.Reaches ⟨stage, none⟩ final ∧ final.step = .halted (.error failure) := by
  cases hrefuses with
  | atEnd hread hfeeds =>
      obtain ⟨left, hreaches, rfl, hreject⟩ := Stage.exists_reaches_of_finished hread hfeeds
      exact ⟨_, hreaches, congrArg (Turn.ofMove _ none) hreject⟩
  | @rejected token next _ hread hfeeds =>
      obtain ⟨left, hreaches, rfl, hreject⟩ := Stage.exists_reaches_of_token hread hfeeds
      exact ⟨_, hreaches, congrArg (Turn.ofMove _ (some token)) hreject⟩
  | unexpected hread =>
      have hlex := stage.lex_skipLayout
      rw [hread] at hlex
      exact ⟨_, stage.reaches_skipLayout, hlex⟩
  | unreadable hread =>
      have hlex := stage.lex_skipLayout
      rw [hread] at hlex
      exact ⟨_, stage.reaches_skipLayout, hlex⟩

/-- A round that accepts ends in its routines. -/
theorem Stage.exists_halted_of_accepted {stage : Stage} {routines : List Routine}
    (hround : stage.round = .accepted routines) :
    ∃ final, Config.Reaches ⟨stage, none⟩ final ∧ final.step = .halted (.ok routines) := by
  obtain ⟨hread, hfeeds⟩ := feeds_of_round_accepted hround
  obtain ⟨left, hreaches, haccept⟩ := Stage.exists_reaches_of_finished hread hfeeds
  exact ⟨_, hreaches, congrArg (Turn.ofMove _ none) haccept⟩

/-- The run of a script ends in its parse. -/
theorem exists_halted_parse (source : String) :
    ∃ final, Config.Reaches ⟨Stage.initial source, none⟩ final ∧
      final.step = .halted (parse source) := by
  cases hparse : parse source with
  | ok routines =>
      obtain ⟨pieces, stage, hreads, -, -, -, -, hround⟩ := exists_reads_of_parse source
      rw [hparse] at hround
      obtain ⟨final, hreaches, hhalted⟩ := Stage.exists_halted_of_accepted hround
      exact ⟨final, hreads.reaches.trans hreaches, hhalted⟩
  | error failure =>
      obtain ⟨pieces, stage, hreads, -, -, -, -, hrefuses⟩ := exists_refuses_of_parse hparse
      obtain ⟨final, hreaches, hhalted⟩ := hrefuses.exists_halted
      exact ⟨final, hreads.reaches.trans hreaches, hhalted⟩

/-- Parsing comes to an end.  Tokens and layout take up text; the machine reduces its
states, and no states whatever can be reduced for ever; so no run goes on for ever,
whatever configuration it begins with.  The run of a script never takes more off the
stack than there is and never misses a way on: it ends in the routines or the failure
that parsing the script gives. -/
theorem parse_halts (source : String) :
    (∀ t : Terminal, Consumes t.split?) ∧ Consumes splitGap? ∧
      (∀ (stack next : Stack) (lookahead : Option Token),
        Lr.Stack.move table stack lookahead = .reduce next →
          table.Reduces grammar (Lr.Stack.states stack) (Lr.Stack.states next)) ∧
      (WellFounded fun next states : List Nat => table.Reduces grammar states next) ∧
      (WellFounded fun next config : Config => config.step = .onward next) ∧
      (∀ config, Config.Reaches ⟨Stage.initial source, none⟩ config →
        config.step ≠ .derailed) ∧
      ∃ final, Config.Reaches ⟨Stage.initial source, none⟩ final ∧
        final.step = .halted (parse source) := by
  refine ⟨Terminal.consumes, consumes_splitGap?, ?_,
    Lr.Table.wellFounded_reduces grounded descending, Config.wellFounded_step, ?_,
    exists_halted_parse source⟩
  · intro stack next lookahead hmove
    have hmoves := Lr.Stack.moves_move table stack lookahead
    rw [hmove] at hmoves
    exact hmoves.reduces
  · intro config hreaches
    exact Config.step_ne_derailed (hreaches.traced .nil)

end Blockscript.Script
