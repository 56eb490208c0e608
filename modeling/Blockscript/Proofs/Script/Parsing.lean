import Blockscript.Proofs.Lr.Outline
import Blockscript.Proofs.Script.Admission
import Blockscript.Proofs.Script.Grounding
import Blockscript.Proofs.Text.Places

/-!
The scripts that parse.  A script is cut into pieces, each a lexeme with the
layout before it; a parse reads such pieces, one in each round, until the script
is accepted or refused.  The main result says that parsing succeeds with some
routines exactly when the pieces of the script derive these routines.
-/

namespace Blockscript.Script

/-- A lexeme as it stands in a script, with the layout before it. -/
structure Piece where
  gap : List Char
  kind : Terminal
  text : String
deriving DecidableEq

/-- A lexeme behind a blank. -/
def Piece.ofText (kind : Terminal) (text : String) : Piece :=
  ⟨[' '], kind, text⟩

/-- The text of pieces and of the layout behind them. -/
def written : List Piece → List Char → List Char
  | [], last => last
  | piece :: rest, last => piece.gap ++ (piece.text.toList ++ written rest last)

/-- The tokens of pieces that begin at a place. -/
def placed : Place → List Piece → List Token
  | _, [] => []
  | place, piece :: rest =>
      ⟨piece.kind, piece.text, place.after piece.gap⟩ ::
        placed ((place.after piece.gap).after piece.text.toList) rest

theorem length_placed (place : Place) (pieces : List Piece) :
    (placed place pieces).length = pieces.length := by
  induction pieces generalizing place with
  | nil => rfl
  | cons piece pieces ih => simp only [placed, List.length_cons, ih]

theorem map_kind_placed (place : Place) (pieces : List Piece) :
    (placed place pieces).map Token.kind = pieces.map Piece.kind := by
  induction pieces generalizing place with
  | nil => rfl
  | cons piece pieces ih => simp only [placed, List.map_cons, ih]

theorem placed_append (place : Place) (first rest : List Piece) :
    placed place (first ++ rest) =
      placed place first ++ placed (place.after (written first [])) rest := by
  induction first generalizing place with
  | nil => rfl
  | cons piece first ih =>
      simp only [List.cons_append, placed, written, ih, Place.after, List.foldl_append]

theorem written_append (first rest : List Piece) (last : List Char) :
    written (first ++ rest) last = written first (written rest last) := by
  induction first with
  | nil => rfl
  | cons piece first ih => simp only [List.cons_append, written, ih]

theorem written_eq_append (pieces : List Piece) (rest : List Char) :
    written pieces rest = written pieces [] ++ rest := by
  induction pieces with
  | nil => rfl
  | cons piece pieces ih => simp only [written, ih, List.append_assoc]

/-- Pieces are told by their tokens and the text they are cut off from. -/
theorem eq_of_placed_eq {place : Place} {first second : List Piece} {rest other : List Char}
    (hplaced : placed place first = placed place second)
    (hwritten : written first rest = written second other) : first = second := by
  induction first generalizing place second with
  | nil =>
      cases second with
      | nil => rfl
      | cons piece second => contradiction
  | cons piece first ih =>
      cases second with
      | nil => contradiction
      | cons seen second =>
          obtain ⟨gap, kind, text⟩ := piece
          obtain ⟨seenGap, seenKind, seenText⟩ := seen
          simp only [placed, List.cons.injEq, Token.mk.injEq] at hplaced
          obtain ⟨⟨rfl, rfl, hplace⟩, hrest⟩ := hplaced
          have hlength : gap.length = seenGap.length := by
            have hoffset := congrArg Place.offset hplace
            rw [Place.offset_after, Place.offset_after] at hoffset
            omega
          obtain ⟨rfl, htail⟩ := List.append_inj hwritten hlength
          rw [ih hrest (List.append_cancel_left htail)]

/-- Pieces that are layout and lexemes, cut off in front of any text.  Layout may be
missing between any two of them, but nothing that begins with a slash stands directly
behind a slash: the two would begin a comment. -/
inductive Cut : List Piece → List Char → Prop
  | nil {rest : List Char} : Cut [] rest
  | cons {piece : Piece} {pieces : List Piece} {rest : List Char}
      (hgap : IsLayout piece.gap) (hlexeme : piece.kind.IsLexeme piece.text.toList)
      (hslash : piece.text = "/" → (written pieces rest).head? ≠ some '/')
      (hrest : Cut pieces rest) : Cut (piece :: pieces) rest

/-- Pieces with nothing but layout behind them. -/
structure Spaced (pieces : List Piece) (last : List Char) : Prop where
  cut : Cut pieces last
  layout : IsEndLayout last

theorem head?_written_cons {piece : Piece} (hlexeme : piece.kind.IsLexeme piece.text.toList)
    (pieces : List Piece) (rest : List Char) :
    (written (piece :: pieces) rest).head? = (piece.gap ++ piece.text.toList).head? := by
  obtain ⟨c, tail, htext, -⟩ := hlexeme.begins
  simp [written, htext, List.head?_append]

/-- Pieces that were cut off in front of one text stand in front of another, unless
only that one begins with a slash. -/
theorem Cut.of_rest {pieces : List Piece} {rest other : List Char} (hcut : Cut pieces rest)
    (hhead : rest.head? ≠ some '/' → other.head? ≠ some '/') : Cut pieces other := by
  induction hcut with
  | nil => exact .nil
  | @cons piece pieces rest hgap hlexeme hslash hcut ih =>
      refine .cons hgap hlexeme (fun htext => ?_) (ih hhead)
      cases hcut with
      | nil => exact hhead (hslash htext)
      | cons _ hnext _ _ =>
          have hslash := hslash htext
          rwa [head?_written_cons hnext] at hslash ⊢

theorem Cut.append {first more : List Piece} {rest : List Char}
    (hfirst : Cut first (written more rest)) (hmore : Cut more rest) :
    Cut (first ++ more) rest := by
  induction first with
  | nil => exact hmore
  | cons piece first ih =>
      cases hfirst with
      | cons hgap hlexeme hslash hfirst =>
          rw [← written_append] at hslash
          exact .cons hgap hlexeme hslash (ih hfirst)

/-- A name in the place of a value is not one of the words of locations and
vectors. -/
def Unambiguous (left right : Piece) : Prop :=
  left.kind.opensValue = true → right.kind = .ident → right.text ∉ ["loc", "vec"]

instance : DecidableRel Unambiguous :=
  fun left _ => inferInstanceAs (Decidable (left.kind.opensValue = true → _))

/-- A name that no soft word of the admitted terminals can be mistaken for. -/
def Piece.NamedBeside (piece : Piece) (admitted : List Terminal) : Prop :=
  piece.kind = .ident → ∀ t ∈ admitted, t.softWord? ≠ some piece.text

theorem mem_admitted_of_feeds {stack next : Stack} {token : Token}
    (hfeeds : Lr.Stack.Feeds table stack (some token) (.shifted next)) :
    token.kind ∈ admitted stack :=
  List.mem_filterMap.mpr ⟨some token.kind, hfeeds.mem_lookaheads, rfl⟩

/-- What is admitted behind a shifted token can stand behind it. -/
theorem sequel_of_feeds {stack next : Stack} {token : Token}
    (hfeeds : Lr.Stack.Feeds table stack (some token) (.shifted next)) :
    Sequel token.kind (admitted next) := by
  obtain ⟨state, hshift⟩ := hfeeds.exists_shift?
  exact sequel_of_shift hshift

theorem Unambiguous.namedBeside {left right : Piece} {admitted : List Terminal}
    (hclear : Unambiguous left right) (hsequel : Sequel left.kind admitted)
    (horderly : Orderly admitted) (hright : right.kind ∈ admitted) :
    right.NamedBeside admitted := by
  intro hident t ht hword
  have hsoft := softWord?_eq_some_iff.mp hword
  have hvalue := horderly.2 (hident ▸ hright) t ht hsoft.1
  simp only [List.mem_cons, List.not_mem_nil, or_false] at hvalue
  rcases hvalue with rfl | rfl
  · exact hclear (hsequel.2.1 (.inl ht)) hident (by simp [← hsoft.2, Terminal.fixedText])
  · exact hclear (hsequel.2.1 (.inr ht)) hident (by simp [← hsoft.2, Terminal.fixedText])

theorem Piece.NamedBeside.unambiguous {left right : Piece} {admitted : List Terminal}
    (hnamed : right.NamedBeside admitted) (hsequel : Sequel left.kind admitted)
    (hright : right.kind ∈ admitted) : Unambiguous left right := by
  intro hopens hident htext
  obtain ⟨hloc, hvec⟩ := hsequel.2.2 hopens (hident ▸ hright)
  simp only [List.mem_cons, List.not_mem_nil, or_false] at htext
  rcases htext with htext | htext
  · exact hnamed hident .loc hloc (by rw [htext]; rfl)
  · exact hnamed hident .vec hvec (by rw [htext]; rfl)

/-! ### One round -/

theorem Round.atEnd_eq_accepted {last : Place} {outcome : Lr.Outcome attribution}
    {routines : List Routine} (h : Round.atEnd last outcome = .accepted routines) :
    outcome = .accepted routines := by
  cases outcome with
  | accepted found =>
      cases h
      rfl
  | _ => contradiction

theorem Round.atToken_eq_accepted {token : Token} {next : Cursor}
    {outcome : Lr.Outcome attribution} {routines : List Routine}
    (h : Round.atToken token next outcome = .accepted routines) :
    outcome = .accepted routines := by
  cases outcome with
  | accepted found =>
      cases h
      rfl
  | _ => contradiction

theorem Round.atToken_eq_onward {token : Token} {next behind : Cursor}
    {outcome : Lr.Outcome attribution} {stack : Stack} {last : Place}
    (h : Round.atToken token next outcome = .onward stack last behind) :
    outcome = .shifted stack ∧ last = token.place ∧ behind = next := by
  cases outcome with
  | shifted found =>
      cases h
      exact ⟨rfl, rfl, rfl⟩
  | _ => contradiction

theorem Round.atEnd_ne_onward {last ended : Place} {outcome : Lr.Outcome attribution}
    {stack : Stack} {behind : Cursor} :
    Round.atEnd last outcome ≠ .onward stack ended behind := by
  cases outcome <;> exact nofun

theorem round_of_shifted {stack next : Stack} {cursor behind : Cursor} {token : Token}
    (hread : cursor.read (admitted stack) = .token token behind)
    (hfeeds : Lr.Stack.Feeds table stack (some token) (.shifted next)) (last : Place) :
    round stack last cursor = .onward next token.place behind := by
  rw [round, hread]
  exact congrArg (Round.atToken token behind) (hfeeds.feed_eq descending)

theorem round_of_accepted {stack : Stack} {cursor : Cursor} {routines : List Routine}
    (hread : cursor.read (admitted stack) = .finished)
    (hfeeds : Lr.Stack.Feeds table stack none (.accepted routines)) (last : Place) :
    round stack last cursor = .accepted routines := by
  rw [round, hread]
  exact congrArg (Round.atEnd last) (hfeeds.feed_eq descending)

/-- A round that goes on has read and shifted a token. -/
theorem round_eq_onward {stack next : Stack} {last ended : Place} {cursor behind : Cursor}
    (hround : round stack last cursor = .onward next ended behind) :
    ∃ token, cursor.read (admitted stack) = .token token behind ∧ ended = token.place ∧
      Lr.Stack.Feeds table stack (some token) (.shifted next) := by
  rw [round] at hround
  split at hround
  · exact absurd hround Round.atEnd_ne_onward
  · rename_i token after hread
    obtain ⟨hfeed, rfl, rfl⟩ := Round.atToken_eq_onward hround
    exact ⟨token, hread, rfl, Lr.Stack.feeds_of_feedWithin hfeed (by simp)⟩
  · contradiction
  · contradiction

/-- A round accepts when it has fed the end of the script. -/
theorem feeds_of_round_accepted {stack : Stack} {last : Place} {cursor : Cursor}
    {routines : List Routine} (hround : round stack last cursor = .accepted routines) :
    cursor.read (admitted stack) = .finished ∧
      Lr.Stack.Feeds table stack none (.accepted routines) := by
  rw [round] at hround
  split at hround
  · rename_i hread
    exact ⟨hread, Lr.Stack.feeds_of_feedWithin (Round.atEnd_eq_accepted hround) (by simp)⟩
  · rename_i token after hread
    have hfeeds := Lr.Stack.feeds_of_feedWithin (Round.atToken_eq_accepted hround) (by simp)
    rcases hfeeds.cases_outcome with ⟨_, h⟩ | ⟨h, -⟩ | ⟨_, _, -, h⟩ <;> contradiction
  · contradiction
  · contradiction

/-- A round accepts at the end of a script that has been derived. -/
theorem round_eq_accepted {stack : Stack} {last : Place} {cursor : Cursor}
    {routines : List Routine} (hround : round stack last cursor = .accepted routines)
    {word : List Token} (hspans : Lr.Stack.Spans stack word) :
    IsEndLayout cursor.rest ∧ Lr.Derives attribution (.rule .program) routines word := by
  obtain ⟨hread, hfeeds⟩ := feeds_of_round_accepted hround
  exact ⟨Cursor.read_eq_finished hread, (hfeeds.spans mem_productions hspans).2⟩

/-! ### Rounds one after the other -/

/-- Where a parse stands: its stack, the place of the last token, and the text
that is left. -/
structure Stage where
  stack : Stack
  last : Place
  cursor : Cursor

def Stage.round (stage : Stage) : Round :=
  Script.round stage.stack stage.last stage.cursor

def Stage.parseWithin (rounds : Nat) (stage : Stage) : Except Failure (List Routine) :=
  Script.parseWithin rounds stage.stack stage.last stage.cursor

/-- Rounds that read the given tokens lead from one stage to another. -/
inductive Stage.Reads : Stage → List Token → Stage → Prop
  | nil {stage : Stage} : Reads stage [] stage
  | cons {stage final : Stage} {token : Token} {tokens : List Token} {next : Stack}
      {behind : Cursor} (hread : stage.cursor.read (admitted stage.stack) = .token token behind)
      (hfeeds : Lr.Stack.Feeds table stage.stack (some token) (.shifted next))
      (hrest : Reads ⟨next, token.place, behind⟩ tokens final) :
      Reads stage (token :: tokens) final

theorem Stage.Reads.append {stage middle final : Stage} {tokens more : List Token}
    (hreads : stage.Reads tokens middle) (hmore : middle.Reads more final) :
    stage.Reads (tokens ++ more) final := by
  induction hreads with
  | nil => exact hmore
  | cons hread hfeeds hrest ih => exact .cons hread hfeeds (ih hmore)

theorem Stage.Reads.shifts {stage final : Stage} {tokens : List Token}
    (hreads : stage.Reads tokens final) :
    Lr.Stack.Shifts table stage.stack tokens final.stack := by
  induction hreads with
  | nil => exact .nil
  | cons hread hfeeds hrest ih => exact .read hfeeds ih

/-- Reading tokens takes one round for each of them. -/
theorem Stage.Reads.parseWithin_eq {stage final : Stage} {tokens : List Token}
    (hreads : stage.Reads tokens final) (rounds : Nat) :
    stage.parseWithin (rounds + tokens.length) = final.parseWithin rounds := by
  induction hreads with
  | nil => rfl
  | cons hread hfeeds hrest ih =>
      rw [← ih]
      simp only [List.length_cons, ← Nat.add_assoc, Stage.parseWithin, Script.parseWithin,
        round_of_shifted hread hfeeds]

/-- The last round of a parse that has come to a result. -/
def Round.ofResult : Except Failure (List Routine) → Round
  | .ok routines => .accepted routines
  | .error failure => .refused failure

/-- A parse with enough rounds reads tokens up to the round that ends it. -/
theorem Stage.exists_reads {rounds : Nat} {stage : Stage}
    (hrounds : stage.cursor.rest.length < rounds) :
    ∃ tokens final, stage.Reads tokens final ∧
      final.round = .ofResult (stage.parseWithin rounds) := by
  induction rounds generalizing stage with
  | zero => contradiction
  | succ rounds ih =>
      simp only [Stage.parseWithin, Script.parseWithin]
      split
      · rename_i hround
        exact ⟨[], stage, .nil, hround⟩
      · rename_i hround
        exact ⟨[], stage, .nil, hround⟩
      · rename_i next ended behind hround
        obtain ⟨token, hread, rfl, hfeeds⟩ := round_eq_onward hround
        have hshorter : behind.rest.length < rounds := by
          have hless := Cursor.length_lt_of_read hread
          omega
        obtain ⟨tokens, final, hreads, hfinal⟩ := @ih ⟨next, token.place, behind⟩ hshorter
        exact ⟨token :: tokens, final, .cons hread hfeeds hreads, hfinal⟩

/-! ### Pieces are read -/

theorem Cut.length_le {pieces : List Piece} {rest : List Char} (hcut : Cut pieces rest) :
    pieces.length ≤ (written pieces rest).length := by
  induction hcut with
  | nil => exact Nat.zero_le _
  | cons hgap hlexeme hslash hrest ih =>
      obtain ⟨c, tail, htext, -⟩ := hlexeme.begins
      simp only [written, htext, List.length_append, List.length_cons]
      omega

/-- What is read for a shifted token ends where the next piece begins. -/
theorem Cut.ends {pieces : List Piece} {rest : List Char} (hcut : Cut pieces rest)
    (hrest : ∀ t : Terminal, t.Ends rest) {stack next last : Stack} {token : Token}
    {place : Place} (hfeeds : Lr.Stack.Feeds table stack (some token) (.shifted next))
    (hshifts : Lr.Stack.Shifts table next (placed place pieces) last) :
    (readAs (admitted stack) token.kind).Ends (written pieces rest) := by
  cases hcut with
  | nil => exact hrest _
  | cons hgap hlexeme hslash hcut =>
      cases hshifts with
      | read hnext _ =>
          have hborders := (sequel_of_feeds hfeeds).1 _ (mem_admitted_of_feeds hnext)
          exact Terminal.ends_readAs hborders hgap hlexeme _ (orderly_admitted stack)
            (mem_admitted_of_feeds hfeeds)

/-- Reading the pieces one by one follows the run of the machine over their
tokens, up to a text that ends the last of them. -/
theorem Cut.exists_reads {pieces : List Piece} {rest : List Char} (hcut : Cut pieces rest)
    (hrest : ∀ t : Terminal, t.Ends rest) (hchain : pieces.IsChain Unambiguous) {stack : Stack}
    (hnamed : ∀ piece ∈ pieces.head?, piece.NamedBeside (admitted stack))
    {place : Place} {final : Stack}
    (hshifts : Lr.Stack.Shifts table stack (placed place pieces) final) (last : Place) :
    ∃ ended, Stage.Reads ⟨stack, last, ⟨place, written pieces rest⟩⟩ (placed place pieces)
      ⟨final, ended, ⟨place.after (written pieces []), rest⟩⟩ := by
  induction hcut generalizing stack place last with
  | nil =>
      cases hshifts
      exact ⟨last, .nil⟩
  | @cons piece pieces rest hgap hlexeme hslash hcut ih =>
      cases hshifts with
      | @read _ next _ _ _ hfeeds hshifts =>
          have hright : ∀ piece ∈ pieces.head?, piece.NamedBeside (admitted next) := by
            intro right hright
            cases pieces with
            | nil => contradiction
            | cons first pieces =>
                cases hright
                cases hshifts with
                | read hnext _ =>
                    exact (List.isChain_cons_cons.mp hchain).1.namedBeside
                      (sequel_of_feeds hfeeds) (orderly_admitted next)
                      (mem_admitted_of_feeds hnext)
          have hread := Cursor.read_append (orderly_admitted stack).1
            (mem_admitted_of_feeds hfeeds) hgap hlexeme
            (fun heq => hslash (String.toList_inj.mp heq)) (hcut.ends hrest hfeeds hshifts)
            (fun hident t ht => by
              rw [String.ofList_toList]
              exact hnamed piece rfl hident t ht) place
          rw [String.ofList_toList] at hread
          obtain ⟨ended, hreads⟩ := ih hrest hchain.of_cons hright hshifts (place.after piece.gap)
          refine ⟨ended, .cons hread hfeeds ?_⟩
          simpa only [written, Place.after_append] using hreads

/-! ### What is read are pieces -/

/-- The tokens read by a parse are cut off from its text in pieces. -/
theorem Stage.Reads.exists_pieces {stage final : Stage} {tokens : List Token}
    (hreads : stage.Reads tokens final) :
    ∃ pieces, tokens = placed stage.cursor.place pieces ∧
      stage.cursor.rest = written pieces final.cursor.rest ∧
      final.cursor.place = stage.cursor.place.after (written pieces []) ∧
      Cut pieces final.cursor.rest ∧ pieces.IsChain Unambiguous ∧
      ∀ piece ∈ pieces.head?, piece.kind ∈ admitted stage.stack ∧
        piece.NamedBeside (admitted stage.stack) := by
  induction hreads with
  | nil => exact ⟨[], rfl, rfl, rfl, .nil, .nil, by simp⟩
  | @cons stage final token tokens next behind hread hfeeds hrest ih =>
      obtain ⟨gap, lexeme, hfirst, hgap, hlexeme, hsolid, htext, hplace, hbehind, hname⟩ :=
        Cursor.read_eq_token hread
      obtain ⟨pieces, rfl, hwritten, hfinal, hcut, hchain, hhead⟩ := ih
      obtain ⟨kind, text, place⟩ := token
      dsimp only at hlexeme htext hplace hname hwritten hfinal hhead
      subst htext hplace
      rw [hwritten] at hfirst hsolid
      refine ⟨⟨gap, kind, String.ofList lexeme⟩ :: pieces, ?_, ?_, ?_, .cons hgap ?_ ?_ hcut,
        ?_, ?_⟩
      · rw [placed, String.toList_ofList, hbehind]
      · rwa [written, String.toList_ofList]
      · rw [hfinal, hbehind, written, String.toList_ofList, Place.after_append,
          Place.after_append]
      · rwa [String.toList_ofList]
      · intro hslash
        have hlexeme : lexeme = ['/'] := by
          simpa using congrArg String.toList hslash
        subst hlexeme
        exact (hsolid '/' _ rfl).2 rfl
      · cases pieces with
        | nil => exact .singleton _
        | cons right pieces =>
            obtain ⟨hadmitted, hnamed⟩ := hhead right rfl
            exact .cons_cons
              (hnamed.unambiguous (sequel_of_feeds hfeeds) hadmitted) hchain
      · rintro piece ⟨⟩
        exact ⟨mem_admitted_of_feeds hfeeds, hname⟩

def Stage.initial (source : String) : Stage :=
  ⟨[], {}, { rest := source.toList }⟩

/-- A parse reads pieces of its script up to the round that ends it. -/
theorem exists_reads_of_parse (source : String) :
    ∃ pieces final, (Stage.initial source).Reads (placed {} pieces) final ∧
      source.toList = written pieces final.cursor.rest ∧
      final.cursor.place = ({} : Place).after (written pieces []) ∧
      Cut pieces final.cursor.rest ∧ pieces.IsChain Unambiguous ∧
      final.round = .ofResult (parse source) := by
  obtain ⟨tokens, final, hreads, hfinal⟩ :=
    Stage.exists_reads (Nat.lt_succ_self (Stage.initial source).cursor.rest.length)
  obtain ⟨pieces, rfl, hsource, hplace, hcut, hchain, -⟩ := hreads.exists_pieces
  exact ⟨pieces, final, hreads, hsource, hplace, hcut, hchain, hfinal⟩

/-- Reading tokens up to a round that ends a parse gives its result. -/
theorem Stage.Reads.parse_eq {source : String} {tokens : List Token} {final : Stage}
    {result : Except Failure (List Routine)}
    (hreads : (Stage.initial source).Reads tokens final)
    (hround : final.round = .ofResult result) : parse source = result := by
  obtain ⟨pieces, rfl, hsource, -, hcut, -⟩ := hreads.exists_pieces
  have hlength : pieces.length ≤ source.toList.length := by
    have hshort := hcut.length_le
    rwa [← hsource] at hshort
  obtain ⟨spare, hspare⟩ := Nat.exists_eq_add_of_le hlength
  have hparse := hreads.parseWithin_eq (spare + 1)
  rw [length_placed, Nat.add_right_comm, Nat.add_comm spare, ← hspare] at hparse
  refine hparse.trans ?_
  unfold Stage.round at hround
  simp only [Stage.parseWithin, Script.parseWithin, hround]
  cases result <;> rfl

/-! ### The scripts that parse -/

/-- Nothing but a keyword of a routine is admitted before the first token. -/
theorem namedBeside_start (piece : Piece) : piece.NamedBeside (admitted []) := by
  intro hident t ht hword
  have hstart : ∀ t ∈ rowAdmitted (rows[0]?.getD {}), t.softWord? = none := by decide +kernel
  rw [admitted, lookaheads, row_eq] at ht
  rw [hstart t ht] at hword
  contradiction

/-- Pieces that make up a script with some routines. -/
structure Parsed (pieces : List Piece) (last : List Char) (routines : List Routine) :
    Prop where
  spaced : Spaced pieces last
  unambiguous : pieces.IsChain Unambiguous
  derives : Lr.Derives attribution (.rule .program) routines (placed {} pieces)

/-- Pieces that derive routines are read up to a stack that accepts these, whatever
text ends the last of them. -/
theorem Parsed.exists_reads {pieces : List Piece} {last : List Char} {routines : List Routine}
    (hparsed : Parsed pieces last routines) {rest : List Char} (hcut : Cut pieces rest)
    (hrest : ∀ t : Terminal, t.Ends rest) :
    ∃ stack ended, Lr.Stack.Feeds table stack none (.accepted routines) ∧
      (Stage.initial (String.ofList (written pieces rest))).Reads (placed {} pieces)
        ⟨stack, ended, ⟨({} : Place).after (written pieces []), rest⟩⟩ := by
  have haccepts := hparsed.derives.accepts_start saturated complete rfl
  rw [← List.append_nil (placed {} pieces)] at haccepts
  obtain ⟨stack, hshifts, haccepts⟩ := haccepts.exists_shifts
  obtain ⟨ended, hreads⟩ := hcut.exists_reads hrest hparsed.unambiguous
    (fun piece _ => namedBeside_start piece) hshifts {}
  rw [Stage.initial, String.toList_ofList]
  cases haccepts with
  | finish hfeeds => exact ⟨stack, ended, hfeeds, hreads⟩

/-- Pieces that derive routines are parsed to them. -/
theorem Parsed.parse_eq {pieces : List Piece} {last : List Char} {routines : List Routine}
    (hparsed : Parsed pieces last routines) :
    parse (String.ofList (written pieces last)) = .ok routines := by
  obtain ⟨hcut, hlast⟩ := hparsed.spaced
  obtain ⟨stack, ended, hfeeds, hreads⟩ := hparsed.exists_reads hcut hlast.ends
  exact hreads.parse_eq (round_of_accepted (Cursor.read_end hlast _ _) hfeeds _)

/-- A script parses to some routines exactly when it is written in pieces that
derive them. -/
theorem parse_eq_ok_iff {source : String} {routines : List Routine} :
    parse source = .ok routines ↔
      ∃ pieces last, source.toList = written pieces last ∧ Parsed pieces last routines := by
  constructor
  · intro hparse
    obtain ⟨pieces, final, hreads, hsource, -, hcut, hchain, hfinal⟩ :=
      exists_reads_of_parse source
    rw [hparse] at hfinal
    have hspans := hreads.shifts.spans mem_productions .nil
    obtain ⟨hlast, hderives⟩ := round_eq_accepted hfinal hspans
    exact ⟨pieces, _, hsource, ⟨hcut, hlast⟩, hchain, hderives⟩
  · rintro ⟨pieces, last, hsource, hparsed⟩
    rw [← String.ofList_toList (s := source), hsource]
    exact hparsed.parse_eq

end Blockscript.Script
