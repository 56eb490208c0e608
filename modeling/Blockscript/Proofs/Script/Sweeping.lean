import Blockscript.Proofs.Script.Scanning

/-!
Open braces in one pass.  A sweep reads a text character by character and keeps a
mode and the offsets of the open braces.  Scanning for open braces, which leaps over
quoted texts and comments, gives the same braces on every text, valid or not.
-/

namespace Blockscript.Script

/-- What the next character of a text belongs to. -/
inductive Mode where
  | code
  | quoted
  /-- Behind a backslash in a quoted text. -/
  | escaped
  | comment
deriving DecidableEq, Repr

/-- A pass over a text: the mode, how many characters have been read, and the offsets
of the braces that are open, the last one first. -/
structure Sweep where
  mode : Mode := .code
  offset : Nat := 0
  opened : List Nat := []
deriving DecidableEq, Repr

namespace Sweep

/-- The mode behind a character; `next` is the character after it. -/
def modeAfter (c : Char) (next : Option Char) : Mode → Mode
  | .code =>
      if c = '"' then .quoted else if c = '/' ∧ next = some '/' then .comment else .code
  | .quoted => if c = '"' then .code else if c = '\\' then .escaped else .quoted
  | .escaped => .quoted
  | .comment => if c = '\n' then .code else .comment

/-- The open braces behind a character at an offset. -/
def openedAfter (c : Char) (offset : Nat) (opened : List Nat) : Mode → List Nat
  | .code => if c = '{' then offset :: opened else if c = '}' then opened.tail else opened
  | _ => opened

def step (sweep : Sweep) (c : Char) (next : Option Char) : Sweep where
  mode := modeAfter c next sweep.mode
  offset := sweep.offset + 1
  opened := openedAfter c sweep.offset sweep.opened sweep.mode

def run : Sweep → List Char → Sweep
  | sweep, [] => sweep
  | sweep, c :: rest => (sweep.step c rest.head?).run rest

/-- A quoted text is read up to its closing quote. -/
theorem opened_run_quoted (offset : Nat) (opened : List Nat) (cs : List Char) :
    (run ⟨.quoted, offset, opened⟩ cs).opened =
      (run ⟨.code, offset + (throughQuote cs).1.length, opened⟩ (throughQuote cs).2).opened := by
  fun_induction throughQuote cs generalizing offset with
  | case1 rest => rfl
  | case2 c rest parts ih =>
      have hpair : run ⟨.quoted, offset, opened⟩ ('\\' :: c :: rest) =
          run ⟨.quoted, offset + 2, opened⟩ rest := rfl
      rw [hpair, ih, List.length_cons, List.length_cons]
      ac_rfl
  | case3 c rest hquote hslash parts ih =>
      by_cases hc : c = '\\'
      · -- A backslash at the end of the text protects nothing.
        obtain rfl : rest = [] := by
          cases rest with
          | nil => rfl
          | cons d rest => exact absurd rfl (hslash d rest hc)
        rfl
      · have hplain : run ⟨.quoted, offset, opened⟩ (c :: rest) =
            run ⟨.quoted, offset + 1, opened⟩ rest := by
          rw [run, step, modeAfter, if_neg hquote, if_neg hc]
          rfl
        rw [hplain, ih, List.length_cons]
        ac_rfl
  | case4 => rfl

/-- A comment is read up to the end of its line. -/
theorem opened_run_comment (offset : Nat) (opened : List Nat) (cs : List Char) :
    (run ⟨.comment, offset, opened⟩ cs).opened =
      (run ⟨.code, offset + (throughLine cs).1.length, opened⟩ (throughLine cs).2).opened := by
  induction cs generalizing offset with
  | nil => rfl
  | cons c rest ih =>
      by_cases hc : c = '\n'
      · rw [throughLine, if_pos hc, run, step, modeAfter, if_pos hc]
        rfl
      · have hstep : run ⟨.comment, offset, opened⟩ (c :: rest) =
            run ⟨.comment, offset + 1, opened⟩ rest := by
          rw [run, step, modeAfter, if_neg hc]
          rfl
        rw [throughLine, if_neg hc, hstep, ih, List.length_cons]
        ac_rfl

/-- In code a character that opens neither a text nor a comment changes the braces only. -/
theorem run_code {c : Char} (hquote : c ≠ '"') {rest : List Char}
    (hslash : ¬ (c = '/' ∧ rest.head? = some '/')) (offset : Nat) (opened : List Nat) :
    run ⟨.code, offset, opened⟩ (c :: rest) =
      run ⟨.code, offset + 1, openedAfter c offset opened .code⟩ rest := by
  rw [run, step, modeAfter, if_neg hquote, if_neg hslash]

end Sweep

/-! ### Scanner and sweep -/

theorem throughQuote_append_eq (cs : List Char) :
    (throughQuote cs).1 ++ (throughQuote cs).2 = cs := by
  fun_induction throughQuote cs with
  | case1 rest => rfl
  | case2 c rest parts ih => exact congrArg (fun cs => '\\' :: c :: cs) ih
  | case3 c rest hquote hslash parts ih => exact congrArg (List.cons c) ih
  | case4 => rfl

theorem throughLine_append_eq (cs : List Char) :
    (throughLine cs).1 ++ (throughLine cs).2 = cs := by
  induction cs with
  | nil => rfl
  | cons c rest ih =>
      rw [throughLine]
      split
      · rfl
      · exact congrArg (List.cons c) ih

/-- Behind `before` the scanner reads `read` in one round, and so does the sweep; the
braces are those in `next` then. -/
structure Strides (before : List Char) (pending : List Place) (cs : List Char)
    (read left : List Char) (next : List Place) : Prop where
  split : cs = read ++ left
  shorter : left.length < cs.length
  braces : ∀ brace ∈ next,
    brace ∈ pending ∨ brace = ({} : Place).after before ∧ cs.head? = some '{'
  scan : openBracesFrom (({} : Place).after before) pending cs =
    openBracesFrom (({} : Place).after (before ++ read)) next left
  sweep : (Sweep.run ⟨.code, before.length, pending.map Place.offset⟩ cs).opened =
    (Sweep.run ⟨.code, (before ++ read).length, next.map Place.offset⟩ left).opened

section Strides

variable (before : List Char) (pending : List Place)

theorem strides_quote (rest : List Char) :
    Strides before pending ('"' :: rest) ('"' :: (throughQuote rest).1) (throughQuote rest).2
      pending where
  split := by rw [List.cons_append, throughQuote_append_eq]
  shorter := Nat.lt_succ_of_le (length_throughQuote_le rest)
  braces _ hbrace := .inl hbrace
  scan := by rw [openBracesFrom_cons, if_pos rfl, Place.after_append]
  sweep := by
    have hopened := Sweep.opened_run_quoted (before.length + 1) (pending.map Place.offset) rest
    rw [List.length_append, List.length_cons, Nat.add_comm _ 1, ← Nat.add_assoc, ← hopened]
    rfl

theorem strides_comment {rest : List Char} (hslash : rest.head? = some '/') :
    Strides before pending ('/' :: rest) ('/' :: (throughLine rest).1) (throughLine rest).2
      pending where
  split := by rw [List.cons_append, throughLine_append_eq]
  shorter := Nat.lt_succ_of_le (length_throughLine_le rest)
  braces _ hbrace := .inl hbrace
  scan := by
    rw [openBracesFrom_cons, if_neg (by decide), if_pos ⟨rfl, hslash⟩, Place.after_append]
  sweep := by
    have hopened := Sweep.opened_run_comment (before.length + 1) (pending.map Place.offset) rest
    rw [List.length_append, List.length_cons, Nat.add_comm _ 1, ← Nat.add_assoc, ← hopened,
      Sweep.run, Sweep.step, Sweep.modeAfter, if_neg (by decide), if_pos ⟨rfl, hslash⟩]
    rfl

theorem exists_strides_code {c : Char} (hquote : c ≠ '"') {rest : List Char}
    (hslash : ¬ (c = '/' ∧ rest.head? = some '/')) :
    ∃ next, Strides before pending (c :: rest) [c] rest next := by
  have hscan := openBracesFrom_cons (({} : Place).after before) pending c rest
  have hoffset : (({} : Place).after before).offset = before.length := by
    rw [Place.offset_after, Nat.zero_add]
  rw [if_neg hquote, if_neg hslash] at hscan
  by_cases hopen : c = '{'
  · refine ⟨({} : Place).after before :: pending, rfl, Nat.lt_succ_self _, ?_, ?_, ?_⟩
    · rintro brace (_ | ⟨_, hbrace⟩)
      · exact .inr ⟨rfl, congrArg some hopen⟩
      · exact .inl hbrace
    · rw [hscan, if_pos hopen, Place.after_append]
      rfl
    · rw [Sweep.run_code hquote hslash, Sweep.openedAfter, if_pos hopen, List.map_cons, hoffset,
        List.length_append]
      rfl
  · rw [if_neg hopen] at hscan
    by_cases hclose : c = '}'
    · refine ⟨pending.drop 1, rfl, Nat.lt_succ_self _, ?_, ?_, ?_⟩
      · exact fun brace hbrace => .inl (List.mem_of_mem_drop hbrace)
      · rw [hscan, if_pos hclose, Place.after_append]
        rfl
      · rw [Sweep.run_code hquote hslash, Sweep.openedAfter, if_neg hopen, if_pos hclose,
          List.drop_one, List.map_tail, List.length_append]
        rfl
    · refine ⟨pending, rfl, Nat.lt_succ_self _, fun brace hbrace => .inl hbrace, ?_, ?_⟩
      · rw [hscan, if_neg hclose, Place.after_append]
        rfl
      · rw [Sweep.run_code hquote hslash, Sweep.openedAfter, if_neg hopen, if_neg hclose,
          List.length_append]
        rfl

/-- From code to code the scanner and the sweep go in step. -/
theorem exists_strides (c : Char) (rest : List Char) :
    ∃ read left next, Strides before pending (c :: rest) read left next := by
  by_cases hquote : c = '"'
  · exact ⟨_, _, _, hquote ▸ strides_quote before pending rest⟩
  · by_cases hslash : c = '/' ∧ rest.head? = some '/'
    · obtain ⟨rfl, hnext⟩ := hslash
      exact ⟨_, _, _, strides_comment before pending hnext⟩
    · obtain ⟨next, hstrides⟩ := exists_strides_code before pending hquote hslash
      exact ⟨_, _, _, hstrides⟩

end Strides

/-- A place in a text where a brace is opened. -/
def OpensAt (text : List Char) (brace : Place) : Prop :=
  ∃ before after, text = before ++ '{' :: after ∧ brace = ({} : Place).after before

/-- The scanner finds the braces that are open at the end of the sweep. -/
theorem openBracesFrom_eq_sweep {text before cs : List Char} (htext : text = before ++ cs)
    {pending : List Place} (hpending : ∀ brace ∈ pending, OpensAt text brace) :
    (openBracesFrom (({} : Place).after before) pending cs).map Place.offset =
        (Sweep.run ⟨.code, before.length, pending.map Place.offset⟩ cs).opened ∧
      ∀ brace ∈ openBracesFrom (({} : Place).after before) pending cs, OpensAt text brace := by
  induction hlength : cs.length using Nat.strongRecOn generalizing before cs pending with
  | ind n ih =>
      cases cs with
      | nil => exact ⟨rfl, hpending⟩
      | cons c rest =>
          obtain ⟨read, left, next, hstrides⟩ := exists_strides before pending c rest
          rw [hstrides.scan, hstrides.sweep]
          refine ih left.length (hlength ▸ hstrides.shorter) ?_ ?_ rfl
          · rw [htext, hstrides.split, List.append_assoc]
          · intro brace hbrace
            rcases hstrides.braces brace hbrace with hold | ⟨rfl, hnew⟩
            · exact hpending brace hold
            · cases hnew
              exact ⟨before, rest, htext, rfl⟩

/-- The offsets of the braces that a text leaves open, the last one first. -/
def leftOpen (text : List Char) : List Nat :=
  (Sweep.run {} text).opened

theorem openBraces_eq_leftOpen (text : List Char) :
    (openBraces text).map Place.offset = leftOpen text ∧
      ∀ brace ∈ openBraces text, OpensAt text brace :=
  openBracesFrom_eq_sweep (List.nil_append text).symm (by simp)

/-! ### Where the brace stands -/

/-- The place of a character, told by its offset: its line is one more than the line
feeds before it, its column the distance from the last of them. -/
def placeAt (text : List Char) (offset : Nat) : Place where
  offset
  line := 1 + (text.take offset).count '\n'
  column := (offset - Text.lastLineFeed (text.take offset)).toNat

theorem OpensAt.eq_placeAt {text : List Char} {brace : Place} (hopens : OpensAt text brace) :
    brace = placeAt text brace.offset := by
  obtain ⟨before, after, rfl, rfl⟩ := hopens
  have hlast := Text.length_lastLine before
  rw [Place.after_eq, placeAt, List.take_left]
  simp only [Place.mk.injEq, true_and]
  omega

theorem OpensAt.characterAt?_eq {text : List Char} {brace : Place} (hopens : OpensAt text brace) :
    Text.characterAt? text brace.line brace.column = some '{' := by
  obtain ⟨before, after, rfl, rfl⟩ := hopens
  rw [Place.after_eq]
  exact Text.characterAt?_append (by decide) before after

/-- On every text the innermost open brace is the last one that the sweep leaves open,
told by its line and column, and a brace stands there.  Bounding the scan by the length
of the text does not cut it short. -/
theorem unclosedBrace?_eq_placeAt (source : String) :
    (∀ rounds, source.toList.length ≤ rounds →
      (openBracesWithin rounds {} [] source.toList).head? = unclosedBrace? source) ∧
    unclosedBrace? source =
      (leftOpen source.toList).head?.map (placeAt source.toList) ∧
    ∀ brace ∈ unclosedBrace? source,
      Text.characterAt? source.toList brace.line brace.column = some '{' := by
  obtain ⟨hoffsets, hopens⟩ := openBraces_eq_leftOpen source.toList
  refine ⟨fun rounds hrounds => ?_, ?_, fun brace hbrace => ?_⟩
  · exact congrArg List.head? (openBracesWithin_eq_of_le hrounds (Nat.le_refl _) {} [])
  · rw [← hoffsets, List.head?_map, Option.map_map, unclosedBrace?]
    cases hhead : (openBraces source.toList).head? with
    | none => rfl
    | some brace =>
        have hplace := (hopens brace (List.mem_of_mem_head? hhead)).eq_placeAt
        exact congrArg some hplace
  · exact (hopens brace (List.mem_of_mem_head? hbrace)).characterAt?_eq

/-- A brace in a comment, one that is open, and one in a text that does not end. -/
def unended : String :=
  "// \x7b\nfunc f() \x7b\"\x7d\\"

theorem unclosedBrace?_eq_placeAt_unended :
    (openBracesWithin 100 {} [] unended.toList).head? = some ⟨14, 2, 10⟩ ∧
      unclosedBrace? unended = some ⟨14, 2, 10⟩ ∧
      Text.characterAt? unended.toList 2 10 = some '{' := by
  obtain ⟨hbound, heq, hbrace⟩ := unclosedBrace?_eq_placeAt unended
  have hplace : unclosedBrace? unended = some ⟨14, 2, 10⟩ := heq.trans (by decide)
  exact ⟨(hbound 100 (by decide)).trans hplace, hplace, hbrace _ hplace⟩

end Blockscript.Script
