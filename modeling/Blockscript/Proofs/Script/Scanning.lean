import Blockscript.Proofs.Script.Failing
import Mathlib.Data.Bool.AllAny

/-!
Scanning for open braces agrees with parsing.  Over the pieces of a script the
scanner goes from one brace token to the next, whatever stands in layout and
quoted texts; a derived word closes all of its braces; so the braces that are
open at the end are the ones on the stack of the machine.
-/

namespace Blockscript.Script

/-! ### The scanner without its bound -/

theorem length_throughQuote_le (cs : List Char) :
    (throughQuote cs).2.length ≤ cs.length := by
  fun_induction throughQuote cs with
  | case1 rest => simp
  | case2 c rest parts ih =>
      have hparts : parts.2.length ≤ rest.length := ih
      simp only [List.length_cons]
      omega
  | case3 c rest hquote hslash parts ih =>
      have hparts : parts.2.length ≤ rest.length := ih
      simp only [List.length_cons]
      omega
  | case4 => simp

theorem length_throughLine_le (cs : List Char) :
    (throughLine cs).2.length ≤ cs.length := by
  induction cs with
  | nil => exact Nat.le_refl 0
  | cons c rest ih =>
      rw [throughLine]
      split
      · simp
      · simp only [List.length_cons]
        omega

/-- Any bound that is not below the length of the text gives the same braces. -/
theorem openBracesWithin_eq_of_le {cs : List Char} {rounds more : Nat}
    (hrounds : cs.length ≤ rounds) (hmore : cs.length ≤ more) (place : Place)
    (pending : List Place) :
    openBracesWithin rounds place pending cs = openBracesWithin more place pending cs := by
  induction rounds generalizing cs more place pending with
  | zero =>
      obtain rfl := List.eq_nil_of_length_eq_zero (Nat.le_zero.mp hrounds)
      cases more <;> rfl
  | succ rounds ih =>
      cases cs with
      | nil => cases more <;> rfl
      | cons c rest =>
          cases more with
          | zero => contradiction
          | succ more =>
              simp only [List.length_cons, Nat.add_le_add_iff_right] at hrounds hmore
              have hquote := length_throughQuote_le rest
              have hline := length_throughLine_le rest
              simp only [openBracesWithin]
              split
              · exact ih (hquote.trans hrounds) (hquote.trans hmore) _ _
              · split
                · exact ih (hline.trans hrounds) (hline.trans hmore) _ _
                · split
                  · exact ih hrounds hmore _ _
                  · split
                    · exact ih hrounds hmore _ _
                    · exact ih hrounds hmore _ _

/-- The braces left open by a text from a place on, over those in `pending`. -/
def openBracesFrom (place : Place) (pending : List Place) (cs : List Char) : List Place :=
  openBracesWithin cs.length place pending cs

theorem openBracesFrom_cons (place : Place) (pending : List Place) (c : Char)
    (rest : List Char) :
    openBracesFrom place pending (c :: rest) =
      if c = '"' then
        openBracesFrom (place.after (c :: (throughQuote rest).1)) pending (throughQuote rest).2
      else if c = '/' ∧ rest.head? = some '/' then
        openBracesFrom (place.after (c :: (throughLine rest).1)) pending (throughLine rest).2
      else if c = '{' then openBracesFrom (place.next c) (place :: pending) rest
      else if c = '}' then openBracesFrom (place.next c) (pending.drop 1) rest
      else openBracesFrom (place.next c) pending rest := by
  have hquote := openBracesWithin_eq_of_le (length_throughQuote_le rest) (Nat.le_refl _)
  have hline := openBracesWithin_eq_of_le (length_throughLine_le rest) (Nat.le_refl _)
  simp only [openBracesFrom, List.length_cons, openBracesWithin, hquote, hline]

/-! ### Scanning over layout and lexemes -/

theorem openBracesFrom_plain {c : Char} (hc : c ∉ ['"', '{', '}']) {rest : List Char}
    (hslash : c = '/' → rest.head? ≠ some '/') (place : Place) (pending : List Place) :
    openBracesFrom place pending (c :: rest) = openBracesFrom (place.next c) pending rest := by
  simp only [List.mem_cons, List.not_mem_nil, or_false, not_or] at hc
  rw [openBracesFrom_cons, if_neg hc.1, if_neg (fun h => hslash h.1 h.2), if_neg hc.2.1,
    if_neg hc.2.2]

theorem openBracesFrom_plain_append {text : List Char}
    (htext : ∀ c ∈ text, c ∉ ['"', '{', '}', '/']) (rest : List Char) (place : Place)
    (pending : List Place) :
    openBracesFrom place pending (text ++ rest) =
      openBracesFrom (place.after text) pending rest := by
  induction text generalizing place with
  | nil => rfl
  | cons c text ih =>
      obtain ⟨hc, htext⟩ := List.forall_mem_cons.mp htext
      rw [List.cons_append, openBracesFrom_plain, ih htext]
      · rfl
      · intro hmem
        apply hc
        simp only [List.mem_cons, List.not_mem_nil, or_false] at hmem ⊢
        tauto
      · rintro rfl
        exact absurd (by simp) hc

theorem throughLine_append {body : List Char} (hbody : '\n' ∉ body) (rest : List Char) :
    throughLine (body ++ '\n' :: rest) = (body ++ ['\n'], rest) := by
  induction body with
  | nil => rfl
  | cons c body ih =>
      simp only [List.mem_cons, not_or] at hbody
      rw [List.cons_append, throughLine, if_neg (Ne.symm hbody.1), ih hbody.2]
      rfl

theorem throughLine_eq {body : List Char} (hbody : '\n' ∉ body) :
    throughLine body = (body, []) := by
  induction body with
  | nil => rfl
  | cons c body ih =>
      simp only [List.mem_cons, not_or] at hbody
      rw [throughLine, if_neg (Ne.symm hbody.1), ih hbody.2]

theorem openBracesFrom_comment (rest : List Char) (place : Place) (pending : List Place) :
    openBracesFrom place pending ('/' :: '/' :: rest) =
      openBracesFrom (place.after ('/' :: '/' :: (throughLine rest).1)) pending
        (throughLine rest).2 := by
  rw [openBracesFrom_cons, if_neg (by decide), if_pos ⟨rfl, rfl⟩]
  rfl

theorem IsLayout.openBracesFrom_append {gap : List Char} (hgap : IsLayout gap)
    (rest : List Char) (place : Place) (pending : List Place) :
    openBracesFrom place pending (gap ++ rest) =
      openBracesFrom (place.after gap) pending rest := by
  induction hgap generalizing place with
  | nil => rfl
  | @blank c gap hc hgap ih =>
      have hblank : ∀ c ∈ [' ', '\t', '\x0c', '\r', '\n'], c ∉ ['"', '{', '}'] ∧ c ≠ '/' :=
        List.all_iff_forall_prop.mp (by decide)
      obtain ⟨hplain, hslash⟩ := hblank c (isBlank_eq_true_iff.mp hc)
      rw [List.cons_append, openBracesFrom_plain hplain (fun h => absurd h hslash), ih]
      rfl
  | @comment body gap hbody hgap ih =>
      have hline := throughLine_append hbody (gap ++ rest)
      simp only [List.cons_append, List.append_assoc, openBracesFrom_comment, hline, ih,
        ← Place.after_append, List.nil_append]

theorem IsEndLayout.openBracesFrom_eq {gap : List Char} (hgap : IsEndLayout gap)
    (place : Place) (pending : List Place) : openBracesFrom place pending gap = pending := by
  cases hgap with
  | closed hgap =>
      have hscan := hgap.openBracesFrom_append [] place pending
      rw [List.append_nil] at hscan
      exact hscan
  | comment hgap hbody =>
      rw [hgap.openBracesFrom_append, openBracesFrom_comment, throughLine_eq hbody]
      rfl

theorem throughQuote_append {content : List Char} (hcontent : IsQuotable content)
    (rest : List Char) :
    throughQuote (content ++ '"' :: rest) = (content ++ ['"'], rest) := by
  induction hcontent with
  | nil => rfl
  | @plain c content hquote hslash hline hcontent ih =>
      rw [List.cons_append, throughQuote.eq_3 c _ hquote fun _ _ h _ => hslash h, ih]
      rfl
  | escape hline hcontent ih =>
      simp only [List.cons_append, throughQuote, ih]

/-- What a token does to the braces that are open. -/
def braceStep (pending : List Place) (token : Token) : List Place :=
  match token.kind with
  | .leftBrace => token.place :: pending
  | .rightBrace => pending.drop 1
  | _ => pending

/-- The lexemes of a terminal hold no sign that the scanner heeds. -/
theorem Terminal.IsLexeme.plain {t : Terminal} {lexeme : List Char} (hlexeme : t.IsLexeme lexeme)
    (ht : t ∉ [.text, .operator, .leftBrace, .rightBrace]) :
    ∀ c ∈ lexeme, c ∉ ['"', '{', '}', '/'] := by
  have hnames : ∀ c ∈ ['"', '{', '}', '/'], isNameChar c = false :=
    List.all_iff_forall_prop.mp (by decide)
  have hplain : ∀ text : List Char, text.all (· ∉ ['"', '{', '}', '/']) = true →
      ∀ c ∈ text, c ∉ ['"', '{', '}', '/'] := fun _ => List.all_iff_forall_prop.mp
  intro c hc hmem
  cases t with
  | text | operator | leftBrace | rightBrace => exact ht (by decide)
  | ident =>
      have hname := hlexeme.all c hc
      rw [hnames c hmem] at hname
      exact Bool.false_ne_true hname
  | number =>
      have hnumeral : ∀ c ∈ ['"', '{', '}', '/'],
          ¬ (c.isDigit = true ∨ c ∈ ['+', '-', '.', 'e', 'E']) :=
        List.all_iff_forall_prop.mp (by decide)
      exact hnumeral c hmem (hlexeme.all c hc)
  | scopePrefix =>
      have hscopes : ∀ word ∈ scopeWords,
          (word.toList ++ [':']).all (· ∉ ['"', '{', '}', '/']) = true := by decide
      obtain ⟨word, hword, rfl⟩ := hlexeme
      exact hplain _ (hscopes word hword) c hc hmem
  | _ =>
      cases hlexeme
      exact hplain _ (by decide) c hc hmem

/-- Over a lexeme the scanner does what its token does. -/
theorem Terminal.IsLexeme.openBracesFrom_append {t : Terminal} {text : String}
    (hlexeme : t.IsLexeme text.toList) {rest : List Char}
    (hslash : text = "/" → rest.head? ≠ some '/') (place : Place) (pending : List Place) :
    openBracesFrom place pending (text.toList ++ rest) =
      openBracesFrom (place.after text.toList) (braceStep pending ⟨t, text, place⟩) rest := by
  by_cases hplain : t ∈ [.text, .operator, .leftBrace, .rightBrace]
  · simp only [List.mem_cons, List.not_mem_nil, or_false] at hplain
    rcases hplain with rfl | rfl | rfl | rfl
    · generalize htext : text.toList = quoted at hlexeme
      cases hlexeme with
      | @intro content hcontent =>
          have hquote := throughQuote_append hcontent rest
          simp only [List.cons_append, List.append_assoc, List.nil_append, openBracesFrom_cons,
            ↓reduceIte, hquote, braceStep]
    · obtain ⟨sign, hsign, htext⟩ := hlexeme
      rw [htext]
      have hother : ∀ c ∈ operatorSigns, c ∉ ['"', '{', '}'] :=
        List.all_iff_forall_prop.mp (by decide)
      refine openBracesFrom_plain (hother sign hsign) ?_ place pending
      rintro rfl
      exact hslash (String.toList_inj.mp htext)
    · have htext : text.toList = ['{'] := hlexeme
      rw [htext, List.singleton_append, openBracesFrom_cons]
      rfl
    · have htext : text.toList = ['}'] := hlexeme
      rw [htext, List.singleton_append, openBracesFrom_cons]
      rfl
  · rw [openBracesFrom_plain_append (hlexeme.plain hplain)]
    cases t with
    | leftBrace | rightBrace => exact absurd (by decide) hplain
    | _ => rfl

/-- Over pieces the scanner goes from token to token. -/
theorem Cut.openBracesFrom_written {pieces : List Piece} {rest : List Char}
    (hcut : Cut pieces rest) (place : Place) (pending : List Place) :
    openBracesFrom place pending (written pieces rest) =
      openBracesFrom (place.after (written pieces []))
        ((placed place pieces).foldl braceStep pending) rest := by
  induction hcut generalizing place pending with
  | nil => rfl
  | cons hgap hlexeme hslash hcut ih =>
      rw [written, hgap.openBracesFrom_append, hlexeme.openBracesFrom_append hslash, ih]
      simp only [written, placed, List.foldl_cons, Place.after_append]

/-! ### Derived words close their braces -/

/-- How many braces are open behind a symbol when `depth` were open before it. -/
def depthStep (depth : Nat) : Lr.Symbol Terminal Rule → Option Nat
  | .terminal .leftBrace => some (depth + 1)
  | .terminal .rightBrace => if depth = 0 then none else some (depth - 1)
  | _ => some depth

/-- Every production closes the braces that it opens, and no others. -/
theorem depth_production (p : Production) :
    (grammar.rhs p).foldlM depthStep 0 = some 0 := by
  cases p <;> rfl

theorem braceStep_eq {token : Token} {depth next : Nat}
    (hstep : depthStep depth (.terminal token.kind) = some next) {inner : List Place}
    (hinner : inner.length = depth) (pending : List Place) :
    ∃ left, left.length = next ∧ braceStep (inner ++ pending) token = left ++ pending := by
  obtain ⟨kind, text, place⟩ := token
  cases kind with
  | leftBrace =>
      cases hstep
      exact ⟨place :: inner, congrArg (· + 1) hinner, rfl⟩
  | rightBrace =>
      cases inner with
      | nil =>
          subst hinner
          contradiction
      | cons first inner =>
          subst hinner
          cases hstep
          exact ⟨inner, rfl, rfl⟩
  | _ =>
      cases hstep
      exact ⟨inner, hinner, rfl⟩

mutual

/-- A derived word opens and closes braces as its symbol does, over any others. -/
theorem foldl_braceStep_of_derives {x : Lr.Symbol Terminal Rule} {meaning word}
    {depth next : Nat} (hdepth : depthStep depth x = some next) {inner : List Place}
    (hinner : inner.length = depth) (pending : List Place) :
    Lr.Derives attribution x meaning word →
      ∃ left, left.length = next ∧ word.foldl braceStep (inner ++ pending) = left ++ pending
  | .token token => braceStep_eq hdepth hinner pending
  | .production p _ parts => by
      cases hdepth
      obtain ⟨left, hleft, heq⟩ := foldl_braceStep_of_derivesAll (depth_production p)
        List.length_nil (inner ++ pending) parts
      rw [List.eq_nil_of_length_eq_zero hleft] at heq
      exact ⟨inner, hinner, heq⟩

theorem foldl_braceStep_of_derivesAll {xs : List (Lr.Symbol Terminal Rule)} {meanings word}
    {depth next : Nat} (hdepth : xs.foldlM depthStep depth = some next) {inner : List Place}
    (hinner : inner.length = depth) (pending : List Place) :
    Lr.DerivesAll attribution xs meanings word →
      ∃ left, left.length = next ∧ word.foldl braceStep (inner ++ pending) = left ++ pending
  | .nil => by
      cases hdepth
      exact ⟨inner, hinner, rfl⟩
  | .cons head tail => by
      rw [List.foldlM_cons] at hdepth
      obtain ⟨middle, hfirst, hrest⟩ := Option.bind_eq_some_iff.mp hdepth
      obtain ⟨left, hleft, heq⟩ := foldl_braceStep_of_derives hfirst hinner pending head
      obtain ⟨final, hfinal, hlast⟩ := foldl_braceStep_of_derivesAll hrest hleft pending tail
      refine ⟨final, hfinal, List.foldl_append.trans ?_⟩
      rw [heq]
      exact hlast

end

/-- The word of a rule closes all of its braces. -/
theorem foldl_braceStep_of_rule {r : Rule} {meaning word} (pending : List Place)
    (hderives : Lr.Derives attribution (.rule r) meaning word) :
    word.foldl braceStep pending = pending := by
  obtain ⟨left, hleft, heq⟩ :=
    foldl_braceStep_of_derives (rfl : depthStep 0 (.rule r) = some 0) List.length_nil pending
      hderives
  rw [List.eq_nil_of_length_eq_zero hleft] at heq
  exact heq

/-! ### Braces on the stack -/

/-- The places of the brace tokens on a stack that are not closed on it, the topmost
first. -/
def openOn : Stack → List Place
  | [] => []
  | ⟨_, .terminal .leftBrace, token⟩ :: below => Token.place token :: openOn below
  | ⟨_, .terminal .rightBrace, _⟩ :: below => (openOn below).drop 1
  | _ :: below => openOn below

theorem openOn_ne_nil {stack : Stack}
    (hleft : .terminal .leftBrace ∈ stack.outline.map Prod.snd)
    (hright : .terminal .rightBrace ∉ stack.outline.map Prod.snd) : openOn stack ≠ [] := by
  induction stack with
  | nil => contradiction
  | cons frame below ih =>
      obtain ⟨state, symbol, meaning⟩ := frame
      rw [Lr.Stack.outline, List.map_cons, List.map_cons, List.mem_cons] at hleft
      rw [Lr.Stack.outline, List.map_cons, List.map_cons, List.mem_cons, not_or] at hright
      cases symbol with
      | rule r => exact ih (hleft.resolve_left (by simp)) hright.2
      | terminal t =>
          cases t with
          | leftBrace => exact List.cons_ne_nil _ _
          | rightBrace => exact absurd rfl hright.1
          | _ => exact ih (hleft.resolve_left (by simp)) hright.2

theorem openOn_cons_terminal (state : Nat) {t : Terminal} {token : Token}
    (hkind : token.kind = t) (below : Stack) :
    openOn (⟨state, .terminal t, token⟩ :: below) = braceStep (openOn below) token := by
  obtain ⟨kind, text, place⟩ := token
  cases hkind
  cases kind <;> rfl

/-- The braces left open by the tokens of a stack are those on the stack. -/
theorem foldl_braceStep_of_spans {stack : Stack} {word : List Token}
    (hspans : Lr.Stack.Spans stack word) : word.foldl braceStep [] = openOn stack := by
  induction hspans with
  | nil => rfl
  | @cons frame below word last hbelow hframe ih =>
      refine List.foldl_append.trans ?_
      rw [ih]
      obtain ⟨state, symbol, meaning⟩ := frame
      cases symbol with
      | rule r => exact foldl_braceStep_of_rule _ hframe
      | terminal t =>
          obtain ⟨hkind, rfl⟩ := Lr.derives_terminal_iff.mp hframe
          exact (openOn_cons_terminal state hkind below).symm

/-- The braces left open by a script that has been read to its end. -/
theorem openBraces_eq {source : String} {pieces : List Piece} {rest : List Char}
    (hsource : source.toList = written pieces rest) (hcut : Cut pieces rest)
    (hrest : IsEndLayout rest) :
    openBraces source.toList = (placed {} pieces).foldl braceStep [] := by
  have hscan := hcut.openBracesFrom_written {} []
  rw [hrest.openBracesFrom_eq, ← hsource] at hscan
  exact hscan

/-- A script that breaks off leaves open the topmost brace on the stack that is not closed. -/
theorem unclosedBrace?_of_endOfInput {source : String} {failure : Failure}
    (hparse : parse source = .error failure) (hfound : failure.found = .endOfInput) :
    unclosedBrace? source = (openOn failure.stack).head? := by
  obtain ⟨pieces, stage, hreads, hsource, -, hcut, -, hrefuses⟩ := exists_refuses_of_parse hparse
  obtain ⟨hrest, -⟩ := hrefuses.endedAt hfound hreads
  have hspans := hrefuses.spans (hreads.shifts.spans mem_productions .nil)
  rw [unclosedBrace?, openBraces_eq hsource hcut hrest]
  exact congrArg List.head? (foldl_braceStep_of_spans hspans)

/-- Scanning for an open brace agrees with parsing: a script that parses leaves
none open, and one that breaks off leaves open the topmost brace on the stack that
is not closed, which is where it is reported. -/
theorem unclosedBrace?_agrees (source : String) :
    (∀ routines, parse source = .ok routines → unclosedBrace? source = none) ∧
      ∀ failure, parse source = .error failure → failure.found = .endOfInput →
        unclosedBrace? source = (openOn failure.stack).head? ∧
        ∀ brace ∈ (openOn failure.stack).head?,
          (failure.report source).rule = some "unclosed block" ∧
          (failure.report source).line = brace.line ∧
          (failure.report source).column = .known brace.column := by
  constructor
  · intro routines hparse
    obtain ⟨pieces, last, hsource, hparsed⟩ := parse_eq_ok_iff.mp hparse
    obtain ⟨hcut, hlast⟩ := hparsed.spaced
    rw [unclosedBrace?, openBraces_eq hsource hcut hlast,
      foldl_braceStep_of_rule [] hparsed.derives]
    rfl
  · intro failure hparse hfound
    have hbrace := unclosedBrace?_of_endOfInput hparse hfound
    refine ⟨hbrace, fun brace hmem => ?_⟩
    rw [← hbrace] at hmem
    have hopen : unclosedBrace? source = some brace := hmem
    rw [Failure.report, hfound, hopen]
    exact ⟨rfl, rfl, rfl⟩

def brokenOff : List Piece :=
  [⟨[], .func, "func"⟩, ⟨[' '], .ident, "f"⟩, ⟨[], .leftParen, "("⟩, ⟨[], .rightParen, ")"⟩,
    ⟨[' '], .leftBrace, "\x7b"⟩]

theorem cut_brokenOff (rest : List Char) : Cut brokenOff rest := by
  have hblank : IsLayout [' '] := .blank rfl .nil
  have hname : IsName "f".toList := .intro (by decide) nofun (by decide)
  exact .cons .nil rfl nofun (.cons hblank hname nofun (.cons .nil rfl nofun
    (.cons .nil rfl nofun (.cons hblank rfl nofun .nil))))

theorem shifts_brokenOff : ∃ stack, Lr.Stack.Shifts table ([] : Stack) (placed {} brokenOff) stack ∧
    stack.top = 20 ∧ openOn stack = [⟨9, 1, 10⟩] := by
  have hshift : ∀ edge ∈ [(0, Terminal.func, 8), (8, .ident, 12), (12, .leftParen, 15),
      (15, .rightParen, 18), (18, .leftBrace, 20)],
      (table.row edge.1).shift? edge.2.1 = some edge.2.2 := by
    simp only [row_eq]
    decide +kernel
  have hfunc := hshift (0, .func, 8) (by simp)
  have hname := hshift (8, .ident, 12) (by simp)
  have hleft := hshift (12, .leftParen, 15) (by simp)
  have hright := hshift (15, .rightParen, 18) (by simp)
  have hbrace := hshift (18, .leftBrace, 20) (by simp)
  exact ⟨_, .read (.shift hfunc) (.read (.shift hname) (.read (.shift hleft)
    (.read (.shift hright) (.read (.shift hbrace) .nil)))), rfl, rfl⟩

theorem parse_brokenOff : ∃ last stack,
    parse "func f() \x7b // \x7d" = .error ⟨.endOfInput, last, lookaheads stack, stack⟩ ∧
      openOn stack = [⟨9, 1, 10⟩] := by
  obtain ⟨stack, hshifts, htop, hopen⟩ := shifts_brokenOff
  have hcomment : IsEndLayout " // \x7d".toList := .comment (.blank rfl .nil) (by decide)
  obtain ⟨last, hreads⟩ := (cut_brokenOff _).exists_reads hcomment.ends (by decide)
    (fun piece _ => namedBeside_start piece) hshifts {}
  have htext : written brokenOff " // \x7d".toList = "func f() \x7b // \x7d".toList := by
    decide
  rw [htext] at hreads
  have hrejects : Lr.Stack.Feeds table stack none (.rejected stack) := by
    refine .reject nofun ?_
    rw [htop, row_eq]
    rfl
  exact ⟨last, stack, hreads.parse_eq
    (Stage.Refuses.atEnd (Cursor.read_end hcomment _ _) hrejects).round_eq, hopen⟩

/-- A brace in a comment is not open, and one in a comment closes nothing. -/
theorem unclosedBrace?_agrees_brokenOff :
    (∃ routines, parse "// \x7b" = .ok routines ∧ unclosedBrace? "// \x7b" = none) ∧
      ∃ failure, parse "func f() \x7b // \x7d" = .error failure ∧
        unclosedBrace? "func f() \x7b // \x7d" = some ⟨9, 1, 10⟩ ∧
        (failure.report "func f() \x7b // \x7d").rule = some "unclosed block" ∧
        (failure.report "func f() \x7b // \x7d").line = 1 ∧
        (failure.report "func f() \x7b // \x7d").column = .known 10 := by
  constructor
  · obtain ⟨routines, hfeeds⟩ := feeds_empty
    have hcomment : IsEndLayout "// \x7b".toList := .comment .nil (by decide)
    have hparse : parse "// \x7b" = .ok routines :=
      Stage.Reads.nil.parse_eq (round_of_accepted (Cursor.read_end hcomment _ _) hfeeds _)
    exact ⟨routines, hparse, (unclosedBrace?_agrees _).1 routines hparse⟩
  · obtain ⟨last, stack, hparse, hopen⟩ := parse_brokenOff
    obtain ⟨hbrace, hreport⟩ := (unclosedBrace?_agrees _).2 _ hparse rfl
    rw [hopen] at hbrace hreport
    exact ⟨_, hparse, hbrace, hreport _ rfl⟩

end Blockscript.Script
