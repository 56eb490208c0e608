import Blockscript.Proofs.Script.Resuming

/-!
Two parses side by side: one of a script alone, the other of the same script below
another one.  Their stacks differ at the bottom only, by the routines before, and
they do the same with every token.
-/

namespace Blockscript.Script

/-! ### Stacks side by side -/

/-- The stack of a script alone, and its stack below another one: with the routines
before below it, until the first routine is put together with them. -/
inductive Beside : Stack → Stack → Prop
  | same {left right : Stack} (houtline : left.outline = right.outline) : Beside left right
  | above {left right : Stack} {entry : Nat × Lr.Symbol Terminal Rule}
      (hlast : left.outline.getLast? = some entry)
      (hbottom : entry.2 ∉ [.rule .routine, .rule .routines])
      (houtline : right.outline = left.outline ++ [(1, .rule .routines)]) : Beside left right
  | first {left right : Stack} (hleft : left.outline = [(2, .rule .routine)])
      (hright : right.outline = [(9, .rule .routine), (1, .rule .routines)]) : Beside left right

/-- Outcomes of the same form, with stacks side by side. -/
def OutcomesBeside : Lr.Outcome attribution → Lr.Outcome attribution → Prop
  | .shifted left, .shifted right => Beside left right
  | .accepted _, .accepted _ => True
  | .rejected left, .rejected right => Beside left right
  | _, _ => False

theorem outcomesBeside_of_alike {outcome result : Lr.Outcome attribution}
    (halike : outcome.Alike result) (houtcome : ∀ left, outcome ≠ .derailed left) :
    OutcomesBeside outcome result := by
  cases outcome with
  | shifted left =>
      cases result with
      | shifted right => exact .same halike
      | _ => contradiction
  | accepted meaning =>
      cases result with
      | accepted other => trivial
      | _ => contradiction
  | rejected left =>
      cases result with
      | rejected right => exact .same halike
      | _ => contradiction
  | derailed left => exact absurd rfl (houtcome left)

theorem row_two : table.row 2 = reducing .firstRoutine := by
  rw [row_eq]
  rfl

theorem row_nine : table.row 9 = reducing .nextRoutine := by
  rw [row_eq]
  rfl

theorem reduction?_reducing (p : Production) (lookahead : Option Terminal) :
    (reducing p).reduction? lookahead =
      if lookahead ∈ lookaheadsAfter p.lhs then some p else none := by
  by_cases h : lookahead ∈ lookaheadsAfter p.lhs
  · simp [reducing, movingOr, Lr.Row.reduction?, h]
  · simp [reducing, movingOr, Lr.Row.reduction?, h]

/-- Behind routines a part of a routine leads where it leads at the beginning. -/
theorem goto?_resumed {r : Rule} (hr : r ∉ [.routine, .routines]) :
    (table.row 1).goto? r = (table.row 0).goto? r := by
  rw [row_eq, row_eq]
  cases r <;> first | rfl | exact absurd (by decide) hr

/-- A stack that is taken off whole has the first symbol of the production at its
bottom. -/
theorem head?_rhs_of_pop {stack : Stack} {entry : Nat × Lr.Symbol Terminal Rule}
    (hlast : stack.outline.getLast? = some entry) {p : Production} {meanings}
    (hpop : Lr.Stack.pop (grammar.rhs p) stack = some (meanings, [])) :
    (grammar.rhs p).head? = some entry.2 := by
  obtain ⟨taken, hstack, htaken⟩ := Lr.Stack.exists_of_pop hpop
  rw [List.append_nil] at hstack
  have hsymbols : (Lr.Stack.outline taken).map Prod.snd = (grammar.rhs p).reverse := by
    rw [← htaken, Lr.Stack.outline, List.map_map]
    rfl
  rw [← List.getLast?_reverse, ← hsymbols, List.getLast?_map, ← hstack, hlast]
  rfl

/-- A stack that is taken off whole for a program or its routines has a routine or
routines at its bottom. -/
theorem bottom_of_pop {stack : Stack} {entry : Nat × Lr.Symbol Terminal Rule}
    (hlast : stack.outline.getLast? = some entry) {p : Production} {meanings}
    (hpop : Lr.Stack.pop (grammar.rhs p) stack = some (meanings, []))
    (hlhs : p.lhs = .program ∨ p.lhs = .routines) :
    entry.2 ∈ [.rule .routine, .rule .routines] := by
  have hhead := head?_rhs_of_pop hlast hpop
  cases p with
  | program | firstRoutine | nextRoutine =>
      obtain hfirst : _ = entry.2 := Option.some.inj hhead
      rw [← hfirst]
      decide
  | emptyProgram => contradiction
  | _ => simp [Production.lhs] at hlhs

theorem top_of_outline {stack : Stack} {entry : Nat × Lr.Symbol Terminal Rule}
    {rest : List (Nat × Lr.Symbol Terminal Rule)} (h : stack.outline = entry :: rest) :
    stack.top = entry.1 := by
  obtain ⟨frame, below, rfl, rfl, -⟩ := List.map_eq_cons_iff.mp h
  rfl

theorem top_eq_of_append {left right : Stack} {entry : Nat × Lr.Symbol Terminal Rule}
    {base : List (Nat × Lr.Symbol Terminal Rule)} (hlast : left.outline.getLast? = some entry)
    (houtline : right.outline = left.outline ++ base) : left.top = right.top := by
  cases hleft : left.outline with
  | nil =>
      rw [hleft] at hlast
      contradiction
  | cons first rest =>
      rw [hleft, List.cons_append] at houtline
      rw [top_of_outline hleft, top_of_outline houtline]

/-- Stacks side by side have a use for the same lookaheads. -/
theorem Beside.lookaheads_eq {left right : Stack} (hbeside : Beside left right) :
    lookaheads left = lookaheads right := by
  unfold lookaheads
  cases hbeside with
  | same houtline => rw [Lr.Stack.top_eq_of_outline houtline]
  | above hlast hbottom houtline => rw [top_eq_of_append hlast houtline]
  | first hleft hright =>
      rw [top_of_outline hleft, top_of_outline hright, row_two, row_nine]
      rfl

theorem getLast?_cons_of_some {α : Type} {xs : List α} {last : α}
    (h : xs.getLast? = some last) (x : α) : (x :: xs).getLast? = some last := by
  rw [List.getLast?_cons, h]
  rfl

/-- A reduction above the routines before leaves stacks side by side. -/
theorem exists_reduced_above {left right below : Stack} {p : Production} {meanings}
    {target : Nat} {entry : Nat × Lr.Symbol Terminal Rule}
    (hlast : left.outline.getLast? = some entry)
    (hbottom : entry.2 ∉ [.rule .routine, .rule .routines])
    (houtline : right.outline = left.outline ++ [(1, .rule .routines)])
    (hpop : Lr.Stack.pop (grammar.rhs p) left = some (meanings, below))
    (hgoto : (table.row (Lr.Stack.top below)).goto? p.lhs = some target) :
    ∃ found under other, Lr.Stack.pop (grammar.rhs p) right = some (found, under) ∧
      under ≠ [] ∧ (table.row (Lr.Stack.top under)).goto? p.lhs = some other ∧
      Beside (⟨target, .rule p.lhs, attribution.interpret p meanings⟩ :: below)
        (⟨other, .rule p.lhs, attribution.interpret p found⟩ :: under) := by
  obtain ⟨found, under, hfound, hunder⟩ := Lr.Stack.exists_pop_of_outline houtline hpop
  have hne : under ≠ [] := by
    rintro rfl
    exact List.append_ne_nil_of_right_ne_nil _ (List.cons_ne_nil _ _) hunder.symm
  cases hbelow : below with
  | nil =>
      subst hbelow
      have htop : Lr.Stack.top under = 1 := top_of_outline hunder
      have hroutines : p.lhs ≠ .routines := by
        intro hlhs
        exact hbottom (bottom_of_pop hlast hpop (.inr hlhs))
      by_cases hroutine : p.lhs = .routine
      · have htwo : target = 2 := by
          have hgoes : (table.row 0).goto? .routine = some 2 := by
            rw [row_eq]
            rfl
          rw [hroutine] at hgoto
          exact Option.some.inj (hgoto.symm.trans hgoes)
        have hnine : (table.row (Lr.Stack.top under)).goto? p.lhs = some 9 := by
          rw [htop, hroutine, row_eq]
          rfl
        refine ⟨found, under, 9, hfound, hne, hnine, .first ?_ ?_⟩
        · rw [htwo, ← hroutine]
          rfl
        · rw [← hroutine]
          exact congrArg (List.cons _) hunder
      · have hother : p.lhs ∉ [.routine, .routines] := by
          simp [hroutine, hroutines]
        refine ⟨found, under, target, hfound, hne, ?_, .above rfl ?_ ?_⟩
        · rw [htop, goto?_resumed hother]
          exact hgoto
        · simpa using hother
        · exact congrArg (List.cons _) hunder
  | cons frame rest =>
      rw [hbelow] at hunder hgoto hpop
      obtain ⟨taken, htaken, -⟩ := Lr.Stack.exists_of_pop hpop
      have hkept : (Lr.Stack.outline (frame :: rest)).getLast? = some entry := by
        rw [htaken, Lr.Stack.outline, List.map_append, List.getLast?_append] at hlast
        rw [← hlast]
        rfl
      refine ⟨found, under, target, hfound, hne, ?_, .above (getLast?_cons_of_some hkept _)
        hbottom (congrArg (List.cons _) hunder)⟩
      rw [← top_eq_of_append hkept hunder]
      exact hgoto

/-- The first routine behind others is put together with them. -/
theorem exists_reduced_first {left right below : Stack} {p : Production} {meanings}
    {target : Nat} {lookahead : Option Terminal}
    (hleft : left.outline = [(2, .rule .routine)])
    (hright : right.outline = [(9, .rule .routine), (1, .rule .routines)])
    (hreduce : (table.row (Lr.Stack.top left)).reduction? lookahead = some p)
    (hpop : Lr.Stack.pop (grammar.rhs p) left = some (meanings, below))
    (hgoto : (table.row (Lr.Stack.top below)).goto? p.lhs = some target) :
    ∃ found, (table.row (Lr.Stack.top right)).reduction? lookahead = some .nextRoutine ∧
      Lr.Stack.pop (grammar.rhs .nextRoutine) right = some (found, []) ∧
      (table.row 0).goto? .routines = some target ∧
      Beside (⟨target, .rule p.lhs, attribution.interpret p meanings⟩ :: below)
        [⟨target, .rule .routines, attribution.interpret .nextRoutine found⟩] := by
  rw [top_of_outline hleft, row_two, reduction?_reducing] at hreduce
  rw [top_of_outline hright, row_nine, reduction?_reducing]
  split at hreduce
  · rename_i hmem
    cases hreduce
    have hempty : below = [] := by
      have hlength := Lr.Stack.length_of_pop hpop
      have hone := congrArg List.length hleft
      rw [Lr.Stack.outline, List.length_map, hlength] at hone
      exact List.eq_nil_of_length_eq_zero (Nat.succ.inj hone)
    subst hempty
    have hsymbols : right.map Lr.Frame.symbol = (grammar.rhs .nextRoutine).reverse := by
      have hsnd := congrArg (List.map Prod.snd) hright
      rw [Lr.Stack.outline, List.map_map] at hsnd
      exact hsnd
    obtain ⟨found, hfound⟩ := Lr.Stack.exists_pop_append hsymbols []
    rw [List.append_nil] at hfound
    exact ⟨found, if_pos hmem, hfound, hgoto, .same rfl⟩
  · contradiction

/-- Stacks side by side do the same with tokens of the same kind. -/
theorem Beside.exists_feeds {left right : Stack} (hbeside : Beside left right)
    {lookahead : Option Token} {outcome : Lr.Outcome attribution}
    (hfeeds : Lr.Stack.Feeds table left lookahead outcome) (seen : Option Token)
    (hkind : lookahead.map Token.kind = seen.map Token.kind) :
    ∃ result, Lr.Stack.Feeds table right seen result ∧ OutcomesBeside outcome result := by
  have hsame : ∀ {left right : Stack} {outcome}, left.outline = right.outline →
      Lr.Stack.Feeds table left lookahead outcome →
      ∃ result, Lr.Stack.Feeds table right seen result ∧ OutcomesBeside outcome result := by
    intro left right outcome houtline hfeeds
    obtain ⟨result, hresult, halike⟩ := hfeeds.exists_alike houtline hkind
    exact ⟨result, hresult, outcomesBeside_of_alike halike hfeeds.ne_derailed⟩
  induction hfeeds generalizing right with
  | @shift stack token target hshift =>
      cases hbeside with
      | same houtline => exact hsame houtline (.shift hshift)
      | above hlast hbottom houtline =>
          obtain ⟨read, rfl, hread⟩ := Option.map_eq_some_iff.mp hkind.symm
          have hpushed : attribution.kind read = attribution.kind token := hread
          rw [top_eq_of_append hlast houtline, ← hpushed] at hshift
          refine ⟨_, .shift hshift, .above (getLast?_cons_of_some hlast _) hbottom ?_⟩
          simp only [Lr.Stack.outline, List.map_cons, List.cons_append, hpushed]
          exact congrArg (List.cons _) houtline
      | first hleft hright =>
          rw [top_of_outline hleft, row_two] at hshift
          contradiction
  | @reject stack lookahead hshift hreduce =>
      have hnone := Lr.Row.shift?_eq_none_of_kind hkind hshift
      cases hbeside with
      | same houtline => exact hsame houtline (.reject hshift hreduce)
      | above hlast hbottom houtline =>
          rw [top_eq_of_append hlast houtline] at hnone hreduce
          exact ⟨_, .reject hnone (hkind ▸ hreduce), .above hlast hbottom houtline⟩
      | first hleft hright =>
          have hright' :
              (table.row (Lr.Stack.top right)).reduction? (seen.map Token.kind) = none := by
            rw [top_of_outline hleft, row_two, reduction?_reducing] at hreduce
            rw [top_of_outline hright, row_nine, reduction?_reducing, ← hkind]
            refine if_neg fun hmem => ?_
            exact Option.some_ne_none _ ((if_pos hmem).symm.trans hreduce)
          refine ⟨_, .reject ?_ hright', .first hleft hright⟩
          rw [top_of_outline hright, row_nine]
          exact fun _ _ => rfl
  | @accept stack p meanings hreduce hpop hstart =>
      cases hbeside with
      | same houtline => exact hsame houtline (.accept hreduce hpop hstart)
      | above hlast hbottom houtline =>
          exact absurd (bottom_of_pop hlast hpop (.inl hstart)) hbottom
      | first hleft hright =>
          rw [top_of_outline hleft, row_two, reduction?_reducing] at hreduce
          split at hreduce
          · cases hreduce
            contradiction
          · contradiction
  | @reduce stack below lookahead p meanings target outcome hshift hreduce hpop hgoes hgoto
      hrest ih =>
      have hnone := Lr.Row.shift?_eq_none_of_kind hkind hshift
      cases hbeside with
      | same houtline => exact hsame houtline (.reduce hshift hreduce hpop hgoes hgoto hrest)
      | above hlast hbottom houtline =>
          obtain ⟨found, under, other, hfound, hne, hother, hbeside⟩ :=
            exists_reduced_above hlast hbottom houtline hpop hgoto
          obtain ⟨result, hresult, houtcomes⟩ := ih hbeside hkind hsame
          rw [top_eq_of_append hlast houtline] at hnone hreduce
          refine ⟨result, .reduce hnone (hkind ▸ hreduce) hfound ?_ hother hresult, houtcomes⟩
          exact fun hend => hne (List.isEmpty_iff.mp hend.2.1)
      | first hleft hright =>
          obtain ⟨found, hnext, hfound, hother, hbeside⟩ :=
            exists_reduced_first hleft hright hreduce hpop hgoto
          obtain ⟨result, hresult, houtcomes⟩ := ih hbeside hkind hsame
          refine ⟨result, .reduce ?_ (hkind ▸ hnext) hfound ?_ hother hresult, houtcomes⟩
          · rw [top_of_outline hright, row_nine]
            exact fun _ _ => rfl
          · rintro ⟨-, -, hstart⟩
            contradiction

theorem outline_eq_of_rejected {stack under : Stack} {lookahead : Option Token}
    (hrejects : Lr.Stack.Feeds table stack lookahead (.rejected under)) {other last : Stack}
    {seen : Option Token} (hother : Lr.Stack.Feeds table other seen (.rejected last))
    (hkind : lookahead.map attribution.kind = seen.map attribution.kind)
    (houtline : stack.outline = other.outline) : under.outline = last.outline := by
  obtain ⟨result, hresult, halike⟩ := hrejects.exists_alike houtline hkind
  obtain rfl := hresult.unique descending hother
  exact halike

/-! ### Reading further down -/

/-- A token with other text before it. -/
def Token.lowered (token : Token) (characters lines : Nat) : Token :=
  { token with place := token.place.lowered characters lines }

def Cursor.lowered (cursor : Cursor) (characters lines : Nat) : Cursor :=
  { cursor with place := cursor.place.lowered characters lines }

def Reading.lowered (characters lines : Nat) : Reading → Reading
  | .finished => .finished
  | .token found next =>
      .token (found.lowered characters lines) (next.lowered characters lines)
  | .unexpected found => .unexpected (found.lowered characters lines)
  | .unreadable c place => .unreadable c (place.lowered characters lines)

theorem Cursor.skipLayout_lowered (cursor : Cursor) (characters lines : Nat) :
    (cursor.lowered characters lines).skipLayout =
      cursor.skipLayout.lowered characters lines := by
  simp only [Cursor.skipLayout, Cursor.past, Cursor.lowered, Place.after_lowered]

theorem Cursor.token?_lowered (cursor : Cursor) (characters lines : Nat)
    (admitted : List Terminal) :
    (cursor.lowered characters lines).token? admitted =
      (cursor.token? admitted).map fun read =>
        (read.1.lowered characters lines, read.2.lowered characters lines) := by
  unfold Cursor.token?
  rw [List.map_findSome?]
  refine congrArg (List.findSome? · _) (funext fun t => ?_)
  simp only [Function.comp_apply, Option.map_map, Cursor.lowered, Cursor.past,
    Place.after_lowered]
  rfl

/-- Reading does not depend on where the text stands. -/
theorem Cursor.read_lowered (cursor : Cursor) (characters lines : Nat)
    (admitted : List Terminal) :
    (cursor.lowered characters lines).read admitted =
      (cursor.read admitted).lowered characters lines := by
  simp only [Cursor.read, Cursor.skipLayout_lowered, Cursor.token?_lowered]
  cases hrest : cursor.skipLayout.rest with
  | nil => simp only [Cursor.lowered, hrest, Reading.lowered]
  | cons c rest =>
      simp only [Cursor.lowered, hrest]
      cases cursor.skipLayout.token? admitted with
      | some read => rfl
      | none =>
          cases cursor.skipLayout.token? Terminal.all with
          | some read => rfl
          | none => rfl

/-- Layout before the next token is passed over. -/
theorem Cursor.read_behind {gap : List Char} (hgap : IsLayout gap) (place : Place)
    (rest : List Char) (admitted : List Terminal) :
    Cursor.read ⟨place, gap ++ rest⟩ admitted =
      Cursor.read ⟨place.after gap, rest⟩ admitted := by
  have hskip : Cursor.skipLayout ⟨place, gap ++ rest⟩ =
      Cursor.skipLayout ⟨place.after gap, rest⟩ := by
    simp only [Cursor.skipLayout, hgap.splitLayout_append, Cursor.past, Place.after_append]
  unfold Cursor.read
  rw [hskip]

/-! ### Parses side by side -/

/-- The stage of a script alone, and the stage of the same script below another
one. -/
structure Stage.Beside (left right : Stage) (characters lines : Nat) : Prop where
  stack : Script.Beside left.stack right.stack
  last : right.last = left.last.lowered characters lines
  cursor : right.cursor = left.cursor.lowered characters lines

section

variable {left right : Stage} {characters lines : Nat}
  (hbeside : left.Beside right characters lines)

include hbeside

theorem Stage.Beside.read_eq :
    right.cursor.read (admitted right.stack) =
      (left.cursor.read (admitted left.stack)).lowered characters lines := by
  rw [hbeside.cursor, Cursor.read_lowered, admitted, admitted, hbeside.stack.lookaheads_eq]

/-- Parses side by side read the same tokens. -/
theorem Stage.Beside.exists_reads {tokens : List Token} {final : Stage}
    (hreads : left.Reads tokens final) :
    ∃ other, right.Reads (tokens.map fun token => token.lowered characters lines) other ∧
      final.Beside other characters lines := by
  induction hreads generalizing right with
  | nil => exact ⟨right, .nil, hbeside⟩
  | @cons stage final token tokens next behind hread hfeeds hrest ih =>
      have hsame := hbeside.read_eq
      rw [hread] at hsame
      obtain ⟨result, hresult, houtcomes⟩ :=
        hbeside.stack.exists_feeds hfeeds (some (token.lowered characters lines)) rfl
      cases result with
      | shifted pushed =>
          have hnext : Stage.Beside ⟨next, token.place, behind⟩
              ⟨pushed, token.place.lowered characters lines, behind.lowered characters lines⟩
              characters lines := ⟨houtcomes, rfl, rfl⟩
          obtain ⟨other, hother, hfinal⟩ := ih hnext
          exact ⟨other, .cons hsame hresult hother, hfinal⟩
      | _ => contradiction

/-- A failure of a script, and its failure below another one. -/
structure Failure.Lowered (failure other : Failure) (characters lines : Nat) : Prop where
  found : other.found = failure.found
  place : other.place = failure.place.lowered characters lines

/-- Parses side by side refuse the same token, with stacks side by side, and expect the
same instead. -/
theorem Stage.Beside.exists_refuses {failure : Failure} (hrefuses : left.Refuses failure) :
    ∃ other, right.Refuses other ∧ failure.Lowered other characters lines ∧
      Script.Beside failure.stack other.stack ∧
      (left.stack.outline = right.stack.outline → failure.stack.outline = other.stack.outline) ∧
      other.expected = failure.expected := by
  have hsame := hbeside.read_eq
  cases hrefuses with
  | atEnd hread hfeeds =>
      rw [hread] at hsame
      obtain ⟨result, hresult, houtcomes⟩ := hbeside.stack.exists_feeds hfeeds none rfl
      cases result with
      | rejected under =>
          exact ⟨_, .atEnd hsame hresult, ⟨rfl, hbeside.last⟩, houtcomes,
            outline_eq_of_rejected hfeeds hresult rfl, houtcomes.lookaheads_eq.symm⟩
      | _ => contradiction
  | @rejected token next under hread hfeeds =>
      rw [hread] at hsame
      obtain ⟨result, hresult, houtcomes⟩ :=
        hbeside.stack.exists_feeds hfeeds (some (token.lowered characters lines)) rfl
      cases result with
      | rejected under =>
          exact ⟨_, .rejected hsame hresult, ⟨rfl, rfl⟩, houtcomes,
            outline_eq_of_rejected hfeeds hresult rfl, houtcomes.lookaheads_eq.symm⟩
      | _ => contradiction
  | unexpected hread =>
      rw [hread] at hsame
      refine ⟨_, .unexpected hsame, ⟨rfl, rfl⟩, hbeside.stack, id, ?_⟩
      rw [admitted, admitted, hbeside.stack.lookaheads_eq]
  | unreadable hread =>
      rw [hread] at hsame
      refine ⟨_, .unreadable hsame, ⟨rfl, rfl⟩, hbeside.stack, id, ?_⟩
      rw [admitted, admitted, hbeside.stack.lookaheads_eq]

end

end Blockscript.Script
