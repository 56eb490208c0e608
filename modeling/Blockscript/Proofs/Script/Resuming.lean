import Blockscript.Proofs.Script.Failing

/-!
A parse that goes on behind a script.  Where a script could end, the machine takes
up the next routine or refuses the token; from then on it moves as it does at the
beginning of a script, on a stack that may hold the routines before.
-/

namespace Blockscript.Script

/-- The terminals that routines begin with. -/
def starters : List Terminal :=
  [.event, .proc, .func]

/-- The terminals that can stand behind the block of a routine, or of a statement. -/
def followers : List Terminal :=
  starters ++ [.semicolon, .rightBrace]

/-! ### States in which a script can end -/

/-- What a state that reduces `p` at the end of a script does with tokens.  Until the
whole script is reduced it only reduces on, and always so before a routine; then it
shifts the beginnings of routines and nothing else. -/
structure ClosingRow (row : Lr.Row Terminal Rule Production) (p : Production) : Prop where
  admits : ∀ t ∈ rowAdmitted row, t ∈ followers
  starts : ∀ t ∈ starters, t ∈ rowAdmitted row
  whole : p.lhs = .program → ∀ t ∈ Terminal.all,
    row.shift? t = routineShifts.lookup t ∧ row.reduction? (some t) = none
  part : p.lhs ≠ .program → ∀ t ∈ Terminal.all, row.shift? t = none ∧
    (row.reduction? (some t) = some p ∨ t ∉ starters ∧ row.reduction? (some t) = none)

theorem closingRow {row : Lr.Row Terminal Rule Production} (hrow : row ∈ rows)
    {p : Production} (hp : p ∈ row.reduction? none) : ClosingRow row p where
  admits := by
    have hall : ∀ row ∈ rows, ∀ p ∈ row.reduction? none, ∀ t ∈ rowAdmitted row,
        t ∈ followers := by decide +kernel
    exact hall row hrow p hp
  starts := by
    have hall : ∀ row ∈ rows, ∀ p ∈ row.reduction? none, ∀ t ∈ starters,
        t ∈ rowAdmitted row := by decide +kernel
    exact hall row hrow p hp
  whole := by
    have hall : ∀ row ∈ rows, ∀ p ∈ row.reduction? none, p.lhs = .program →
        ∀ t ∈ Terminal.all, row.shift? t = routineShifts.lookup t ∧
          row.reduction? (some t) = none := by decide +kernel
    exact hall row hrow p hp
  part := by
    have hall : ∀ row ∈ rows, ∀ p ∈ row.reduction? none, p.lhs ≠ .program →
        ∀ t ∈ Terminal.all, row.shift? t = none ∧
          (row.reduction? (some t) = some p ∨
            t ∉ starters ∧ row.reduction? (some t) = none) := by decide +kernel
    exact hall row hrow p hp

theorem closingRow_of_reduction? {state : Nat} {p : Production}
    (hp : (table.row state).reduction? none = some p) : ClosingRow (table.row state) p := by
  rcases row_mem_or state with hmem | hempty
  · exact closingRow hmem hp
  · rw [hempty] at hp
    contradiction

/-- Only one state reduces routines to a script. -/
theorem eq_one_of_reduction? {state : Nat}
    (hp : (table.row state).reduction? none = some .program) : state = 1 := by
  have hall : ∀ entry ∈ rows.zipIdx, entry.1.reduction? none = some .program → entry.2 = 1 := by
    decide +kernel
  rw [row_eq] at hp
  cases hrow : rows[state]? with
  | none =>
      rw [hrow] at hp
      contradiction
  | some row =>
      rw [hrow] at hp
      exact hall (row, state) (List.mem_zipIdx_iff_getElem?.mpr hrow) hp

/-- What lies below the next routine: nothing, or the routines before. -/
def bases : List (List (Nat × Lr.Symbol Terminal Rule)) :=
  [[], [(1, .rule .routines)]]

/-- A stack that is reduced to a script holds nothing or only routines. -/
theorem outline_mem_bases {stack : Stack} {p : Production} {meanings}
    (hreduce : (table.row (Lr.Stack.top stack)).reduction? none = some p)
    (hpop : Lr.Stack.pop (grammar.rhs p) stack = some (meanings, []))
    (hstart : grammar.lhs p = grammar.start) : stack.outline ∈ bases := by
  obtain ⟨taken, hstack, htaken⟩ := Lr.Stack.exists_of_pop hpop
  rw [List.append_nil] at hstack
  subst hstack
  cases p with
  | emptyProgram =>
      obtain rfl := List.map_eq_nil_iff.mp htaken
      decide
  | program =>
      obtain ⟨frame, rfl, hsymbol⟩ := List.map_eq_singleton_iff.mp htaken
      have hstate := eq_one_of_reduction? hreduce
      have houtline : Lr.Stack.outline [frame] = [(1, .rule .routines)] := by
        rw [Lr.Stack.outline, List.map_singleton, hsymbol]
        exact congrArg (fun state => [(state, _)]) hstate
      rw [houtline]
      decide
  | _ => contradiction

/-- Where a script could end, the beginning of a routine is shifted, on top of
nothing or of the routines before, and any other token is rejected. -/
theorem feeds_resumed {stack : Stack} {routines : List Routine}
    (haccepts : Lr.Stack.Feeds table stack none (.accepted routines)) (token : Token) :
    (∃ next state base, Lr.Stack.Feeds table stack (some token) (.shifted next) ∧
      routineShifts.lookup token.kind = some state ∧ base ∈ bases ∧
      Lr.Stack.outline next = (state, .terminal token.kind) :: base) ∨
    token.kind ∉ starters ∧ ∃ left, Lr.Stack.Feeds table stack (some token) (.rejected left) := by
  generalize hend : (none : Option attribution.Token) = lookahead at haccepts
  generalize houtcome : (.accepted routines : Lr.Outcome attribution) = outcome at haccepts
  induction haccepts with
  | shift hshift => contradiction
  | reject hshift hreduce => contradiction
  | accept hreduce hpop hstart =>
      have hbase := outline_mem_bases hreduce hpop hstart
      obtain ⟨hshift, hnone⟩ :=
        (closingRow_of_reduction? hreduce).whole hstart token.kind (mem_all _)
      by_cases hstarts : token.kind ∈ starters
      · have hlookup : ∀ t ∈ starters, (routineShifts.lookup t).isSome = true := by decide
        obtain ⟨state, hstate⟩ := Option.isSome_iff_exists.mp (hlookup _ hstarts)
        exact .inl ⟨_, state, _, .shift (hshift.trans hstate), hstate, hbase, rfl⟩
      · have hlookup : ∀ t ∈ Terminal.all, t ∉ starters → routineShifts.lookup t = none := by
          decide
        refine .inr ⟨hstarts, _, .reject (fun seen hseen => ?_) hnone⟩
        cases hseen
        exact hshift.trans (hlookup _ (mem_all _) hstarts)
  | @reduce stack below lookahead p meanings target outcome hshift hreduce hpop hgoes hgoto
      hrest ih =>
      subst hend
      have hlhs : p.lhs ≠ .program := by
        intro hlhs
        have hnone := goto?_program (Lr.Stack.top below)
        rw [← hlhs] at hnone
        exact absurd (hnone.symm.trans hgoto) nofun
      obtain ⟨hnone, hagain⟩ := (closingRow_of_reduction? hreduce).part hlhs token.kind (mem_all _)
      have hnothing : ∀ seen ∈ some token,
          (table.row (Lr.Stack.top stack)).shift? (attribution.kind seen) = none := by
        rintro seen ⟨⟩
        exact hnone
      have hstays : ¬ ((some token).isNone = true ∧ below.isEmpty = true ∧
          grammar.lhs p = grammar.start) := fun h => absurd h.1 nofun
      rcases hagain with hagain | ⟨hother, hrejects⟩
      · rcases ih rfl houtcome with ⟨next, state, base, hfeeds, hnext⟩ | ⟨hother, left, hfeeds⟩
        · exact .inl ⟨next, state, base, .reduce hnothing hagain hpop hstays hgoto hfeeds, hnext⟩
        · exact .inr ⟨hother, left, .reduce hnothing hagain hpop hstays hgoto hfeeds⟩
      · exact .inr ⟨hother, stack, .reject hnothing hrejects⟩

/-- What can stand behind a script: a routine, and in some states the signs behind
a block. -/
theorem admitted_of_accepts {stack : Stack} {routines : List Routine}
    (haccepts : Lr.Stack.Feeds table stack none (.accepted routines)) :
    (∀ t ∈ admitted stack, t ∈ followers) ∧ ∀ t ∈ starters, t ∈ admitted stack := by
  have hreduce : ∃ p, (table.row (Lr.Stack.top stack)).reduction? none = some p := by
    cases haccepts with
    | accept hreduce hpop hstart => exact ⟨_, hreduce⟩
    | reduce hshift hreduce hpop hgoes hgoto hrest => exact ⟨_, hreduce⟩
  obtain ⟨p, hreduce⟩ := hreduce
  have hrow := closingRow_of_reduction? hreduce
  exact ⟨hrow.admits, hrow.starts⟩

theorem mem_admitted_nil_iff {t : Terminal} : t ∈ admitted [] ↔ t ∈ starters := by
  have hall : ∀ t ∈ Terminal.all, t ∈ rowAdmitted (rows[0]?.getD {}) ↔ t ∈ starters := by
    decide +kernel
  rw [admitted, lookaheads, row_eq]
  exact hall t (mem_all t)

/-! ### The first token behind a script -/

/-- A lexeme of a terminal that is told apart from all others is read as it. -/
theorem Cursor.token?_of_apart {admitted : List Terminal} {t : Terminal}
    (ht : t ∈ tried admitted) (hident : t ≠ .ident)
    (hapart : ∀ u ∈ tried admitted, u ≠ t → t.apart u = true) {lexeme rest : List Char}
    (hlexeme : t.IsLexeme lexeme) (hends : t.Ends rest) (place : Place) :
    Cursor.token? ⟨place, lexeme ++ rest⟩ admitted =
      some (⟨t, String.ofList lexeme, place⟩, ⟨place.after lexeme, rest⟩) := by
  apply findSome?_eq_of_unique ht
  · rw [Terminal.split?_append hlexeme hends]
    simp only [Option.map_some, retyped, if_neg hident]
    rfl
  · intro u hu hne
    rw [hlexeme.split?_eq_none (hapart u hu hne)]
    rfl

/-- The words and signs that can stand behind a script are read alike wherever they
are told apart. -/
theorem Cursor.token?_firm {cursor next : Cursor} {seen admitted : List Terminal}
    {token : Token} (hread : cursor.token? seen = some (token, next))
    (hfirm : token.kind ∈ followers) (hmem : token.kind ∈ admitted)
    (hapart : ∀ u ∈ admitted, u ≠ token.kind → token.kind.apart u = true) :
    cursor.token? admitted = some (token, next) := by
  obtain ⟨lexeme, hrest, hlexeme, htext, hplace, hnext, -⟩ := Cursor.token?_eq_some hread
  obtain ⟨kind, text, place⟩ := token
  obtain ⟨behind, rest⟩ := next
  obtain ⟨start, source⟩ := cursor
  dsimp only at hrest hlexeme htext hplace hnext hfirm hmem hapart ⊢
  subst hrest htext hplace hnext
  have hplain : ∀ t ∈ followers, t ≠ .ident ∧ t.isSoft = false ∧ t.Ends rest := by
    intro t ht
    cases t <;> simp [followers, starters] at ht ⊢ <;> exact ⟨rfl, trivial⟩
  obtain ⟨hident, hsoft, hends⟩ := hplain kind hfirm
  refine Cursor.token?_of_apart ?_ hident (fun u hu => hapart u (mem_tried_iff.mp hu).1) hlexeme
    hends _
  exact mem_tried_iff.mpr ⟨hmem, by simp [hsoft]⟩

section

variable {stack : Stack} {routines : List Routine}
  (haccepts : Lr.Stack.Feeds table stack none (.accepted routines)) {cursor : Cursor}

theorem apart_followers : ∀ t ∈ followers, ∀ u ∈ followers, u ≠ t → t.apart u = true := by
  decide

theorem mem_followers_of_mem_starters {t : Terminal} (ht : t ∈ starters) : t ∈ followers :=
  List.mem_append_left _ ht

include haccepts

/-- A routine that begins a script is read alike behind another one. -/
theorem Cursor.read_token_resumed {token : Token} {next : Cursor}
    (hread : cursor.read (admitted []) = .token token next) :
    cursor.read (admitted stack) = .token token next := by
  obtain ⟨hadmits, hstarts⟩ := admitted_of_accepts haccepts
  rw [Cursor.read_eq_token_iff] at hread ⊢
  have hkind := mem_admitted_nil_iff.mp (Cursor.kind_mem_of_token? hread)
  have hfollows := mem_followers_of_mem_starters hkind
  exact Cursor.token?_firm hread hfollows (hstarts _ hkind) fun u hu =>
    apart_followers _ hfollows u (hadmits u hu)

/-- What does not begin a routine is read as the same text behind another script, and
does not begin a routine there either. -/
theorem Cursor.read_unexpected_resumed {token : Token}
    (hread : cursor.read (admitted []) = .unexpected token) :
    cursor.read (admitted stack) = .unexpected token ∨
      ∃ next, cursor.read (admitted stack) = .token token next ∧ token.kind ∉ starters := by
  obtain ⟨hadmits, -⟩ := admitted_of_accepts haccepts
  obtain ⟨hnone, after, hany⟩ := Cursor.read_eq_unexpected_iff.mp hread
  cases hbehind : cursor.skipLayout.token? (admitted stack) with
  | none => exact .inl (Cursor.read_eq_unexpected_iff.mpr ⟨hbehind, after, hany⟩)
  | some read =>
      obtain ⟨found, next⟩ := read
      have hkind := hadmits _ (Cursor.kind_mem_of_token? hbehind)
      have hother : found.kind ∉ starters := by
        intro hstart
        have hsame := Cursor.token?_firm hbehind hkind (mem_admitted_nil_iff.mpr hstart)
          fun u hu => apart_followers _ hkind u
            (mem_followers_of_mem_starters (mem_admitted_nil_iff.mp hu))
        rw [hnone] at hsame
        contradiction
      have hsigns : ∀ t ∈ followers, t ∉ starters → ∀ u ∈ Terminal.all, u ≠ t →
          t.apart u = true := by decide
      have hsame := Cursor.token?_firm hbehind hkind (mem_all _) (hsigns _ hkind hother)
      rw [hany] at hsame
      cases hsame
      exact .inr ⟨after, Cursor.read_eq_token_iff.mpr hbehind, hother⟩

end

end Blockscript.Script
