import Blockscript.Proofs.Script.Layout

/-!
Reading one token.  Where the admitted terminals are told apart, a lexeme of an
admitted terminal is read as a token of that terminal; and whatever is read is a
lexeme of an admitted terminal behind layout.
-/

namespace Blockscript.Script

/-- The terminal that reads the lexemes of a terminal: beside names, soft words
are read as names. -/
def readAs (admitted : List Terminal) (t : Terminal) : Terminal :=
  if t.isSoft = true ∧ .ident ∈ admitted then .ident else t

/-- Admitted terminals of which no two read at the same place, but for names and
scopes. -/
def TellsApart (admitted : List Terminal) : Prop :=
  ∀ t ∈ tried admitted, ∀ u ∈ tried admitted,
    t = u ∨ t.apart u = true ∨ t ∈ [.ident, .scopePrefix] ∧ u ∈ [.ident, .scopePrefix]

instance : DecidablePred TellsApart :=
  fun admitted => inferInstanceAs (Decidable (∀ t ∈ tried admitted, _))

theorem findSome?_eq_of_unique {α β : Type} {xs : List α} {f : α → Option β} {x : α}
    {y : β} (hx : x ∈ xs) (hy : f x = some y) (hother : ∀ z ∈ xs, z ≠ x → f z = none) :
    xs.findSome? f = some y := by
  induction xs with
  | nil => contradiction
  | cons z xs ih =>
      by_cases hz : z = x
      · subst hz
        simp [hy]
      · have hrest := ih ((List.mem_cons.mp hx).resolve_left (Ne.symm hz))
          fun w hw => hother w (List.mem_cons_of_mem z hw)
        simp [hother z List.mem_cons_self hz, hrest]

theorem mem_all (t : Terminal) : t ∈ Terminal.all := by
  cases t <;> decide

theorem mem_tried_iff {admitted : List Terminal} {t : Terminal} :
    t ∈ tried admitted ↔ t ∈ admitted ∧ ¬ (t.isSoft = true ∧ .ident ∈ admitted) := by
  simp only [tried, List.mem_filter, mem_all, decide_eq_true_eq, true_and]

theorem readAs_mem_tried {admitted : List Terminal} {t : Terminal} (ht : t ∈ admitted) :
    readAs admitted t ∈ tried admitted := by
  unfold readAs
  split
  · rename_i hsoft
    exact mem_tried_iff.mpr ⟨hsoft.2, fun h => absurd h.1 (by decide)⟩
  · rename_i hnot
    exact mem_tried_iff.mpr ⟨ht, hnot⟩

/-- A soft word is a name. -/
theorem isName_of_isSoft {t : Terminal} (hsoft : t.isSoft = true) :
    IsName t.fixedText.toList := by
  have hletters : ∀ {c : Char} {rest : List Char}, isNameStart c = true →
      rest.all isNameChar = true → String.ofList (c :: rest) ∉ reservedWords →
      IsName (c :: rest) := fun hc hrest => .intro hc (List.all_eq_true.mp hrest)
  cases t with
  | start | call | loc | vec => exact hletters (by decide) (by decide) (by decide)
  | _ => contradiction

theorem IsLexeme.readAs {admitted : List Terminal} {t : Terminal} {lexeme : List Char}
    (hlexeme : t.IsLexeme lexeme) : (readAs admitted t).IsLexeme lexeme := by
  unfold Script.readAs
  split
  · rename_i hsoft
    have hname := isName_of_isSoft hsoft.1
    rw [← hlexeme.eq_fixedText] at hname
    · exact hname
    · intro hempty
      rw [hempty] at hname
      cases hname
  · exact hlexeme

/-- A soft word has its keyword's text and no other. -/
theorem softWord?_eq_some_iff {t : Terminal} {text : String} :
    t.softWord? = some text ↔ t.isSoft = true ∧ t.fixedText = text := by
  cases t <;> simp [Terminal.softWord?, Terminal.isSoft, Terminal.fixedText]

theorem eq_of_softWord?_eq {t u : Terminal} (ht : t.isSoft = true)
    (hwords : u.softWord? = t.softWord?) : u = t := by
  cases t with
  | start | call | loc | vec => cases u <;> simp [Terminal.softWord?] at hwords ⊢
  | _ => contradiction

theorem softWord?_of_isLexeme {t : Terminal} (hsoft : t.isSoft = true) {lexeme : List Char}
    (hlexeme : t.IsLexeme lexeme) : t.softWord? = some (String.ofList lexeme) := by
  have hname := isName_of_isSoft hsoft
  have hne : t.fixedText.toList ≠ [] := by
    intro hempty
    rw [hempty] at hname
    cases hname
  rw [softWord?_eq_some_iff, hlexeme.eq_fixedText hne, String.ofList_toList]
  exact ⟨hsoft, rfl⟩

/-- The kind of a token is the terminal whose lexeme was read. -/
theorem retyped_readAs {admitted : List Terminal} {t : Terminal} (ht : t ∈ admitted)
    {lexeme : List Char} (hlexeme : t.IsLexeme lexeme)
    (hname : t = .ident → ∀ u ∈ admitted, u.softWord? ≠ some (String.ofList lexeme)) :
    retyped admitted (readAs admitted t) (String.ofList lexeme) = t := by
  by_cases hsoft : t.isSoft = true ∧ .ident ∈ admitted
  · have hword := softWord?_of_isLexeme hsoft.1 hlexeme
    have hfind : admitted.find? (fun u => u.softWord? = some (String.ofList lexeme)) =
        some t := by
      cases hfound : admitted.find? fun u => u.softWord? = some (String.ofList lexeme) with
      | none =>
          have hnone := List.find?_eq_none.mp hfound t ht
          simp [hword] at hnone
      | some u =>
          have hu := List.find?_some hfound
          simp only [decide_eq_true_eq] at hu
          rw [eq_of_softWord?_eq hsoft.1 (hu.trans hword.symm)]
    rw [readAs, if_pos hsoft, retyped, if_pos rfl, hfind]
    rfl
  · rw [readAs, if_neg hsoft]
    by_cases hident : t = .ident
    · subst hident
      have hfind : admitted.find? (fun u => u.softWord? = some (String.ofList lexeme)) =
          none := by
        apply List.find?_eq_none.mpr
        intro u hu
        simpa using hname rfl u hu
      rw [retyped, if_pos rfl, hfind]
      rfl
    · rw [retyped, if_neg hident]

/-- A lexeme of an admitted terminal is read as a token of that terminal. -/
theorem Cursor.token?_append {admitted : List Terminal} (hapart : TellsApart admitted)
    {t : Terminal} (ht : t ∈ admitted) {lexeme rest : List Char}
    (hlexeme : t.IsLexeme lexeme) (hends : (readAs admitted t).Ends rest)
    (hname : t = .ident → ∀ u ∈ admitted, u.softWord? ≠ some (String.ofList lexeme))
    (place : Place) :
    Cursor.token? ⟨place, lexeme ++ rest⟩ admitted =
      some (⟨t, String.ofList lexeme, place⟩, ⟨place.after lexeme, rest⟩) := by
  have hread : (readAs admitted t).IsLexeme lexeme := IsLexeme.readAs hlexeme
  have hsplit := Terminal.split?_append hread hends
  have hmem := readAs_mem_tried ht
  have hkind := retyped_readAs ht hlexeme hname
  unfold Cursor.token?
  by_cases hscope : readAs admitted t = .scopePrefix
  · -- Scopes are tried first, before the names that they begin with.
    rw [hscope] at hsplit hmem hkind
    have hfirst : ∃ others, tried admitted = .scopePrefix :: others :=
      ⟨_, List.filter_cons_of_pos (decide_eq_true (mem_tried_iff.mp hmem))⟩
    obtain ⟨others, hothers⟩ := hfirst
    rw [hothers, List.findSome?_cons, hsplit]
    simp only [Option.map_some, hkind]
    rfl
  · apply findSome?_eq_of_unique hmem
    · rw [hsplit]
      simp only [Option.map_some, hkind]
      rfl
    · intro u hu hne
      rcases hapart _ hmem u hu with heq | hapart | ⟨hleft, hright⟩
      · exact absurd heq.symm hne
      · rw [hread.split?_eq_none hapart]
        rfl
      · simp only [List.mem_cons, List.not_mem_nil, or_false] at hleft hright
        obtain hident := hleft.resolve_right hscope
        obtain rfl := hright.resolve_left (hident ▸ hne)
        rw [hident] at hread hends
        simp only [Terminal.split?, Terminal.splitScope_name_eq_none hread hends,
          Option.map_none]

theorem isBlank_eq_true_iff {c : Char} :
    isBlank c = true ↔ c ∈ [' ', '\t', '\x0c', '\r', '\n'] := by
  simp [isBlank, or_assoc]

theorem not_begins_of_isBlank {c : Char} (hc : isBlank c = true) (t : Terminal) :
    t.begins c = false := by
  have hall : ∀ t ∈ Terminal.all,
      [' ', '\t', '\x0c', '\r', '\n'].all (fun c => !t.begins c) = true := by decide
  have hnone := List.all_eq_true.mp (hall t (mem_all t)) c (isBlank_eq_true_iff.mp hc)
  simpa using hnone

theorem eq_operator_of_begins_slash {t : Terminal} (ht : t.begins '/' = true) :
    t = .operator := by
  have hall : ∀ t ∈ Terminal.all, t.begins '/' = true → t = .operator := by decide
  exact hall t (mem_all t) ht

/-- A lexeme does not begin with layout, unless it is a slash before another
one. -/
theorem solid_of_isLexeme {t : Terminal} {lexeme rest : List Char}
    (hlexeme : t.IsLexeme lexeme) (hslash : lexeme = ['/'] → rest.head? ≠ some '/') :
    Solid (lexeme ++ rest) := by
  obtain ⟨c, tail, rfl, hbegins⟩ := hlexeme.begins
  intro d after heq
  simp only [List.cons_append, List.cons.injEq] at heq
  obtain ⟨rfl, rfl⟩ := heq
  constructor
  · cases hblank : isBlank c with
    | false => rfl
    | true =>
        rw [not_begins_of_isBlank hblank] at hbegins
        contradiction
  · rintro rfl
    obtain rfl := eq_operator_of_begins_slash hbegins
    obtain ⟨sign, -, hsign⟩ := hlexeme
    simp only [List.cons.injEq] at hsign
    obtain ⟨rfl, rfl⟩ := hsign
    exact hslash rfl

/-- Retyping keeps a lexeme a lexeme, and leaves a name only where it is no
admitted soft word. -/
theorem isLexeme_retyped {t : Terminal} {lexeme : List Char} (admitted : List Terminal)
    (hlexeme : t.IsLexeme lexeme) :
    (retyped admitted t (String.ofList lexeme)).IsLexeme lexeme ∧
      (retyped admitted t (String.ofList lexeme) = .ident →
        ∀ u ∈ admitted, u.softWord? ≠ some (String.ofList lexeme)) := by
  by_cases hident : t = .ident
  · subst hident
    simp only [retyped, ↓reduceIte]
    cases hfind : admitted.find? fun u => u.softWord? = some (String.ofList lexeme) with
    | none =>
        refine ⟨hlexeme, fun _ u hu => ?_⟩
        simpa using List.find?_eq_none.mp hfind u hu
    | some soft =>
        have hsoft := List.find?_some hfind
        simp only [decide_eq_true_eq] at hsoft
        obtain ⟨hissoft, hfixed⟩ := softWord?_eq_some_iff.mp hsoft
        have htext : lexeme = soft.fixedText.toList := by
          rw [hfixed, String.toList_ofList]
        constructor
        · cases soft with
          | start | call | loc | vec => exact htext
          | _ => contradiction
        · rintro rfl
          contradiction
  · rw [retyped, if_neg hident]
    exact ⟨hlexeme, fun h => absurd h hident⟩

theorem retyped_mem {admitted : List Terminal} {t : Terminal} (ht : t ∈ admitted)
    (text : String) : retyped admitted t text ∈ admitted := by
  unfold retyped
  split
  · rename_i hident
    cases hfind : admitted.find? fun soft => soft.softWord? = some text with
    | none => exact hident ▸ ht
    | some soft => exact List.mem_of_find?_eq_some hfind
  · exact ht

/-- A lexeme of an admitted terminal is read behind layout. -/
theorem Cursor.read_append {admitted : List Terminal} (hapart : TellsApart admitted)
    {t : Terminal} (ht : t ∈ admitted) {gap lexeme rest : List Char} (hgap : IsLayout gap)
    (hlexeme : t.IsLexeme lexeme) (hslash : lexeme = ['/'] → rest.head? ≠ some '/')
    (hends : (readAs admitted t).Ends rest)
    (hname : t = .ident → ∀ u ∈ admitted, u.softWord? ≠ some (String.ofList lexeme))
    (place : Place) :
    Cursor.read ⟨place, gap ++ (lexeme ++ rest)⟩ admitted =
      .token ⟨t, String.ofList lexeme, place.after gap⟩
        ⟨(place.after gap).after lexeme, rest⟩ := by
  have hsolid := splitLayout_solid (solid_of_isLexeme hlexeme hslash)
  have hskip : Cursor.skipLayout ⟨place, gap ++ (lexeme ++ rest)⟩ =
      ⟨place.after gap, lexeme ++ rest⟩ := by
    simp only [Cursor.skipLayout, hgap.splitLayout_append, hsolid, List.append_nil,
      Cursor.past]
  have htoken := Cursor.token?_append hapart ht hlexeme hends hname (place.after gap)
  obtain ⟨c, tail, rfl, -⟩ := hlexeme.begins
  simp only [List.cons_append] at hskip htoken ⊢
  simp only [Cursor.read, hskip, htoken]

theorem Cursor.read_end {rest : List Char} (hrest : IsEndLayout rest) (place : Place)
    (admitted : List Terminal) : Cursor.read ⟨place, rest⟩ admitted = .finished := by
  simp only [Cursor.read, Cursor.skipLayout, hrest.splitLayout_eq, Cursor.past]

/-! ### What is read -/

/-- A token is read by a terminal that is tried, and its kind is found anew. -/
theorem Cursor.exists_split?_of_token? {cursor next : Cursor} {admitted : List Terminal}
    {token : Token} (h : cursor.token? admitted = some (token, next)) :
    ∃ t ∈ tried admitted, ∃ lexeme rest, t.split? cursor.rest = some (lexeme, rest) ∧
      token = ⟨retyped admitted t (String.ofList lexeme), String.ofList lexeme, cursor.place⟩ ∧
      next = cursor.past lexeme rest := by
  obtain ⟨t, ht, hread⟩ := List.exists_of_findSome?_eq_some h
  simp only [Option.map_eq_some_iff] at hread
  obtain ⟨⟨lexeme, rest⟩, hsplit, heq⟩ := hread
  cases heq
  exact ⟨t, ht, lexeme, rest, hsplit, rfl, rfl⟩

theorem Cursor.token?_eq_some {cursor next : Cursor} {admitted : List Terminal}
    {token : Token} (h : cursor.token? admitted = some (token, next)) :
    ∃ lexeme, cursor.rest = lexeme ++ next.rest ∧ token.kind.IsLexeme lexeme ∧
      token.text = String.ofList lexeme ∧ token.place = cursor.place ∧
      next.place = cursor.place.after lexeme ∧
      (token.kind = .ident → ∀ u ∈ admitted, u.softWord? ≠ some token.text) := by
  obtain ⟨t, -, lexeme, rest, hsplit, rfl, rfl⟩ := Cursor.exists_split?_of_token? h
  obtain ⟨hrest, hlexeme⟩ := Terminal.split?_eq_some hsplit
  obtain ⟨hkind, hname⟩ := isLexeme_retyped admitted hlexeme
  exact ⟨lexeme, hrest, hkind, rfl, rfl, rfl, hname⟩

/-- Only admitted tokens are read. -/
theorem Cursor.kind_mem_of_token? {cursor next : Cursor} {admitted : List Terminal}
    {token : Token} (h : cursor.token? admitted = some (token, next)) :
    token.kind ∈ admitted := by
  obtain ⟨t, ht, lexeme, rest, -, rfl, -⟩ := Cursor.exists_split?_of_token? h
  exact retyped_mem (mem_tried_iff.mp ht).1 _

theorem Cursor.rest_ne_nil_of_token? {cursor next : Cursor} {admitted : List Terminal}
    {token : Token} (h : cursor.token? admitted = some (token, next)) : cursor.rest ≠ [] := by
  obtain ⟨lexeme, hrest, hlexeme, -⟩ := Cursor.token?_eq_some h
  obtain ⟨c, tail, rfl, -⟩ := hlexeme.begins
  rw [hrest]
  exact List.cons_ne_nil _ _

theorem Cursor.read_eq_token_iff {cursor next : Cursor} {admitted : List Terminal}
    {token : Token} :
    cursor.read admitted = .token token next ↔
      cursor.skipLayout.token? admitted = some (token, next) := by
  cases hfound : cursor.skipLayout.token? admitted with
  | some found =>
      cases hrest : cursor.skipLayout.rest with
      | nil => exact absurd hrest (Cursor.rest_ne_nil_of_token? hfound)
      | cons c rest => simp [Cursor.read, hrest, hfound, Prod.ext_iff]
  | none =>
      simp only [Cursor.read, hfound, reduceCtorEq, iff_false]
      split
      · exact nofun
      · split <;> exact nofun

theorem Cursor.read_eq_unexpected_iff {cursor : Cursor} {admitted : List Terminal}
    {token : Token} :
    cursor.read admitted = .unexpected token ↔
      cursor.skipLayout.token? admitted = none ∧
        ∃ next, cursor.skipLayout.token? Terminal.all = some (token, next) := by
  cases hfound : cursor.skipLayout.token? admitted with
  | some found => simp [Cursor.read_eq_token_iff.mpr hfound]
  | none =>
      cases hany : cursor.skipLayout.token? Terminal.all with
      | some found =>
          cases hrest : cursor.skipLayout.rest with
          | nil => exact absurd hrest (Cursor.rest_ne_nil_of_token? hany)
          | cons c rest => simp [Cursor.read, hrest, hfound, hany, Prod.ext_iff]
      | none =>
          simp only [Cursor.read, hfound, hany, reduceCtorEq, exists_false, and_false, iff_false]
          split <;> exact nofun

theorem Cursor.read_eq_unreadable_iff {cursor : Cursor} {admitted : List Terminal} {c : Char}
    {place : Place} :
    cursor.read admitted = .unreadable c place ↔
      cursor.skipLayout.token? admitted = none ∧ cursor.skipLayout.token? Terminal.all = none ∧
        cursor.skipLayout.rest.head? = some c ∧ cursor.skipLayout.place = place := by
  cases hfound : cursor.skipLayout.token? admitted with
  | some found => simp [Cursor.read_eq_token_iff.mpr hfound]
  | none =>
      cases hany : cursor.skipLayout.token? Terminal.all with
      | some found => simp [Cursor.read_eq_unexpected_iff.mpr ⟨hfound, found.2, hany⟩]
      | none =>
          cases hrest : cursor.skipLayout.rest with
          | nil => simp [Cursor.read, hrest]
          | cons d rest => simp [Cursor.read, hrest, hfound, hany]

/-- A token is read as a lexeme behind layout. -/
theorem Cursor.read_eq_token {cursor next : Cursor} {admitted : List Terminal}
    {token : Token} (h : cursor.read admitted = .token token next) :
    ∃ gap lexeme, cursor.rest = gap ++ (lexeme ++ next.rest) ∧ IsLayout gap ∧
      token.kind.IsLexeme lexeme ∧ Solid (lexeme ++ next.rest) ∧
      token.text = String.ofList lexeme ∧ token.place = cursor.place.after gap ∧
      next.place = (cursor.place.after gap).after lexeme ∧
      (token.kind = .ident → ∀ u ∈ admitted, u.softWord? ≠ some token.text) := by
  obtain ⟨hsplit, hgap⟩ := splitLayout_splits false cursor.rest
  obtain ⟨lexeme, hrest, hlexeme, htext, hplace, hnext, hname⟩ :=
    Cursor.token?_eq_some (Cursor.read_eq_token_iff.mp h)
  have hrest : (splitLayout false cursor.rest).2 = lexeme ++ next.rest := hrest
  rw [hrest] at hsplit hgap
  refine ⟨_, lexeme, hsplit, hgap.closed ?_, hlexeme, hgap.solid, htext, hplace, hnext, hname⟩
  obtain ⟨d, rest, rfl, -⟩ := hlexeme.begins
  simp

/-- A token takes up text. -/
theorem Cursor.length_lt_of_read {cursor next : Cursor} {admitted : List Terminal} {token : Token}
    (hread : cursor.read admitted = .token token next) :
    next.rest.length < cursor.rest.length := by
  obtain ⟨gap, lexeme, hrest, -, hlexeme, -⟩ := Cursor.read_eq_token hread
  obtain ⟨c, tail, rfl, -⟩ := hlexeme.begins
  rw [hrest]
  simp only [List.length_append, List.length_cons]
  omega

/-- Only layout is left where reading is finished. -/
theorem Cursor.read_eq_finished {cursor : Cursor} {admitted : List Terminal}
    (h : cursor.read admitted = .finished) : IsEndLayout cursor.rest := by
  obtain ⟨hsplit, hgap⟩ := splitLayout_splits false cursor.rest
  simp only [Cursor.read] at h
  split at h
  · rename_i hskip
    have hnone : (splitLayout false cursor.rest).2 = [] := hskip
    rw [hnone, List.append_nil] at hsplit
    rw [hsplit]
    exact hgap.ends
  · split at h
    · contradiction
    · split at h <;> contradiction

/-! ### What is not read -/

theorem Cursor.token?_eq_none_iff {cursor : Cursor} {admitted : List Terminal} :
    cursor.token? admitted = none ↔ ∀ t ∈ tried admitted, t.split? cursor.rest = none := by
  simp [Cursor.token?, List.findSome?_eq_none_iff]

/-- Where no admitted token begins: the layout before that place, and the text
from there on. -/
structure Stuck (cursor : Cursor) (admitted : List Terminal) (gap rest : List Char) :
    Prop where
  split : cursor.rest = gap ++ rest
  layout : IsLayout gap
  none_read : ∀ t ∈ tried admitted, t.split? rest = none

theorem Cursor.exists_stuck {cursor : Cursor} {admitted : List Terminal}
    (hnone : cursor.skipLayout.token? admitted = none) (hrest : cursor.skipLayout.rest ≠ []) :
    ∃ gap, Stuck cursor admitted gap cursor.skipLayout.rest ∧
      cursor.skipLayout.place = cursor.place.after gap := by
  obtain ⟨hsplit, hgap⟩ := splitLayout_splits false cursor.rest
  exact ⟨_, ⟨hsplit, hgap.closed hrest, Cursor.token?_eq_none_iff.mp hnone⟩, rfl⟩

theorem Cursor.read_eq_unexpected {cursor : Cursor} {admitted : List Terminal}
    {token : Token} (h : cursor.read admitted = .unexpected token) :
    ∃ gap after, Stuck cursor admitted gap (token.text.toList ++ after) ∧
      token.place = cursor.place.after gap ∧
      ∃ t ∈ tried Terminal.all, t.split? (token.text.toList ++ after) =
        some (token.text.toList, after) := by
  obtain ⟨hnone, next, hfound⟩ := Cursor.read_eq_unexpected_iff.mp h
  obtain ⟨gap, hstuck, hgap⟩ := Cursor.exists_stuck hnone (Cursor.rest_ne_nil_of_token? hfound)
  obtain ⟨t, ht, lexeme, after, hread, rfl, -⟩ := Cursor.exists_split?_of_token? hfound
  rw [(Terminal.split?_eq_some hread).1] at hstuck hread
  rw [String.toList_ofList]
  exact ⟨gap, after, hstuck, hgap, t, ht, hread⟩

theorem Cursor.read_eq_unreadable {cursor : Cursor} {admitted : List Terminal} {c : Char}
    {place : Place} (h : cursor.read admitted = .unreadable c place) :
    ∃ gap after, Stuck cursor admitted gap (c :: after) ∧
      place = cursor.place.after gap ∧ ∀ t ∈ tried Terminal.all, t.split? (c :: after) = none := by
  obtain ⟨hnone, hany, hhead, rfl⟩ := Cursor.read_eq_unreadable_iff.mp h
  obtain ⟨after, hrest⟩ := List.head?_eq_some_iff.mp hhead
  obtain ⟨gap, hstuck, hgap⟩ := Cursor.exists_stuck hnone (by rw [hrest]; exact nofun)
  have hevery := Cursor.token?_eq_none_iff.mp hany
  rw [hrest] at hstuck hevery
  exact ⟨gap, after, hstuck, hgap, hevery⟩

/-! ### Texts and the terminals they are lexemes of -/

theorem Terminal.IsLexeme.split?_self {t : Terminal} {lexeme : List Char}
    (hlexeme : t.IsLexeme lexeme) : t.split? lexeme = some (lexeme, []) := by
  have hends : t.Ends [] := by
    cases t <;> simp [Terminal.Ends, Stops.nil]
  have hsplit := Terminal.split?_append hlexeme hends
  rwa [List.append_nil] at hsplit

theorem IsScope.not_isName {scope : List Char} (hscope : IsScope scope) : ¬ IsName scope := by
  obtain ⟨word, -, rfl⟩ := hscope
  intro hname
  have hcolon := hname.all ':' (by simp)
  contradiction

theorem not_isNumeral_sign {c : Char} (hc : c ∈ operatorSigns) : ¬ IsNumeral [c] := by
  intro hnumeral
  have hread : splitNumber [c] = some ([c], []) := splitNumber_append hnumeral (Stops.nil _)
  have hsigns : operatorSigns.all fun c => (splitNumber [c]).isNone := by decide
  have hnone := List.all_eq_true.mp hsigns c hc
  rw [hread] at hnone
  contradiction

/-- A fixed text is a lexeme of no other terminal, unless it is a soft word, which
is a name too. -/
theorem Terminal.IsLexeme.kind_eq_of_fixed {t u : Terminal} {lexeme : List Char}
    (ht : t.IsLexeme lexeme) (hu : u.IsLexeme lexeme) (hfixed : t.fixedText.toList ≠ []) :
    t = u ∨ t.isSoft = true ∧ u = .ident := by
  have hall : ∀ t ∈ Terminal.all, ∀ u ∈ Terminal.all, t.fixedText.toList ≠ [] →
      u.split? t.fixedText.toList = some (t.fixedText.toList, []) →
      t = u ∨ t.isSoft = true ∧ u = .ident := by decide +kernel
  have hread := hu.split?_self
  rw [ht.eq_fixedText hfixed] at hread
  exact hall t (mem_all t) u (mem_all u) hfixed hread

/-- A text is a lexeme of one terminal only, but for the soft words. -/
theorem Terminal.IsLexeme.kind_eq {t u : Terminal} {lexeme : List Char}
    (ht : t.IsLexeme lexeme) (hu : u.IsLexeme lexeme) :
    t = u ∨ t.isSoft = true ∧ u = .ident ∨ u.isSoft = true ∧ t = .ident := by
  by_cases htext : t.fixedText.toList = []
  · by_cases hutext : u.fixedText.toList = []
    · -- Neither has a fixed text, so both begin in the way of the lexeme.
      obtain ⟨c, rest, rfl, hc⟩ := ht.begins
      obtain ⟨d, tail, heq, hd⟩ := hu.begins
      cases heq
      have hsame : t.beginning = u.beginning :=
        (Terminal.beginning_eq_of_begins htext hc).trans
          (Terminal.beginning_eq_of_begins hutext hd).symm
      cases t <;> cases u <;> simp [Terminal.beginning, Terminal.fixedText] at hsame htext hutext ⊢
      · exact absurd hu ht.not_isName
      · obtain ⟨sign, hsign, heq⟩ := hu
        exact not_isNumeral_sign hsign (heq ▸ ht)
      · exact absurd ht hu.not_isName
      · obtain ⟨sign, hsign, heq⟩ := ht
        exact not_isNumeral_sign hsign (heq ▸ hu)
    · rcases hu.kind_eq_of_fixed ht hutext with heq | hsoft
      · exact .inl heq.symm
      · exact .inr (.inr hsoft)
  · rcases ht.kind_eq_of_fixed hu htext with heq | hsoft
    · exact .inl heq
    · exact .inr (.inl hsoft)

theorem Terminal.isLexeme_fixedText {t : Terminal} (hfixed : t.fixedText.toList ≠ []) :
    t.IsLexeme t.fixedText.toList := by
  cases t with
  | scopePrefix | number | ident | text | operator => exact absurd rfl hfixed
  | _ => rfl

/-- Where a letter stands, a name or a reserved word is read. -/
theorem exists_split?_of_isNameStart {c : Char} (hc : isNameStart c = true) (cs : List Char) :
    ∃ t ∈ tried Terminal.all, t.split? (c :: cs) ≠ none := by
  by_cases hreserved : String.ofList (c :: cs.takeWhile isNameChar) ∈ reservedWords
  · have hwords : ∀ word ∈ reservedWords, ∃ t ∈ tried Terminal.all,
        t.fixedText.toList ≠ [] ∧ t.fixedText = word := by decide
    obtain ⟨t, ht, hfixed, htext⟩ := hwords _ hreserved
    refine ⟨t, ht, ?_⟩
    have hends : ∀ rest, t.Ends rest := by
      intro rest
      cases t with
      | scopePrefix | number | ident => exact absurd rfl hfixed
      | _ => trivial
    have hread := Terminal.split?_append (Terminal.isLexeme_fixedText hfixed)
      (hends (cs.dropWhile isNameChar))
    rw [htext, String.toList_ofList, List.cons_append, List.takeWhile_append_dropWhile] at hread
    simp [hread]
  · refine ⟨.ident, by decide, ?_⟩
    simp only [Terminal.split?, splitName, hc, ↓reduceIte, hreserved]
    exact Option.some_ne_none _

/-- A terminal that is no number begins with a letter, or reads its lexemes before
any text. -/
theorem Terminal.begins_or_ends {t : Terminal} (ht : t ≠ .number) :
    (∀ c, t.begins c = true → isNameStart c = true) ∨
      t ∈ tried Terminal.all ∧ ∀ rest, t.Ends rest := by
  cases t with
  | number => exact absurd rfl ht
  | ident => exact .inl fun c hc => hc
  | scopePrefix =>
      refine .inl fun c hc => ?_
      simp only [Terminal.begins, List.mem_cons, List.not_mem_nil, or_false,
        decide_eq_true_eq] at hc
      rcases hc with rfl | rfl | rfl <;> decide
  | start | call | loc | vec =>
      refine .inl fun c hc => ?_
      obtain rfl := Option.some.inj (eq_of_beq hc)
      decide
  | _ => exact .inr ⟨by decide, fun rest => trivial⟩

/-- Where a lexeme stands, some token is read. -/
theorem Terminal.IsLexeme.exists_split? {t : Terminal} {lexeme : List Char}
    (hlexeme : t.IsLexeme lexeme) (rest : List Char) :
    ∃ u ∈ tried Terminal.all, u.split? (lexeme ++ rest) ≠ none := by
  obtain ⟨c, tail, htext, hc⟩ := hlexeme.begins
  by_cases hnumber : t = .number
  · subst hnumber htext
    simp only [Terminal.begins, Bool.or_eq_true, List.mem_cons, List.not_mem_nil, or_false,
      decide_eq_true_eq] at hc
    rcases hc with hdigit | rfl | rfl | rfl
    · exact ⟨.number, by decide, splitNumber_ne_none hdigit (tail ++ rest)⟩
    · exact ⟨.operator, by decide, Option.some_ne_none _⟩
    · exact ⟨.operator, by decide, Option.some_ne_none _⟩
    · exact ⟨.dot, by decide, Option.some_ne_none _⟩
  · rcases Terminal.begins_or_ends hnumber with hletter | ⟨ht, hends⟩
    · rw [htext]
      exact exists_split?_of_isNameStart (hletter c hc) (tail ++ rest)
    · refine ⟨t, ht, ?_⟩
      rw [Terminal.split?_append hlexeme (hends rest)]
      exact Option.some_ne_none _

/-- A character that begins no token begins none whatever is admitted. -/
theorem Cursor.read_unreadable {cursor : Cursor} {seen : List Terminal} {c : Char}
    {place : Place} (hread : cursor.read seen = .unreadable c place) (admitted : List Terminal) :
    cursor.read admitted = .unreadable c place := by
  obtain ⟨-, hany, hhead, hplace⟩ := Cursor.read_eq_unreadable_iff.mp hread
  refine Cursor.read_eq_unreadable_iff.mpr ⟨?_, hany, hhead, hplace⟩
  cases hfound : cursor.skipLayout.token? admitted with
  | none => rfl
  | some found =>
      obtain ⟨lexeme, htext, hlexeme, -⟩ := Cursor.token?_eq_some hfound
      obtain ⟨u, hu, hsplit⟩ := hlexeme.exists_split? found.2.rest
      rw [← htext] at hsplit
      exact absurd (Cursor.token?_eq_none_iff.mp hany u hu) hsplit

end Blockscript.Script
