import Blockscript.Script.Parse
import Blockscript.Proofs.Script.Rows
import Blockscript.Proofs.Script.Reading

/-!
What the parse table admits, and after which token.  These are the facts about
the table that let an admitted terminal be read without layout before it: the
terminals that a state admits are told apart, and a name, a number or a scope
is only followed by what ends it.
-/

namespace Blockscript.Script

def rowAdmitted (row : Lr.Row Terminal Rule Production) : List Terminal :=
  row.lookaheads.filterMap id

/-- Terminals that can be admitted together: no two read at the same place, and
only the soft words of values stand beside names. -/
def Orderly (admitted : List Terminal) : Prop :=
  TellsApart admitted ∧
    (.ident ∈ admitted → ∀ t ∈ admitted, t.isSoft = true → t ∈ [.loc, .vec])

instance : DecidablePred Orderly :=
  fun admitted => inferInstanceAs (Decidable (TellsApart admitted ∧ _))

/-- What can stand directly behind a lexeme without becoming a part of it. -/
def Terminal.borders : Terminal → Terminal → Bool
  | scopePrefix, next => next = ident
  | number, next => next ∈ [comma, rightParen]
  | ident, next | loc, next | vec, next =>
      next ∈ [leftBrace, leftParen, operator, doubleColon, comma, rightParen]
  | _, _ => true

/-- The terminals behind which a value can stand. -/
def Terminal.opensValue (t : Terminal) : Bool :=
  t ∈ [leftParen, comma]

/-- Terminals that can be admitted behind a token: they border on it, and where
names stand for values the soft words of values do too. -/
def Sequel (t : Terminal) (admitted : List Terminal) : Prop :=
  (∀ u ∈ admitted, t.borders u = true) ∧
    (.loc ∈ admitted ∨ .vec ∈ admitted → t.opensValue = true) ∧
    (t.opensValue = true → .ident ∈ admitted → .loc ∈ admitted ∧ .vec ∈ admitted)

instance (t : Terminal) : DecidablePred (Sequel t) :=
  fun admitted => inferInstanceAs (Decidable ((∀ u ∈ admitted, _) ∧ _))

theorem orderly_rows : ∀ row ∈ rows, Orderly (rowAdmitted row) := by
  decide +kernel

theorem sequel_rows : ∀ row ∈ rows, ∀ edge ∈ row.shifts,
    Sequel edge.1 (rowAdmitted (rows[edge.2]?.getD {})) := by
  decide +kernel

/-- What a stack admits can be admitted together. -/
theorem orderly_admitted (stack : Stack) : Orderly (admitted stack) := by
  rcases row_mem_or (Lr.Stack.top stack) with hmem | hempty
  · exact orderly_rows _ hmem
  · rw [admitted, lookaheads, hempty]
    decide

/-- What is admitted in the state entered with a token can stand behind it. -/
theorem sequel_of_shift {state target : Nat} {t : Terminal}
    (hshift : (table.row state).shift? t = some target) :
    Sequel t (rowAdmitted (table.row target)) := by
  obtain ⟨before, behind, hshifts, -⟩ := List.lookup_eq_some_iff.mp hshift
  have hedge : (t, target) ∈ (table.row state).shifts := by simp [hshifts]
  rcases row_mem_or state with hmem | hempty
  · rw [row_eq target]
    exact sequel_rows _ hmem _ hedge
  · rw [hempty] at hedge
    exact absurd hedge List.not_mem_nil

/-! ### The ends of lexemes -/

/-- A character that ends every lexeme of a terminal. -/
def Terminal.endedBy : Terminal → Char → Bool
  | scopePrefix, c => c ≠ ':'
  | number, c => !isNumeralChar c
  | ident, c => !isNameChar c && c ≠ ':'
  | _, _ => true

theorem Terminal.ends_of_endedBy {t : Terminal} {rest : List Char}
    (h : ∀ c ∈ rest.head?, t.endedBy c = true) : t.Ends rest := by
  cases rest with
  | nil => cases t <;> simp [Ends, Stops.nil]
  | cons c rest =>
      have hc := h c rfl
      cases t with
      | scopePrefix => exact Stops.cons (by simpa [endedBy] using hc) rest
      | number => exact Stops.cons (by simpa [endedBy] using hc) rest
      | ident =>
          simp only [endedBy, ne_eq, Bool.and_eq_true, Bool.not_eq_eq_eq_not, Bool.not_true,
            decide_eq_true_eq] at hc
          refine ⟨Stops.cons hc.1 rest, fun tail htail => ?_⟩
          exact absurd (List.cons.inj htail).1 hc.2
      | _ => trivial

theorem Terminal.endedBy_of_layout {c : Char} (hc : isBlank c = true ∨ c = '/')
    (t : Terminal) : t.endedBy c = true := by
  have hall : ∀ t ∈ Terminal.all,
      ['/', ' ', '\t', '\x0c', '\r', '\n'].all t.endedBy = true := by decide
  refine List.all_eq_true.mp (hall t (mem_all t)) c ?_
  rcases hc with hblank | rfl
  · exact List.mem_cons_of_mem _ (isBlank_eq_true_iff.mp hblank)
  · decide

theorem IsLayout.head {gap : List Char} (hgap : IsLayout gap) {c : Char}
    (hc : c ∈ gap.head?) : isBlank c = true ∨ c = '/' := by
  cases hgap with
  | nil => contradiction
  | blank hblank =>
      cases hc
      exact .inl hblank
  | comment =>
      cases hc
      exact .inr rfl

theorem IsEndLayout.head {gap : List Char} (hgap : IsEndLayout gap) {c : Char}
    (hc : c ∈ gap.head?) : isBlank c = true ∨ c = '/' := by
  cases hgap with
  | closed hgap => exact hgap.head hc
  | @comment gap body hgap =>
      cases gap with
      | nil =>
          cases hc
          exact .inr rfl
      | cons d rest => exact hgap.head hc

/-- A lexeme ends before the layout behind the last token. -/
theorem IsEndLayout.ends {last : List Char} (hlast : IsEndLayout last) (t : Terminal) :
    t.Ends last :=
  Terminal.ends_of_endedBy fun _ hc => Terminal.endedBy_of_layout (hlast.head hc) t

theorem Terminal.ends_of_begins {t u : Terminal}
    (hended : ∀ c, u.begins c = true → t.endedBy c = true) {lexeme : List Char}
    (hlexeme : u.IsLexeme lexeme) (rest : List Char) : t.Ends (lexeme ++ rest) := by
  obtain ⟨c, tail, rfl, hbegins⟩ := hlexeme.begins
  refine ends_of_endedBy fun d hd => ?_
  cases hd
  exact hended c hbegins

/-- A name ends before all signs that border on it. -/
theorem Terminal.ends_name {u : Terminal} (hborders : ident.borders u = true)
    {lexeme : List Char} (hlexeme : u.IsLexeme lexeme) (rest : List Char) :
    ident.Ends (lexeme ++ rest) := by
  simp only [borders, List.mem_cons, List.not_mem_nil, or_false, decide_eq_true_eq]
    at hborders
  rcases hborders with rfl | rfl | rfl | rfl | rfl | rfl
  case inr.inr.inl =>
    have hsigns : ∀ c ∈ operatorSigns, ident.endedBy c = true :=
      List.all_eq_true.mp (by decide)
    exact ends_of_begins (fun c hc => hsigns c (by simpa [begins] using hc)) hlexeme rest
  case inr.inr.inr.inl =>
    -- The only sign behind a name that begins with a colon begins with two.
    cases hlexeme
    refine ⟨Stops.cons (by decide) _, fun tail htail => ?_⟩
    cases htail
    rfl
  all_goals
    refine ends_of_begins (fun c hc => ?_) hlexeme rest
    simp only [begins, fixedText, beq_iff_eq] at hc
    cases hc
    decide

/-- A lexeme ends before a lexeme that borders on it. -/
theorem Terminal.ends_of_borders {t u : Terminal} (hborders : t.borders u = true)
    {lexeme : List Char} (hlexeme : u.IsLexeme lexeme) (rest : List Char) :
    t.Ends (lexeme ++ rest) := by
  cases t with
  | scopePrefix =>
      simp only [borders, decide_eq_true_eq] at hborders
      subst hborders
      refine ends_of_begins (fun c hc => ?_) hlexeme rest
      simp only [endedBy, decide_eq_true_eq]
      rintro rfl
      contradiction
  | number =>
      simp only [borders, List.mem_cons, List.not_mem_nil, or_false, decide_eq_true_eq]
        at hborders
      refine ends_of_begins (fun c hc => ?_) hlexeme rest
      rcases hborders with rfl | rfl
      all_goals
        simp only [begins, fixedText, beq_iff_eq] at hc
        cases hc
        decide
  | ident => exact ends_name hborders hlexeme rest
  | _ => trivial

/-- What is read for a terminal ends before layout and a lexeme that borders on
it. -/
theorem Terminal.ends_readAs {t u : Terminal} (hborders : t.borders u = true)
    {gap : List Char} (hgap : IsLayout gap)
    {lexeme : List Char} (hlexeme : u.IsLexeme lexeme) (rest : List Char)
    {admitted : List Terminal} (horderly : Orderly admitted) (ht : t ∈ admitted) :
    (readAs admitted t).Ends (gap ++ (lexeme ++ rest)) := by
  cases gap with
  | nil =>
      unfold readAs
      split
      · rename_i hsoft
        have hvalue := horderly.2 hsoft.2 t ht hsoft.1
        simp only [List.mem_cons, List.not_mem_nil, or_false] at hvalue
        rcases hvalue with rfl | rfl
        · exact ends_name hborders hlexeme rest
        · exact ends_name hborders hlexeme rest
      · exact ends_of_borders hborders hlexeme rest
  | cons c gap =>
      exact ends_of_endedBy fun d hd => endedBy_of_layout (hgap.head hd) _

end Blockscript.Script
