import Blockscript.Proofs.Script.Lexeme
import Blockscript.Script.Cursor

/-!
Layout: the blanks and comments that stand between tokens and behind the last
one.  Splitting off layout takes all of it and nothing else.
-/

namespace Blockscript.Script

/-- Layout in front of a token: blanks, and comments with the end of their
line. -/
inductive IsLayout : List Char → Prop
  | nil : IsLayout []
  | blank {c : Char} {rest : List Char} (hc : isBlank c = true) (hrest : IsLayout rest) :
      IsLayout (c :: rest)
  | comment {body rest : List Char} (hbody : '\n' ∉ body) (hrest : IsLayout rest) :
      IsLayout ('/' :: '/' :: (body ++ '\n' :: rest))

/-- Layout behind the last token, where a comment may lack the end of its
line. -/
inductive IsEndLayout : List Char → Prop
  | closed {gap : List Char} (hgap : IsLayout gap) : IsEndLayout gap
  | comment {gap body : List Char} (hgap : IsLayout gap) (hbody : '\n' ∉ body) :
      IsEndLayout (gap ++ '/' :: '/' :: body)

/-- A text that does not begin with layout. -/
def Solid (rest : List Char) : Prop :=
  ∀ c tail, rest = c :: tail → isBlank c = false ∧ (c = '/' → tail.head? ≠ some '/')

theorem solid_nil : Solid [] := by
  intro c tail h
  contradiction

/-! ### Layout is taken whole -/

theorem splitLayout_comment_append {body : List Char} (hbody : '\n' ∉ body)
    (rest : List Char) :
    splitLayout true (body ++ '\n' :: rest) =
      (body ++ '\n' :: (splitLayout false rest).1, (splitLayout false rest).2) := by
  induction body with
  | nil => simp [splitLayout]
  | cons c body ih =>
      simp only [List.mem_cons, not_or] at hbody
      have hline : (c != '\n') = true := bne_iff_ne.mpr (Ne.symm hbody.1)
      simp only [List.cons_append, splitLayout, hline, ih hbody.2]

theorem splitLayout_open_comment {body : List Char} (hbody : '\n' ∉ body) :
    splitLayout true body = (body, []) := by
  induction body with
  | nil => rfl
  | cons c body ih =>
      simp only [List.mem_cons, not_or] at hbody
      have hline : (c != '\n') = true := bne_iff_ne.mpr (Ne.symm hbody.1)
      simp only [splitLayout, hline, ih hbody.2]

theorem splitLayout_solid {rest : List Char} (hsolid : Solid rest) :
    splitLayout false rest = ([], rest) := by
  cases rest with
  | nil => rfl
  | cons c tail =>
      obtain ⟨hblank, hslash⟩ := hsolid c tail rfl
      rw [splitLayout.eq_4 c tail]
      · simp [hblank]
      · rintro after rfl rfl
        exact hslash rfl rfl

theorem IsLayout.splitLayout_append {gap : List Char} (hgap : IsLayout gap)
    (rest : List Char) :
    splitLayout false (gap ++ rest) =
      (gap ++ (splitLayout false rest).1, (splitLayout false rest).2) := by
  induction hgap with
  | nil => rfl
  | @blank c gap hc hgap ih =>
      rw [List.cons_append, splitLayout.eq_4 c]
      · simp only [hc, ↓reduceIte, ih, List.cons_append]
      · rintro after rfl
        contradiction
  | @comment body gap hbody hgap ih =>
      simp only [List.cons_append, List.append_assoc, splitLayout,
        splitLayout_comment_append hbody, ih]

theorem IsEndLayout.splitLayout_eq {gap : List Char} (hgap : IsEndLayout gap) :
    splitLayout false gap = (gap, []) := by
  cases hgap with
  | closed hgap =>
      have hsplit := hgap.splitLayout_append []
      simpa [splitLayout] using hsplit
  | @comment gap body hgap hbody =>
      rw [hgap.splitLayout_append]
      simp only [splitLayout, splitLayout_open_comment hbody]

/-! ### Only layout is taken -/

/-- A gap that has been split off in front of `rest`. -/
structure SplitsGap (gap rest : List Char) : Prop where
  solid : Solid rest
  ends : IsEndLayout gap
  closed : rest ≠ [] → IsLayout gap

theorem SplitsGap.blank {c : Char} {gap rest : List Char} (hc : isBlank c = true)
    (hgap : SplitsGap gap rest) : SplitsGap (c :: gap) rest := by
  refine ⟨hgap.solid, ?_, fun hrest => .blank hc (hgap.closed hrest)⟩
  cases hgap.ends with
  | closed hlayout => exact .closed (.blank hc hlayout)
  | comment hlayout hbody => exact .comment (.blank hc hlayout) hbody

theorem SplitsGap.comment {body gap rest : List Char} (hbody : '\n' ∉ body)
    (hgap : SplitsGap gap rest) :
    SplitsGap ('/' :: '/' :: (body ++ '\n' :: gap)) rest := by
  refine ⟨hgap.solid, ?_, fun hrest => .comment hbody (hgap.closed hrest)⟩
  cases hgap.ends with
  | closed hlayout => exact .closed (.comment hbody hlayout)
  | @comment gap last hlayout hlast =>
      have hall := IsEndLayout.comment (.comment hbody hlayout) hlast
      simpa using hall

/-- What has been split off behind the slashes of a comment: the rest of a last
line, or the rest of a line and a gap. -/
def SplitsComment (gap rest : List Char) : Prop :=
  (rest = [] ∧ '\n' ∉ gap) ∨
    ∃ body after, gap = body ++ '\n' :: after ∧ '\n' ∉ body ∧ SplitsGap after rest

theorem splitLayout_splits (commented : Bool) (cs : List Char) :
    cs = (splitLayout commented cs).1 ++ (splitLayout commented cs).2 ∧
      match commented with
      | false => SplitsGap (splitLayout commented cs).1 (splitLayout commented cs).2
      | true => SplitsComment (splitLayout commented cs).1 (splitLayout commented cs).2 := by
  induction commented, cs using splitLayout.induct with
  | case1 commented =>
      cases commented with
      | false => exact ⟨rfl, solid_nil, .closed .nil, fun h => absurd rfl h⟩
      | true => exact ⟨rfl, .inl ⟨rfl, List.not_mem_nil⟩⟩
  | case2 c rest ih =>
      obtain ⟨hsplit, hlayout⟩ := ih
      simp only [splitLayout]
      refine ⟨congrArg (c :: ·) hsplit, ?_⟩
      by_cases hc : c = '\n'
      · subst hc
        exact .inr ⟨[], _, rfl, List.not_mem_nil, hlayout⟩
      · have hline : (c != '\n') = true := bne_iff_ne.mpr hc
        rw [hline] at hlayout ⊢
        rcases hlayout with ⟨hrest, hbody⟩ | ⟨body, after, hgap, hbody, hafter⟩
        · exact .inl ⟨hrest, by simp [Ne.symm hc, hbody]⟩
        · exact .inr ⟨c :: body, after, by simp [hgap], by simp [Ne.symm hc, hbody], hafter⟩
  | case3 rest ih =>
      obtain ⟨hsplit, hlayout⟩ := ih
      simp only [splitLayout]
      refine ⟨congrArg ('/' :: '/' :: ·) hsplit, ?_⟩
      rcases hlayout with ⟨hrest, hbody⟩ | ⟨body, after, hgap, hbody, hafter⟩
      · rw [hrest]
        exact ⟨solid_nil, .comment .nil hbody, fun h => absurd rfl h⟩
      · rw [hgap]
        exact hafter.comment hbody
  | case4 c rest hslash hblank ih =>
      obtain ⟨hsplit, hlayout⟩ := ih
      rw [splitLayout.eq_4 c rest hslash]
      simp only [hblank, ↓reduceIte]
      exact ⟨congrArg (c :: ·) hsplit, hlayout.blank hblank⟩
  | case5 c rest hslash hblank =>
      rw [splitLayout.eq_4 c rest hslash]
      simp only [hblank, Bool.false_eq_true, ↓reduceIte]
      refine ⟨rfl, ?_, .closed .nil, fun _ => .nil⟩
      intro d tail heq
      cases heq
      refine ⟨by simpa using hblank, ?_⟩
      rintro rfl hhead
      obtain ⟨after, hafter⟩ := List.head?_eq_some_iff.mp hhead
      exact hslash after rfl hafter

end Blockscript.Script
