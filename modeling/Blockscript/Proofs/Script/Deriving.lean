import Blockscript.Proofs.Script.Spelling

/-!
The tokens that derive a syntax tree are those that spell it, provided that they
are lexemes of their terminals.
-/

namespace Blockscript.Script

/-- Tokens whose texts are lexemes of their terminals. -/
def Lexical (tokens : List Token) : Prop :=
  ∀ token ∈ tokens, token.kind.IsLexeme token.text.toList

theorem Lexical.append_left {first rest : List Token} (h : Lexical (first ++ rest)) :
    Lexical first :=
  fun token htoken => h token (List.mem_append_left rest htoken)

theorem Lexical.append_right {first rest : List Token} (h : Lexical (first ++ rest)) :
    Lexical rest :=
  fun token htoken => h token (List.mem_append_right first htoken)

theorem Lexical.head {token : Token} {tokens : List Token} (h : Lexical (token :: tokens))
    {t : Terminal} (hkind : token.kind = t) : t.IsLexeme token.text.toList := by
  rw [← hkind]
  exact h token List.mem_cons_self

/-! ### Lists -/

theorem Trail.concat {α : Type} {separator : Terminal} {P : α → List Token → Prop}
    {xs : List α} {tokens : List Token} (htrail : Trail separator P xs tokens)
    {mark : Token} (hmark : mark.kind = separator) {x : α} {last : List Token}
    (hlast : P x last) : Trail separator P (xs.concat x) (tokens ++ mark :: last) := by
  induction htrail with
  | nil =>
      have hone := Trail.cons hmark hlast Trail.nil
      rwa [List.append_nil] at hone
  | cons hfound hfirst _ ih =>
      rw [List.cons_append, List.append_assoc]
      exact .cons hfound hfirst ih

theorem Enclosed.three {α : Type} {P : α → List Token → Prop} {x y z : α}
    {opening m₁ m₂ closing : Token} {a b c : List Token}
    (hopening : opening.kind = .leftParen) (hx : P x a) (h₁ : m₁.kind = .comma) (hy : P y b)
    (h₂ : m₂.kind = .comma) (hz : P z c) (hclosing : closing.kind = .rightParen) :
    Enclosed P [x, y, z] (opening :: (a ++ m₁ :: (b ++ m₂ :: (c ++ [closing])))) := by
  have hall := Enclosed.items hopening hx (.cons h₁ hy (.cons h₂ hz .nil)) hclosing
  simpa only [List.append_nil, List.cons_append, List.append_assoc] using hall

theorem Enclosed.five {α : Type} {P : α → List Token → Prop} {x y z v w : α}
    {opening m₁ m₂ m₃ m₄ closing : Token} {a b c d e : List Token}
    (hopening : opening.kind = .leftParen) (hx : P x a) (h₁ : m₁.kind = .comma) (hy : P y b)
    (h₂ : m₂.kind = .comma) (hz : P z c) (h₃ : m₃.kind = .comma) (hv : P v d)
    (h₄ : m₄.kind = .comma) (hw : P w e) (hclosing : closing.kind = .rightParen) :
    Enclosed P [x, y, z, v, w] (opening :: (a ++ m₁ :: (b ++ m₂ :: (c ++ m₃ :: (d ++
      m₄ :: (e ++ [closing])))))) := by
  have hall := Enclosed.items hopening hx
    (.cons h₁ hy (.cons h₂ hz (.cons h₃ hv (.cons h₄ hw .nil)))) hclosing
  simpa only [List.append_nil, List.cons_append, List.append_assoc] using hall

theorem Enclosed.exists_three {α : Type} {P : α → List Token → Prop} {x y z : α}
    {tokens : List Token} (hall : Enclosed P [x, y, z] tokens) :
    ∃ opening a m₁ b m₂ c closing,
      tokens = opening :: (a ++ m₁ :: (b ++ m₂ :: (c ++ [closing]))) ∧
      opening.kind = .leftParen ∧ P x a ∧ m₁.kind = .comma ∧ P y b ∧ m₂.kind = .comma ∧
      P z c ∧ closing.kind = .rightParen := by
  obtain _ | ⟨hopening, hx, _ | ⟨h₁, hy, _ | ⟨h₂, hz, _ | _⟩⟩, hclosing⟩ := hall
  exact ⟨_, _, _, _, _, _, _, by simp, hopening, hx, h₁, hy, h₂, hz, hclosing⟩

theorem Enclosed.exists_five {α : Type} {P : α → List Token → Prop} {x y z v w : α}
    {tokens : List Token} (hall : Enclosed P [x, y, z, v, w] tokens) :
    ∃ opening a m₁ b m₂ c m₃ d m₄ e closing,
      tokens = opening :: (a ++ m₁ :: (b ++ m₂ :: (c ++ m₃ :: (d ++ m₄ :: (e ++
        [closing]))))) ∧
      opening.kind = .leftParen ∧ P x a ∧ m₁.kind = .comma ∧ P y b ∧ m₂.kind = .comma ∧
      P z c ∧ m₃.kind = .comma ∧ P v d ∧ m₄.kind = .comma ∧ P w e ∧
      closing.kind = .rightParen := by
  obtain _ | ⟨hopening, hx, _ | ⟨h₁, hy, _ | ⟨h₂, hz, _ | ⟨h₃, hv, _ | ⟨h₄, hw, _ | _⟩⟩⟩⟩,
    hclosing⟩ := hall
  exact ⟨_, _, _, _, _, _, _, _, _, _, _, by simp, hopening, hx, h₁, hy, h₂, hz, h₃, hv, h₄,
    hw, hclosing⟩

theorem SpellsMore.concat {body : List Statement} {tokens : List Token}
    (hmore : SpellsMore body tokens) {mark : Token} (hmark : mark.kind = .semicolon)
    {statement : Statement} {last : List Token} (hlast : SpellsStatement statement last) :
    SpellsMore (body.concat statement) (tokens ++ mark :: last) := by
  induction body generalizing tokens with
  | nil =>
      cases hmore
      have hone := SpellsMore.cons hmark hlast SpellsMore.nil
      rwa [List.append_nil] at hone
  | cons first rest ih =>
      cases hmore with
      | cons hfound hfirst hmore =>
          rw [List.cons_append, List.append_assoc]
          exact .cons hfound hfirst (ih hmore)

theorem Spells.concat {routines : List Routine} {tokens : List Token}
    (hspells : Spells routines tokens) {routine : Routine} {last : List Token}
    (hlast : SpellsRoutine routine last) :
    Spells (routines.concat routine) (tokens ++ last) := by
  induction hspells with
  | nil =>
      have hone := Spells.cons hlast Spells.nil
      rwa [List.append_nil] at hone
  | cons hfirst _ ih =>
      rw [List.append_assoc]
      exact .cons hfirst ih

/-! ### What lexemes stand for -/

theorem IsQuotable.quotes {raw : List Char} (hraw : IsQuotable raw) :
    Quotes raw (resolveEscapes raw) := by
  induction hraw with
  | nil => exact .nil
  | @plain c raw hquote hslash hline hrest ih =>
      rw [resolveEscapes.eq_2 c raw (by rintro d rest rfl; contradiction)]
      exact .plain hquote hslash hline ih
  | @escape c raw hline hrest ih =>
      rw [resolveEscapes, if_neg hline]
      exact .escape hline ih

theorem Quotes.resolveEscapes_eq {raw content : List Char} (hquotes : Quotes raw content) :
    resolveEscapes raw = content := by
  induction hquotes with
  | nil => rfl
  | @plain c raw content hquote hslash hline hrest ih =>
      rw [resolveEscapes.eq_2 c raw (by rintro d rest rfl; contradiction), ih]
  | escape hline hrest ih => rw [resolveEscapes, if_neg hline, ih]

theorem unquote_eq {text : String} {raw : List Char}
    (htext : text.toList = '"' :: (raw ++ ['"'])) :
    unquote text = String.ofList (resolveEscapes raw) := by
  simp [unquote, htext]

theorem scopeOf?_of_mem_scopes {word scope : String} (hscope : (word, scope) ∈ scopes) :
    scopeOf? word = some scope := by
  simp only [scopes, List.mem_cons, Prod.mk.injEq, List.not_mem_nil, or_false] at hscope
  rcases hscope with ⟨rfl, rfl⟩ | ⟨rfl, rfl⟩ | ⟨rfl, rfl⟩ <;> rfl

theorem exists_mem_scopes {word : String} (hword : word ∈ scopeWords) :
    ∃ scope, (word, scope) ∈ scopes := by
  simp only [scopeWords, List.mem_cons, List.not_mem_nil, or_false] at hword
  rcases hword with rfl | rfl | rfl
  · exact ⟨"local", by decide⟩
  · exact ⟨"unsaved", by decide⟩
  · exact ⟨"saved", by decide⟩

/-- The scope that a scope lexeme gives to a variable. -/
theorem scopeOf?_dropLast {text word scope : String} (htext : text = word ++ ":")
    (hscope : (word, scope) ∈ scopes) :
    (scopeOf? (String.ofList text.toList.dropLast)).getD defaultScope = scope := by
  have hdrop : text.toList.dropLast = word.toList := by
    rw [htext, String.toList_append]
    exact List.dropLast_concat
  rw [hdrop, String.ofList_toList, scopeOf?_of_mem_scopes hscope]
  rfl

theorem spellsReference_scoped {mark name : Token} (hmark : mark.kind = .scopePrefix)
    (hscope : IsScope mark.text.toList) (hname : name.kind = .ident) :
    SpellsReference (.reference name.text
      ((scopeOf? (String.ofList mark.text.toList.dropLast)).getD defaultScope))
      [mark, name] := by
  obtain ⟨word, hword, htext⟩ := hscope
  have htext : mark.text = word ++ ":" := by
    rw [← String.toList_inj, htext, String.toList_append]
    rfl
  obtain ⟨scope, hscope⟩ := exists_mem_scopes hword
  rw [scopeOf?_dropLast htext hscope]
  exact .withScope hmark htext hscope hname

theorem spellsValue_text {literal : Token} (hkind : literal.kind = .text)
    (hliteral : IsLiteral literal.text.toList) :
    SpellsValue (.text (unquote literal.text)) [literal] := by
  generalize htext : literal.text.toList = cs at hliteral
  obtain @⟨raw, hraw⟩ := hliteral
  refine .text hkind htext ?_
  rw [unquote_eq htext, String.toList_ofList]
  exact hraw.quotes

theorem spellsCoordinate_numeral {literal : Token} (hkind : literal.kind = .number)
    (hnumeral : IsNumeral literal.text.toList) :
    SpellsCoordinate ((Double.read? literal.text).getD .nan) [literal] := by
  obtain ⟨x, hread⟩ := hnumeral.read?_eq_some
  refine .numeral hkind ?_
  rw [hread]
  rfl

/-! ### Derivations spell -/

/-- What spells the meaning of a rule. -/
def Rule.Spelled : (r : Rule) → r.Meaning → List Token → Prop
  | .program | .routines => Spells
  | .routine | .eventDef | .processDef | .functionDef => SpellsRoutine
  | .block => SpellsBlock
  | .statements => SpellsMore
  | .statement | .action | .assignment | .playerCondition | .condition | .variableCondition
  | .otherwise | .selection | .functionCall | .processCall => SpellsStatement
  | .steps => Trail .arrow SpellsStep
  | .step => SpellsStep
  | .arguments => Enclosed SpellsValue
  | .values => Trail .comma SpellsValue
  | .value => SpellsValue
  | .reference => SpellsReference
  | .coordinate => SpellsCoordinate

def AllSpelled : (xs : List Production.Sym) → Lr.Meanings Token Rule.Meaning xs →
    List Token → Prop
  | [], _, tokens => tokens = []
  | .terminal t :: xs, (token, meanings), tokens =>
      ∃ rest, tokens = token :: rest ∧ token.kind = t ∧ AllSpelled xs meanings rest
  | .rule r :: xs, (meaning, meanings), tokens =>
      ∃ first rest, tokens = first ++ rest ∧ r.Spelled meaning first ∧
        AllSpelled xs meanings rest

/-- The meaning of a production is spelled by what spells its parts. -/
theorem spelled_production (p : Production)
    (meanings : Lr.Meanings Token Rule.Meaning p.rhs) {tokens : List Token}
    (hlexical : Lexical tokens) (hspelled : AllSpelled p.rhs meanings tokens) :
    p.lhs.Spelled (interpret p meanings) tokens := by
  cases p with
  | program | eventRoutine | processRoutine | functionRoutine | actionStatement
  | assignmentStatement | playerConditionStatement | conditionStatement
  | variableConditionStatement | otherwiseStatement | selectionStatement
  | functionCallStatement | processCallStatement =>
      obtain ⟨meaning, _⟩ := meanings
      obtain ⟨first, _, rfl, hfirst, rfl⟩ := hspelled
      rwa [List.append_nil]
  | emptyProgram =>
      cases hspelled
      exact Spells.nil
  | firstRoutine =>
      obtain ⟨routine, _⟩ := meanings
      obtain ⟨first, _, rfl, hfirst, rfl⟩ := hspelled
      exact Spells.cons hfirst .nil
  | nextRoutine =>
      obtain ⟨routines, routine, _⟩ := meanings
      obtain ⟨before, _, rfl, hbefore, last, _, rfl, hlast, rfl⟩ := hspelled
      rw [List.append_nil]
      exact hbefore.concat hlast
  | eventDef =>
      obtain ⟨word, player, dot, name, body, _⟩ := meanings
      obtain ⟨_, rfl, hword, _, rfl, hplayer, _, rfl, hdot, _, rfl, hname, block, _, rfl,
        hbody, rfl⟩ := hspelled
      rw [List.append_nil]
      exact SpellsRoutine.event hword hplayer hdot hname hbody
  | processDef =>
      obtain ⟨word, name, opening, closing, body, _⟩ := meanings
      obtain ⟨_, rfl, hword, _, rfl, hname, _, rfl, hopening, _, rfl, hclosing, block, _, rfl,
        hbody, rfl⟩ := hspelled
      rw [List.append_nil]
      exact SpellsRoutine.process hword hname hopening hclosing hbody
  | functionDef =>
      obtain ⟨word, name, opening, closing, body, _⟩ := meanings
      obtain ⟨_, rfl, hword, _, rfl, hname, _, rfl, hopening, _, rfl, hclosing, block, _, rfl,
        hbody, rfl⟩ := hspelled
      rw [List.append_nil]
      exact SpellsRoutine.function hword hname hopening hclosing hbody
  | emptyBlock =>
      obtain ⟨opening, closing, _⟩ := meanings
      obtain ⟨_, rfl, hopening, _, rfl, hclosing, rfl⟩ := hspelled
      exact SpellsBlock.nothing hopening hclosing
  | block =>
      obtain ⟨opening, statement, rest, closing, _⟩ := meanings
      obtain ⟨_, rfl, hopening, first, _, rfl, hfirst, more, _, rfl, hmore, _, rfl, hclosing,
        rfl⟩ := hspelled
      exact SpellsBlock.statements hopening hfirst hmore .absent hclosing
  | blockOfOne =>
      obtain ⟨opening, statement, closing, _⟩ := meanings
      obtain ⟨_, rfl, hopening, first, _, rfl, hfirst, _, rfl, hclosing, rfl⟩ := hspelled
      exact SpellsBlock.statements hopening hfirst .nil .absent hclosing
  | blockEnded =>
      obtain ⟨opening, statement, rest, mark, closing, _⟩ := meanings
      obtain ⟨_, rfl, hopening, first, _, rfl, hfirst, more, _, rfl, hmore, _, rfl, hmark, _,
        rfl, hclosing, rfl⟩ := hspelled
      exact SpellsBlock.statements hopening hfirst hmore (.present hmark) hclosing
  | blockOfOneEnded =>
      obtain ⟨opening, statement, mark, closing, _⟩ := meanings
      obtain ⟨_, rfl, hopening, first, _, rfl, hfirst, _, rfl, hmark, _, rfl, hclosing, rfl⟩ :=
        hspelled
      exact SpellsBlock.statements hopening hfirst .nil (.present hmark) hclosing
  | firstMore =>
      obtain ⟨mark, statement, _⟩ := meanings
      obtain ⟨_, rfl, hmark, first, _, rfl, hfirst, rfl⟩ := hspelled
      exact SpellsMore.cons hmark hfirst .nil
  | nextMore =>
      obtain ⟨before, mark, statement, _⟩ := meanings
      obtain ⟨more, _, rfl, hmore, _, rfl, hmark, last, _, rfl, hlast, rfl⟩ := hspelled
      rw [List.append_nil]
      exact hmore.concat hmark hlast
  | playerAction | entityAction | plotAction =>
      obtain ⟨word, dot, name, arguments, _⟩ := meanings
      obtain ⟨_, rfl, hword, _, rfl, hdot, _, rfl, hname, tokens, _, rfl, harguments, rfl⟩ :=
        hspelled
      rw [List.append_nil]
      exact SpellsStatement.action (by constructor; exact hword) hdot hname harguments
  | assignment =>
      obtain ⟨word, target, operator, verb, arguments, _⟩ := meanings
      obtain ⟨_, rfl, hword, referred, _, rfl, htarget, _, rfl, hoperator, _, rfl, hverb,
        tokens, _, rfl, harguments, rfl⟩ := hspelled
      rw [List.append_nil]
      exact SpellsStatement.assignment hword htarget hoperator hverb harguments
  | negatedPlayerConditionOn =>
      obtain ⟨mark, negation, word, dot, name, arguments, body, _⟩ := meanings
      obtain ⟨_, rfl, hmark, _, rfl, hnegation, _, rfl, hword, _, rfl, hdot, _, rfl, hname,
        tokens, _, rfl, harguments, block, _, rfl, hbody, rfl⟩ := hspelled
      rw [List.append_nil]
      exact SpellsStatement.condition hmark (.present hnegation) (.player hword) hdot hname
        (.present harguments) hbody
  | negatedPlayerCondition =>
      obtain ⟨mark, negation, word, dot, name, body, _⟩ := meanings
      obtain ⟨_, rfl, hmark, _, rfl, hnegation, _, rfl, hword, _, rfl, hdot, _, rfl, hname,
        block, _, rfl, hbody, rfl⟩ := hspelled
      rw [List.append_nil]
      exact SpellsStatement.condition hmark (.present hnegation) (.player hword) hdot hname
        .absent hbody
  | playerConditionOn | entityConditionOn | plotConditionOn =>
      obtain ⟨mark, word, dot, name, arguments, body, _⟩ := meanings
      obtain ⟨_, rfl, hmark, _, rfl, hword, _, rfl, hdot, _, rfl, hname, tokens, _, rfl,
        harguments, block, _, rfl, hbody, rfl⟩ := hspelled
      rw [List.append_nil]
      exact SpellsStatement.condition hmark (.absent _) (by constructor; exact hword) hdot
        hname (.present harguments) hbody
  | playerCondition | entityCondition | plotCondition =>
      obtain ⟨mark, word, dot, name, body, _⟩ := meanings
      obtain ⟨_, rfl, hmark, _, rfl, hword, _, rfl, hdot, _, rfl, hname, block, _, rfl, hbody,
        rfl⟩ := hspelled
      rw [List.append_nil]
      exact SpellsStatement.condition hmark (.absent _) (by constructor; exact hword) hdot
        hname .absent hbody
  | variableCondition =>
      obtain ⟨mark, word, target, operator, name, arguments, body, _⟩ := meanings
      obtain ⟨_, rfl, hmark, _, rfl, hword, referred, _, rfl, htarget, _, rfl, hoperator, _,
        rfl, hname, tokens, _, rfl, harguments, block, _, rfl, hbody, rfl⟩ := hspelled
      rw [List.append_nil]
      exact SpellsStatement.variableCondition hmark hword htarget hoperator hname harguments
        hbody
  | otherwise =>
      obtain ⟨word, body, _⟩ := meanings
      obtain ⟨_, rfl, hword, block, _, rfl, hbody, rfl⟩ := hspelled
      rw [List.append_nil]
      exact SpellsStatement.otherwise hword hbody
  | selectionOfMany =>
      obtain ⟨word, step, steps, body, _⟩ := meanings
      obtain ⟨_, rfl, hword, first, _, rfl, hfirst, more, _, rfl, hmore, block, _, rfl, hbody,
        rfl⟩ := hspelled
      rw [List.append_nil]
      exact SpellsStatement.selection hword hfirst hmore hbody
  | selectionOfOne =>
      obtain ⟨word, step, body, _⟩ := meanings
      obtain ⟨_, rfl, hword, first, _, rfl, hfirst, block, _, rfl, hbody, rfl⟩ := hspelled
      rw [List.append_nil]
      exact SpellsStatement.selection hword hfirst .nil hbody
  | firstStep | firstValue =>
      obtain ⟨mark, item, _⟩ := meanings
      obtain ⟨_, rfl, hmark, first, _, rfl, hfirst, rfl⟩ := hspelled
      exact Trail.cons hmark hfirst .nil
  | nextStep | nextValue =>
      obtain ⟨before, mark, item, _⟩ := meanings
      obtain ⟨more, _, rfl, hmore, _, rfl, hmark, last, _, rfl, hlast, rfl⟩ := hspelled
      rw [List.append_nil]
      exact Trail.concat hmore hmark hlast
  | step =>
      obtain ⟨action, mark, subAction, arguments, _⟩ := meanings
      obtain ⟨_, rfl, haction, _, rfl, hmark, _, rfl, hsubAction, tokens, _, rfl, harguments,
        rfl⟩ := hspelled
      rw [List.append_nil]
      exact SpellsStep.step haction hmark hsubAction harguments
  | functionCall | processCall =>
      obtain ⟨word, name, opening, closing, _⟩ := meanings
      obtain ⟨_, rfl, hword, _, rfl, hname, _, rfl, hopening, _, rfl, hclosing, rfl⟩ :=
        hspelled
      exact SpellsStatement.call hword hname hopening hclosing
  | noArguments =>
      obtain ⟨opening, closing, _⟩ := meanings
      obtain ⟨_, rfl, hopening, _, rfl, hclosing, rfl⟩ := hspelled
      exact Enclosed.nothing hopening hclosing
  | arguments =>
      obtain ⟨opening, value, values, closing, _⟩ := meanings
      obtain ⟨_, rfl, hopening, first, _, rfl, hfirst, more, _, rfl, hmore, _, rfl, hclosing,
        rfl⟩ := hspelled
      exact Enclosed.items hopening hfirst hmore hclosing
  | oneArgument =>
      obtain ⟨opening, value, closing, _⟩ := meanings
      obtain ⟨_, rfl, hopening, first, _, rfl, hfirst, _, rfl, hclosing, rfl⟩ := hspelled
      exact Enclosed.items hopening hfirst .nil hclosing
  | text =>
      obtain ⟨literal, _⟩ := meanings
      obtain ⟨_, rfl, hkind, rfl⟩ := hspelled
      exact spellsValue_text hkind (hlexical.head hkind)
  | number =>
      obtain ⟨literal, _⟩ := meanings
      obtain ⟨_, rfl, hkind, rfl⟩ := hspelled
      exact SpellsValue.number hkind
  | reference =>
      obtain ⟨value, _⟩ := meanings
      obtain ⟨tokens, _, rfl, href, rfl⟩ := hspelled
      rw [List.append_nil]
      exact SpellsValue.reference href
  | bareVariable =>
      obtain ⟨name, _⟩ := meanings
      obtain ⟨_, rfl, hname, rfl⟩ := hspelled
      exact SpellsReference.bare hname
  | scopedVariable =>
      obtain ⟨mark, name, _⟩ := meanings
      obtain ⟨_, rfl, hmark, _, rfl, hname, rfl⟩ := hspelled
      exact spellsReference_scoped hmark (hlexical.head hmark) hname
  | coordinate =>
      obtain ⟨literal, _⟩ := meanings
      obtain ⟨_, rfl, hkind, rfl⟩ := hspelled
      exact spellsCoordinate_numeral hkind (hlexical.head hkind)
  | location =>
      obtain ⟨word, opening, x, m₁, y, m₂, z, closing, _⟩ := meanings
      obtain ⟨_, rfl, hword, _, rfl, hopening, a, _, rfl, hx, _, rfl, h₁, b, _, rfl, hy, _,
        rfl, h₂, c, _, rfl, hz, _, rfl, hclosing, rfl⟩ := hspelled
      exact SpellsValue.location hword (.three hopening hx h₁ hy h₂ hz hclosing)
  | vector =>
      obtain ⟨word, opening, x, m₁, y, m₂, z, closing, _⟩ := meanings
      obtain ⟨_, rfl, hword, _, rfl, hopening, a, _, rfl, hx, _, rfl, h₁, b, _, rfl, hy, _,
        rfl, h₂, c, _, rfl, hz, _, rfl, hclosing, rfl⟩ := hspelled
      exact SpellsValue.vector hword (.three hopening hx h₁ hy h₂ hz hclosing)
  | facingLocation =>
      obtain ⟨word, opening, x, m₁, y, m₂, z, m₃, pitch, m₄, yaw, closing, _⟩ := meanings
      obtain ⟨_, rfl, hword, _, rfl, hopening, a, _, rfl, hx, _, rfl, h₁, b, _, rfl, hy, _,
        rfl, h₂, c, _, rfl, hz, _, rfl, h₃, d, _, rfl, hpitch, _, rfl, h₄, e, _, rfl, hyaw, _,
        rfl, hclosing, rfl⟩ := hspelled
      exact SpellsValue.facing hword
        (.five hopening hx h₁ hy h₂ hz h₃ hpitch h₄ hyaw hclosing)

def SymbolSpelled : (x : Production.Sym) → Lr.Carrier Token Rule.Meaning x → List Token →
    Prop
  | .terminal t, token, tokens => token.kind = t ∧ tokens = [token]
  | .rule r, meaning, tokens => r.Spelled meaning tokens

theorem AllSpelled.cons {x : Production.Sym} {xs : List Production.Sym}
    {meaning : Lr.Carrier Token Rule.Meaning x} {meanings : Lr.Meanings Token Rule.Meaning xs}
    {first rest : List Token} (hfirst : SymbolSpelled x meaning first)
    (hrest : AllSpelled xs meanings rest) :
    AllSpelled (x :: xs) (meaning, meanings) (first ++ rest) := by
  cases x with
  | terminal t =>
      obtain ⟨hkind, rfl⟩ := hfirst
      exact ⟨rest, rfl, hkind, hrest⟩
  | rule r => exact ⟨first, rest, rfl, hfirst, hrest⟩

mutual

/-- What a symbol derives spells the meaning that the derivation gives to it. -/
theorem derives_spelled {x : Production.Sym}
    {meaning : Lr.Carrier attribution.Token attribution.Meaning x} {tokens : List Token} :
    Lr.Derives attribution x meaning tokens → Lexical tokens →
      SymbolSpelled x meaning tokens
  | .token _, _ => ⟨rfl, rfl⟩
  | .production p _ parts, hlexical =>
      spelled_production p _ hlexical (derivesAll_spelled parts hlexical)

theorem derivesAll_spelled {xs : List Production.Sym}
    {meanings : Lr.Meanings attribution.Token attribution.Meaning xs} {tokens : List Token} :
    Lr.DerivesAll attribution xs meanings tokens → Lexical tokens →
      AllSpelled xs meanings tokens
  | .nil, _ => rfl
  | .cons head tail, hlexical =>
      .cons (derives_spelled head hlexical.append_left)
        (derivesAll_spelled tail hlexical.append_right)

end

/-! ### Spellings derive -/

/-- A rule derives tokens with a meaning. -/
def Derived (r : Rule) (meaning : r.Meaning) (tokens : List Token) : Prop :=
  Lr.Derives attribution (.rule r) meaning tokens

theorem derived_of (p : Production) {meanings : Lr.Meanings Token Rule.Meaning p.rhs}
    {tokens : List Token} (hparts : Lr.DerivesAll attribution p.rhs meanings tokens) :
    Derived p.lhs (interpret p meanings) tokens :=
  .production p (mem_productions p) hparts

/-- A trail is built from its beginning, as repetitions are derived. -/
theorem Trail.build {α : Type} {separator : Terminal} {P : α → List Token → Prop}
    {D : List α → List Token → Prop}
    (hnext : ∀ {xs x before last} {mark : Token}, D xs before → mark.kind = separator →
      P x last → D (xs.concat x) (before ++ mark :: last))
    {before rest : List α} {tokens more : List Token} (hbefore : D before tokens)
    (htrail : Trail separator P rest more) : D (before ++ rest) (tokens ++ more) := by
  induction htrail generalizing before tokens with
  | nil =>
      rw [List.append_nil, List.append_nil]
      exact hbefore
  | @cons x xs mark first more hmark hfirst _ ih =>
      have hall := ih (hnext hbefore hmark hfirst)
      rwa [List.concat_eq_append, List.append_assoc, List.append_assoc] at hall

theorem SpellsReference.derived {value : Value} {tokens : List Token}
    (hspells : SpellsReference value tokens) : Derived .reference value tokens := by
  cases hspells with
  | bare hname => exact derived_of .bareVariable (.token hname .nil)
  | @withScope mark name word scope hmark hword hscope hname =>
      have hderived : Derived .reference (.reference name.text
          ((scopeOf? (String.ofList mark.text.toList.dropLast)).getD defaultScope))
          [mark, name] :=
        (derived_of .scopedVariable (.token hmark (.token hname .nil)) :)
      rwa [scopeOf?_dropLast hword hscope] at hderived

theorem SpellsCoordinate.derived {x : Double} {tokens : List Token}
    (hspells : SpellsCoordinate x tokens) : Derived .coordinate x tokens := by
  cases hspells with
  | @numeral literal hkind hread =>
      have hderived : Derived .coordinate ((Double.read? literal.text).getD .nan) [literal] :=
        (derived_of .coordinate (.token hkind .nil) :)
      rwa [hread] at hderived

theorem SpellsValue.derived {value : Value} {tokens : List Token}
    (hspells : SpellsValue value tokens) : Derived .value value tokens := by
  cases hspells with
  | @text literal raw content hkind htext hquotes =>
      have hderived : Derived .value (.text (unquote literal.text)) [literal] :=
        (derived_of .text (.token hkind .nil) :)
      rwa [unquote_eq htext, hquotes.resolveEscapes_eq, String.ofList_toList] at hderived
  | number hkind => exact derived_of .number (.token hkind .nil)
  | reference href => exact derived_of .reference (.last href.derived)
  | location hword hall =>
      obtain ⟨opening, a, m₁, b, m₂, c, closing, rfl, hopening, hx, h₁, hy, h₂, hz, hclosing⟩ :=
        hall.exists_three
      exact derived_of .location (.token hword (.token hopening (.cons hx.derived
        (.token h₁ (.cons hy.derived (.token h₂ (.cons hz.derived
          (.token hclosing .nil))))))))
  | facing hword hall =>
      obtain ⟨opening, a, m₁, b, m₂, c, m₃, d, m₄, e, closing, rfl, hopening, hx, h₁, hy, h₂,
        hz, h₃, hv, h₄, hw, hclosing⟩ := hall.exists_five
      exact derived_of .facingLocation (.token hword (.token hopening (.cons hx.derived
        (.token h₁ (.cons hy.derived (.token h₂ (.cons hz.derived (.token h₃
          (.cons hv.derived (.token h₄ (.cons hw.derived (.token hclosing .nil))))))))))))
  | vector hword hall =>
      obtain ⟨opening, a, m₁, b, m₂, c, closing, rfl, hopening, hx, h₁, hy, h₂, hz, hclosing⟩ :=
        hall.exists_three
      exact derived_of .vector (.token hword (.token hopening (.cons hx.derived
        (.token h₁ (.cons hy.derived (.token h₂ (.cons hz.derived
          (.token hclosing .nil))))))))

theorem Enclosed.derived {arguments : List Value} {tokens : List Token}
    (hall : Enclosed SpellsValue arguments tokens) : Derived .arguments arguments tokens := by
  cases hall with
  | nothing hopening hclosing =>
      exact derived_of .noArguments (.token hopening (.token hclosing .nil))
  | items hopening hfirst hmore hclosing =>
      cases hmore with
      | nil =>
          exact derived_of .oneArgument
            (.token hopening (.cons hfirst.derived (.token hclosing .nil)))
      | @cons x xs mark second rest hmark hsecond hrest =>
          have hvalues : Derived .values ([x] ++ xs) (mark :: second ++ rest) :=
            Trail.build (D := Derived .values)
              (fun hbefore hmark hlast => derived_of .nextValue
                (.cons hbefore (.token hmark (.last hlast.derived))))
              (derived_of .firstValue (.token hmark (.last hsecond.derived))) hrest
          exact derived_of .arguments
            (.token hopening (.cons hfirst.derived (.cons hvalues (.token hclosing .nil))))

theorem SpellsStep.derived {step : Step} {tokens : List Token}
    (hspells : SpellsStep step tokens) : Derived .step step tokens := by
  cases hspells with
  | step haction hmark hsubAction harguments =>
      exact derived_of .step (.token haction (.token hmark (.token hsubAction
        (.last harguments.derived))))

theorem derived_selection {step : Step} {steps : List Step}
    {body : List Statement} {word : Token} {first more block : List Token}
    (hword : word.kind = .select) (hfirst : SpellsStep step first)
    (hmore : Trail .arrow SpellsStep steps more) (hbody : Derived .block body block) :
    Derived .statement (.selection (step :: steps) body) (word :: (first ++ (more ++ block))) := by
  refine derived_of .selectionStatement (.last ?_)
  cases hmore with
  | nil => exact derived_of .selectionOfOne (.token hword (.cons hfirst.derived (.last hbody)))
  | @cons x xs mark second rest hmark hsecond hrest =>
      have hsteps : Derived .steps ([x] ++ xs) (mark :: second ++ rest) :=
        Trail.build (D := Derived .steps)
          (fun hbefore hmark hlast => derived_of .nextStep
            (.cons hbefore (.token hmark (.last hlast.derived))))
          (derived_of .firstStep (.token hmark (.last hsecond.derived))) hrest
      exact derived_of .selectionOfMany
        (.token hword (.cons hfirst.derived (.cons hsteps (.last hbody))))

theorem derived_action {subject : Subject} {arguments : List Value} {word dot name : Token}
    {tokens : List Token} (hsubject : SpellsSubject subject word) (hdot : dot.kind = .dot)
    (hname : name.kind = .ident) (harguments : Enclosed SpellsValue arguments tokens) :
    Derived .statement (.action subject name.text arguments)
      (word :: dot :: name :: tokens) := by
  refine derived_of .actionStatement (.last ?_)
  cases hsubject with
  | player hword =>
      exact derived_of .playerAction
        (.token hword (.token hdot (.token hname (.last harguments.derived))))
  | entity hword =>
      exact derived_of .entityAction
        (.token hword (.token hdot (.token hname (.last harguments.derived))))
  | plot hword =>
      exact derived_of .plotAction
        (.token hword (.token hdot (.token hname (.last harguments.derived))))

theorem derived_condition {subject : Subject} {arguments : List Value}
    {body : List Statement} {negated : Bool} {mark word dot name : Token}
    {negation tokens block : List Token} (hmark : mark.kind = .if_)
    (hnegation : SpellsNegation subject negated negation)
    (hsubject : SpellsSubject subject word) (hdot : dot.kind = .dot)
    (hname : name.kind = .ident) (harguments : SpellsOptional arguments tokens)
    (hbody : Derived .block body block) :
    Derived .statement (.condition subject name.text arguments body negated)
      (mark :: (negation ++ word :: dot :: name :: (tokens ++ block))) := by
  cases hnegation with
  | present hnot =>
      refine derived_of .playerConditionStatement (.last ?_)
      cases hsubject with
      | player hword =>
          cases harguments with
          | absent =>
              exact derived_of .negatedPlayerCondition (.token hmark (.token hnot
                (.token hword (.token hdot (.token hname (.last hbody))))))
          | present harguments =>
              exact derived_of .negatedPlayerConditionOn (.token hmark (.token hnot
                (.token hword (.token hdot (.token hname
                  (.cons harguments.derived (.last hbody)))))))
  | absent =>
      -- Conditions on players have a rule of their own.
      cases hsubject with
      | player hword =>
          refine derived_of .playerConditionStatement (.last ?_)
          cases harguments with
          | absent =>
              exact derived_of .playerCondition
                (.token hmark (.token hword (.token hdot (.token hname (.last hbody)))))
          | present harguments =>
              exact derived_of .playerConditionOn (.token hmark (.token hword
                (.token hdot (.token hname (.cons harguments.derived (.last hbody))))))
      | entity hword =>
          refine derived_of .conditionStatement (.last ?_)
          cases harguments with
          | absent =>
              exact derived_of .entityCondition
                (.token hmark (.token hword (.token hdot (.token hname (.last hbody)))))
          | present harguments =>
              exact derived_of .entityConditionOn (.token hmark (.token hword
                (.token hdot (.token hname (.cons harguments.derived (.last hbody))))))
      | plot hword =>
          refine derived_of .conditionStatement (.last ?_)
          cases harguments with
          | absent =>
              exact derived_of .plotCondition
                (.token hmark (.token hword (.token hdot (.token hname (.last hbody)))))
          | present harguments =>
              exact derived_of .plotConditionOn (.token hmark (.token hword
                (.token hdot (.token hname (.cons harguments.derived (.last hbody))))))

theorem derived_call {process : Bool} {word name opening closing : Token}
    (hword : word.kind = if process then .start else .call) (hname : name.kind = .ident)
    (hopening : opening.kind = .leftParen) (hclosing : closing.kind = .rightParen) :
    Derived .statement (.call name.text process) [word, name, opening, closing] := by
  cases process with
  | false =>
      exact derived_of .functionCallStatement (.last (derived_of .functionCall
        (.token hword (.token hname (.token hopening (.token hclosing .nil))))))
  | true =>
      exact derived_of .processCallStatement (.last (derived_of .processCall
        (.token hword (.token hname (.token hopening (.token hclosing .nil))))))

theorem derived_block {statement : Statement} {rest : List Statement}
    {opening closing : Token} {first more ending : List Token}
    (hopening : opening.kind = .leftBrace) (hfirst : Derived .statement statement first)
    (hmore : Trail .semicolon (Derived .statement) rest more)
    (hending : SpellsEnding ending) (hclosing : closing.kind = .rightBrace) :
    Derived .block (statement :: rest)
      (opening :: (first ++ (more ++ (ending ++ [closing])))) := by
  cases hmore with
  | nil =>
      cases hending with
      | absent =>
          exact derived_of .blockOfOne
            (.token hopening (.cons hfirst (.token hclosing .nil)))
      | present hmark =>
          exact derived_of .blockOfOneEnded
            (.token hopening (.cons hfirst (.token hmark (.token hclosing .nil))))
  | @cons x xs mark second tail hmark hsecond htail =>
      have hrest : Derived .statements ([x] ++ xs) (mark :: second ++ tail) :=
        Trail.build (D := Derived .statements)
          (fun hbefore hmark hlast => derived_of .nextMore
            (.cons hbefore (.token hmark (.last hlast))))
          (derived_of .firstMore (.token hmark (.last hsecond))) htail
      cases hending with
      | absent =>
          exact derived_of .block
            (.token hopening (.cons hfirst (.cons hrest (.token hclosing .nil))))
      | present hend =>
          exact derived_of .blockEnded (.token hopening
            (.cons hfirst (.cons hrest (.token hend (.token hclosing .nil)))))

mutual

/-- What spells a statement derives it. -/
theorem SpellsStatement.derived {statement : Statement} {tokens : List Token} :
    SpellsStatement statement tokens → Derived .statement statement tokens
  | .action hsubject hdot hname harguments => derived_action hsubject hdot hname harguments
  | .assignment hword htarget hoperator hverb harguments =>
      derived_of .assignmentStatement (.last (derived_of .assignment (.token hword
        (.cons htarget.derived (.token hoperator (.token hverb
          (.last harguments.derived)))))))
  | .condition hmark hnegation hsubject hdot hname harguments hbody =>
      derived_condition hmark hnegation hsubject hdot hname harguments hbody.derived
  | .variableCondition hmark hword htarget hoperator hname harguments hbody =>
      derived_of .variableConditionStatement (.last (derived_of .variableCondition
        (.token hmark (.token hword (.cons htarget.derived (.token hoperator (.token hname
          (.cons harguments.derived (.last hbody.derived)))))))))
  | .otherwise hword hbody =>
      derived_of .otherwiseStatement (.last (derived_of .otherwise
        (.token hword (.last hbody.derived))))
  | .selection hword hfirst hmore hbody => derived_selection hword hfirst hmore hbody.derived
  | .call hword hname hopening hclosing => derived_call hword hname hopening hclosing

theorem SpellsBlock.derived {body : List Statement} {tokens : List Token} :
    SpellsBlock body tokens → Derived .block body tokens
  | .nothing hopening hclosing =>
      derived_of .emptyBlock (.token hopening (.token hclosing .nil))
  | .statements hopening hfirst hmore hending hclosing =>
      derived_block hopening hfirst.derived hmore.derived hending hclosing

theorem SpellsMore.derived {body : List Statement} {tokens : List Token} :
    SpellsMore body tokens → Trail .semicolon (Derived .statement) body tokens
  | .nil => .nil
  | .cons hmark hfirst hmore => .cons hmark hfirst.derived hmore.derived

end

theorem SpellsRoutine.derived {routine : Routine} {tokens : List Token}
    (hspells : SpellsRoutine routine tokens) : Derived .routine routine tokens := by
  cases hspells with
  | event hword hplayer hdot hname hbody =>
      exact derived_of .eventRoutine (.last (derived_of .eventDef (.token hword
        (.token hplayer (.token hdot (.token hname (.last hbody.derived)))))))
  | process hword hname hopening hclosing hbody =>
      exact derived_of .processRoutine (.last (derived_of .processDef (.token hword
        (.token hname (.token hopening (.token hclosing (.last hbody.derived)))))))
  | function hword hname hopening hclosing hbody =>
      exact derived_of .functionRoutine (.last (derived_of .functionDef (.token hword
        (.token hname (.token hopening (.token hclosing (.last hbody.derived)))))))

theorem Spells.derived_routines {before rest : List Routine} {tokens more : List Token}
    (hbefore : Derived .routines before tokens) (hspells : Spells rest more) :
    Derived .routines (before ++ rest) (tokens ++ more) := by
  induction hspells generalizing before tokens with
  | nil =>
      rw [List.append_nil, List.append_nil]
      exact hbefore
  | @cons routine rest first more hfirst _ ih =>
      have hnext : Derived .routines (before.concat routine) (tokens ++ first) :=
        derived_of .nextRoutine (.cons hbefore (.last hfirst.derived))
      have hall := ih hnext
      rwa [List.concat_eq_append, List.append_assoc, List.append_assoc] at hall

theorem Spells.derived {routines : List Routine} {tokens : List Token}
    (hspells : Spells routines tokens) : Derived .program routines tokens := by
  cases hspells with
  | nil => exact derived_of .emptyProgram .nil
  | @cons routine rest first more hfirst hrest =>
      have hone : Derived .routines [routine] first :=
        derived_of .firstRoutine (.last hfirst.derived)
      exact derived_of .program (.last (hrest.derived_routines hone))

/-- Lexemes derive a script exactly when they spell it. -/
theorem derived_program_iff {routines : List Routine} {tokens : List Token}
    (hlexical : Lexical tokens) :
    Derived .program routines tokens ↔ Spells routines tokens :=
  ⟨fun hderived => derives_spelled hderived hlexical, Spells.derived⟩

end Blockscript.Script
