import Blockscript.Proofs.Script.Parsing

/-!
How syntax trees are spelled.  For every kind of tree there is a relation to the
tokens that spell it, by the form of the tree alone: where a trailing semicolon
or empty parentheses are optional, and where a scope is, the same tree has several
spellings.  The tokens that derive a tree are exactly those that spell it.
-/

namespace Blockscript.Script

/-! ### Values -/

/-- The characters between two quotes that stand for a text: a backslash protects
the character behind it, and `n`, `t` and `r` behind one are layout characters. -/
inductive Quotes : List Char → List Char → Prop
  | nil : Quotes [] []
  | plain {c : Char} {raw content : List Char} (hquote : c ≠ '"') (hslash : c ≠ '\\')
      (hline : c ≠ '\n') (hrest : Quotes raw content) : Quotes (c :: raw) (c :: content)
  | escape {c : Char} {raw content : List Char} (hline : c ≠ '\n')
      (hrest : Quotes raw content) : Quotes ('\\' :: c :: raw) (escaped c :: content)

/-- Further items, each behind a separator. -/
inductive Trail {α : Type} (separator : Terminal) (P : α → List Token → Prop) :
    List α → List Token → Prop
  | nil : Trail separator P [] []
  | cons {x : α} {xs : List α} {mark : Token} {first rest : List Token}
      (hmark : mark.kind = separator) (hfirst : P x first)
      (hrest : Trail separator P xs rest) :
      Trail separator P (x :: xs) (mark :: (first ++ rest))

/-- Items in parentheses, with commas between them. -/
inductive Enclosed {α : Type} (P : α → List Token → Prop) : List α → List Token → Prop
  | nothing {opening closing : Token} (hopening : opening.kind = .leftParen)
      (hclosing : closing.kind = .rightParen) : Enclosed P [] [opening, closing]
  | items {x : α} {xs : List α} {opening closing : Token} {first more : List Token}
      (hopening : opening.kind = .leftParen) (hfirst : P x first)
      (hmore : Trail .comma P xs more) (hclosing : closing.kind = .rightParen) :
      Enclosed P (x :: xs) (opening :: (first ++ (more ++ [closing])))

/-- The scopes of variables and the words for them. -/
def scopes : List (String × String) :=
  [("local", "local"), ("game", "unsaved"), ("save", "saved")]

/-- A variable: a name, which may have its scope before it. -/
inductive SpellsReference : Value → List Token → Prop
  | bare {name : Token} (hname : name.kind = .ident) :
      SpellsReference (.reference name.text "unsaved") [name]
  | withScope {mark name : Token} {word scope : String} (hmark : mark.kind = .scopePrefix)
      (hword : mark.text = word ++ ":") (hscope : (word, scope) ∈ scopes)
      (hname : name.kind = .ident) :
      SpellsReference (.reference name.text scope) [mark, name]

/-- A coordinate: a numeral of its value. -/
inductive SpellsCoordinate : Double → List Token → Prop
  | numeral {x : Double} {literal : Token} (hkind : literal.kind = .number)
      (hread : Double.read? literal.text = some x) : SpellsCoordinate x [literal]

/-- An argument value.  A location has three coordinates, or five with its
facing. -/
inductive SpellsValue : Value → List Token → Prop
  | text {literal : Token} {raw : List Char} {content : String}
      (hkind : literal.kind = .text) (htext : literal.text.toList = '"' :: (raw ++ ['"']))
      (hquotes : Quotes raw content.toList) : SpellsValue (.text content) [literal]
  | number {literal : Token} (hkind : literal.kind = .number) :
      SpellsValue (.number literal.text) [literal]
  | reference {value : Value} {tokens : List Token} (href : SpellsReference value tokens) :
      SpellsValue value tokens
  | location {word : Token} {tokens : List Token} {x y z : Double}
      (hword : word.kind = .loc) (hall : Enclosed SpellsCoordinate [x, y, z] tokens) :
      SpellsValue (.location x y z (.zero false) (.zero false)) (word :: tokens)
  | facing {word : Token} {tokens : List Token} {x y z pitch yaw : Double}
      (hword : word.kind = .loc)
      (hall : Enclosed SpellsCoordinate [x, y, z, pitch, yaw] tokens) :
      SpellsValue (.location x y z pitch yaw) (word :: tokens)
  | vector {word : Token} {tokens : List Token} {x y z : Double}
      (hword : word.kind = .vec) (hall : Enclosed SpellsCoordinate [x, y, z] tokens) :
      SpellsValue (.vector x y z) (word :: tokens)

/-! ### Statements -/

inductive SpellsSubject : Subject → Token → Prop
  | player {word : Token} (hword : word.kind = .player) : SpellsSubject .player word
  | entity {word : Token} (hword : word.kind = .entity) : SpellsSubject .entity word
  | plot {word : Token} (hword : word.kind = .plot) : SpellsSubject .plot word

/-- The negation of a condition; only conditions on players have one. -/
inductive SpellsNegation : Subject → Bool → List Token → Prop
  | absent (subject : Subject) : SpellsNegation subject false []
  | present {mark : Token} (hmark : mark.kind = .not) : SpellsNegation .player true [mark]

/-- The arguments of a condition, which need no parentheses if there are none. -/
inductive SpellsOptional : List Value → List Token → Prop
  | absent : SpellsOptional [] []
  | present {arguments : List Value} {tokens : List Token}
      (harguments : Enclosed SpellsValue arguments tokens) : SpellsOptional arguments tokens

inductive SpellsStep : Step → List Token → Prop
  | step {action mark subAction : Token} {arguments : List Value} {tokens : List Token}
      (haction : action.kind = .ident) (hmark : mark.kind = .doubleColon)
      (hsubAction : subAction.kind = .ident)
      (harguments : Enclosed SpellsValue arguments tokens) :
      SpellsStep ⟨action.text, subAction.text, arguments⟩
        (action :: mark :: subAction :: tokens)

/-- The semicolon that may stand behind the last statement of a block. -/
inductive SpellsEnding : List Token → Prop
  | absent : SpellsEnding []
  | present {mark : Token} (hmark : mark.kind = .semicolon) : SpellsEnding [mark]

mutual

inductive SpellsStatement : Statement → List Token → Prop
  | action {subject : Subject} {arguments : List Value} {word dot name : Token}
      {tokens : List Token} (hsubject : SpellsSubject subject word) (hdot : dot.kind = .dot)
      (hname : name.kind = .ident) (harguments : Enclosed SpellsValue arguments tokens) :
      SpellsStatement (.action subject name.text arguments) (word :: dot :: name :: tokens)
  | assignment {target : Value} {arguments : List Value} {word operator verb : Token}
      {referred tokens : List Token} (hword : word.kind = .var)
      (htarget : SpellsReference target referred) (hoperator : operator.kind = .operator)
      (hverb : verb.kind = .ident) (harguments : Enclosed SpellsValue arguments tokens) :
      SpellsStatement (.assignment target operator.text verb.text arguments)
        (word :: (referred ++ operator :: verb :: tokens))
  | condition {subject : Subject} {arguments : List Value} {body : List Statement}
      {negated : Bool} {mark word dot name : Token} {negation tokens block : List Token}
      (hmark : mark.kind = .if_) (hnegation : SpellsNegation subject negated negation)
      (hsubject : SpellsSubject subject word) (hdot : dot.kind = .dot)
      (hname : name.kind = .ident) (harguments : SpellsOptional arguments tokens)
      (hbody : SpellsBlock body block) :
      SpellsStatement (.condition subject name.text arguments body negated)
        (mark :: (negation ++ word :: dot :: name :: (tokens ++ block)))
  | variableCondition {target : Value} {arguments : List Value} {body : List Statement}
      {mark word operator name : Token} {referred tokens block : List Token}
      (hmark : mark.kind = .if_) (hword : word.kind = .var)
      (htarget : SpellsReference target referred) (hoperator : operator.kind = .operator)
      (hname : name.kind = .ident) (harguments : Enclosed SpellsValue arguments tokens)
      (hbody : SpellsBlock body block) :
      SpellsStatement (.variableCondition target operator.text name.text arguments body)
        (mark :: word :: (referred ++ operator :: name :: (tokens ++ block)))
  | otherwise {body : List Statement} {word : Token} {block : List Token}
      (hword : word.kind = .else_) (hbody : SpellsBlock body block) :
      SpellsStatement (.otherwise body) (word :: block)
  | selection {step : Step} {steps : List Step} {body : List Statement} {word : Token}
      {first more block : List Token} (hword : word.kind = .select)
      (hfirst : SpellsStep step first) (hmore : Trail .arrow SpellsStep steps more)
      (hbody : SpellsBlock body block) :
      SpellsStatement (.selection (step :: steps) body) (word :: (first ++ (more ++ block)))
  | call {process : Bool} {word name opening closing : Token}
      (hword : word.kind = if process then .start else .call) (hname : name.kind = .ident)
      (hopening : opening.kind = .leftParen) (hclosing : closing.kind = .rightParen) :
      SpellsStatement (.call name.text process) [word, name, opening, closing]

/-- A block of statements, which may end with a semicolon unless it is empty. -/
inductive SpellsBlock : List Statement → List Token → Prop
  | nothing {opening closing : Token} (hopening : opening.kind = .leftBrace)
      (hclosing : closing.kind = .rightBrace) : SpellsBlock [] [opening, closing]
  | statements {statement : Statement} {rest : List Statement} {opening closing : Token}
      {first more ending : List Token} (hopening : opening.kind = .leftBrace)
      (hfirst : SpellsStatement statement first) (hmore : SpellsMore rest more)
      (hending : SpellsEnding ending) (hclosing : closing.kind = .rightBrace) :
      SpellsBlock (statement :: rest)
        (opening :: (first ++ (more ++ (ending ++ [closing]))))

/-- Further statements, each behind a semicolon. -/
inductive SpellsMore : List Statement → List Token → Prop
  | nil : SpellsMore [] []
  | cons {statement : Statement} {rest : List Statement} {mark : Token}
      {first more : List Token} (hmark : mark.kind = .semicolon)
      (hfirst : SpellsStatement statement first) (hmore : SpellsMore rest more) :
      SpellsMore (statement :: rest) (mark :: (first ++ more))

end

/-! ### Scripts -/

/-- A routine, at the place of its name. -/
inductive SpellsRoutine : Routine → List Token → Prop
  | event {body : List Statement} {word player dot name : Token} {block : List Token}
      (hword : word.kind = .event) (hplayer : player.kind = .player) (hdot : dot.kind = .dot)
      (hname : name.kind = .ident) (hbody : SpellsBlock body block) :
      SpellsRoutine ⟨.event, name.text, body, name.place.line, name.place.column⟩
        (word :: player :: dot :: name :: block)
  | process {body : List Statement} {word name opening closing : Token} {block : List Token}
      (hword : word.kind = .proc) (hname : name.kind = .ident)
      (hopening : opening.kind = .leftParen) (hclosing : closing.kind = .rightParen)
      (hbody : SpellsBlock body block) :
      SpellsRoutine ⟨.process, name.text, body, name.place.line, name.place.column⟩
        (word :: name :: opening :: closing :: block)
  | function {body : List Statement} {word name opening closing : Token}
      {block : List Token} (hword : word.kind = .func) (hname : name.kind = .ident)
      (hopening : opening.kind = .leftParen) (hclosing : closing.kind = .rightParen)
      (hbody : SpellsBlock body block) :
      SpellsRoutine ⟨.function, name.text, body, name.place.line, name.place.column⟩
        (word :: name :: opening :: closing :: block)

/-- The routines of a script, one after the other. -/
inductive Spells : List Routine → List Token → Prop
  | nil : Spells [] []
  | cons {routine : Routine} {routines : List Routine} {first rest : List Token}
      (hfirst : SpellsRoutine routine first) (hrest : Spells routines rest) :
      Spells (routine :: routines) (first ++ rest)

end Blockscript.Script
