import Blockscript.Proofs.Script.Writable

/-!
Every writable tree is spelled by some pieces: each lexeme stands behind one
blank, every variable among arguments is written with its scope, and every text is
quoted in the first of its forms.
-/

namespace Blockscript.Script

/-- The lexeme of a terminal that has only one, behind a blank. -/
def Piece.ofKind (kind : Terminal) : Piece :=
  .ofText kind kind.fixedText

/-- Lexemes behind blanks, none of them a name in the place of a value. -/
inductive Composed : List Piece → Prop
  | nil : Composed []
  | plain {kind : Terminal} {text : String} {rest : List Piece}
      (hlexeme : kind.IsLexeme text.toList) (hplain : kind.opensValue = false)
      (hrest : Composed rest) : Composed (.ofText kind text :: rest)
  | opening {kind : Terminal} {text : String} {next : Piece} {rest : List Piece}
      (hlexeme : kind.IsLexeme text.toList) (hnext : next.kind ≠ .ident)
      (hrest : Composed (next :: rest)) : Composed (.ofText kind text :: next :: rest)

theorem Composed.append {first rest : List Piece} (hfirst : Composed first)
    (hrest : Composed rest) : Composed (first ++ rest) := by
  induction hfirst with
  | nil => exact hrest
  | plain hlexeme hplain _ ih => exact .plain hlexeme hplain ih
  | opening hlexeme hnext _ ih => exact .opening hlexeme hnext ih

theorem Composed.cut {pieces : List Piece} (hcomposed : Composed pieces) :
    Cut pieces [] := by
  have hgap : IsLayout [' '] := .blank (by decide) .nil
  have hhead : ∀ pieces, Composed pieces → (written pieces []).head? ≠ some '/' := by
    intro pieces hpieces
    cases hpieces <;> simp [written, Piece.ofText]
  induction hcomposed with
  | nil => exact .nil
  | plain hlexeme _ hrest ih => exact .cons hgap hlexeme (fun _ => hhead _ hrest) ih
  | opening hlexeme _ hrest ih => exact .cons hgap hlexeme (fun _ => hhead _ hrest) ih

theorem Composed.unambiguous {pieces : List Piece} (hcomposed : Composed pieces) :
    pieces.IsChain Unambiguous := by
  induction hcomposed with
  | nil => exact .nil
  | @plain kind text rest _ hplain _ ih =>
      cases rest with
      | nil => exact .singleton _
      | cons next rest =>
          refine .cons_cons (fun hopens => ?_) ih
          rw [Piece.ofText, hplain] at hopens
          contradiction
  | opening _ hnext _ ih => exact .cons_cons (fun _ hident => absurd hident hnext) ih

/-- Composed pieces spell a tree wherever they stand. -/
def IsComposed {α : Type} (P : α → List Token → Prop) (x : α) (pieces : List Piece) : Prop :=
  Composed pieces ∧ ∀ place, P x (placed place pieces)

theorem IsComposed.intro {α : Type} {P : α → List Token → Prop} {x : α}
    {pieces : List Piece} (hcomposed : Composed pieces)
    (hspells : ∀ place, ∃ y, P y (placed place pieces) ∧ y = x) : IsComposed P x pieces := by
  refine ⟨hcomposed, fun place => ?_⟩
  obtain ⟨y, hy, rfl⟩ := hspells place
  exact hy

/-- Composed pieces spell an item of a list, not beginning with a name. -/
def ComposesItem {α : Type} (P : α → List Token → Prop) (x : α) : Prop :=
  ∃ next rest, next.kind ≠ .ident ∧ IsComposed P x (next :: rest)

/-! ### Lists -/

/-- An item may stand behind a lexeme that no name may stand behind. -/
theorem ComposesItem.exists_behind {α : Type} {P : α → List Token → Prop} {x : α}
    (hitem : ComposesItem P x) (kind : Terminal)
    (hlexeme : kind.IsLexeme kind.fixedText.toList) :
    ∃ pieces, Composed (.ofKind kind :: pieces) ∧ ∀ place, P x (placed place pieces) := by
  obtain ⟨next, rest, hnext, hcomposed, hspells⟩ := hitem
  exact ⟨next :: rest, .opening hlexeme hnext hcomposed, hspells⟩

theorem exists_trail {α : Type} {P : α → List Token → Prop} (separator : Terminal) {xs : List α}
    (hall : ∀ x ∈ xs, ∃ pieces, Composed (.ofKind separator :: pieces) ∧
      ∀ place, P x (placed place pieces)) :
    ∃ pieces, IsComposed (Trail separator P) xs pieces := by
  induction xs with
  | nil => exact ⟨[], .nil, fun _ => .nil⟩
  | cons x xs ih =>
      obtain ⟨hfirst, hrest⟩ := List.forall_mem_cons.mp hall
      obtain ⟨first, hfirst, hspells⟩ := hfirst
      obtain ⟨more, hmore, htrail⟩ := ih hrest
      refine ⟨.ofKind separator :: (first ++ more), hfirst.append hmore, fun place => ?_⟩
      rw [placed, placed_append]
      exact .cons rfl (hspells _) (htrail _)

theorem composed_parens : Composed [.ofKind .leftParen, .ofKind .rightParen] := by
  have hlexeme : Terminal.leftParen.IsLexeme Terminal.leftParen.fixedText.toList := rfl
  exact .opening hlexeme (by decide) (.plain rfl rfl .nil)

theorem exists_enclosed {α : Type} {P : α → List Token → Prop} {xs : List α}
    (hall : ∀ x ∈ xs, ComposesItem P x) : ∃ pieces, IsComposed (Enclosed P) xs pieces := by
  have hclosing : Composed [.ofKind .rightParen] := .plain rfl rfl .nil
  cases xs with
  | nil =>
      exact ⟨[.ofKind .leftParen, .ofKind .rightParen], composed_parens,
        fun _ => .nothing rfl rfl⟩
  | cons x xs =>
      obtain ⟨hfirst, hrest⟩ := List.forall_mem_cons.mp hall
      obtain ⟨first, hfirst, hspells⟩ := hfirst.exists_behind .leftParen rfl
      obtain ⟨more, hmore, htrail⟩ :=
        exists_trail .comma fun x hx => (hrest x hx).exists_behind .comma rfl
      refine ⟨.ofKind .leftParen :: (first ++ (more ++ [Piece.ofKind .rightParen])),
        hfirst.append (hmore.append hclosing), fun place => ?_⟩
      rw [placed, placed_append, placed_append]
      exact .items rfl (hspells _) (htrail _) rfl

/-! ### Quoted forms -/

/-- The ways to write a character between quotes. -/
def quotedForms : Char → List (List Char)
  | '\\' => [['\\', '\\']]
  | '"' => [['\\', '"']]
  | '\n' => [['\\', 'n']]
  | '\t' => [['\t'], ['\\', 't']]
  | '\r' => [['\r'], ['\\', 'r']]
  | c => [[c]]

/-- A text and a way to write it between quotes, character by character. -/
inductive QuotedAs : List Char → List Char → Prop
  | nil : QuotedAs [] []
  | cons {c : Char} {form content raw : List Char} (hform : form ∈ quotedForms c)
      (hrest : QuotedAs content raw) : QuotedAs (c :: content) (form ++ raw)

def enquote (raw : List Char) : String :=
  String.ofList ('"' :: (raw ++ ['"']))

theorem toList_enquote (raw : List Char) : (enquote raw).toList = '"' :: (raw ++ ['"']) :=
  String.toList_ofList

/-- The first of the quoted forms of a text. -/
def quote (content : String) : String :=
  enquote (content.toList.flatMap fun c => (quotedForms c).headD [])

theorem headD_mem_quotedForms (c : Char) : (quotedForms c).headD [] ∈ quotedForms c := by
  unfold quotedForms
  split <;> exact List.mem_cons_self

theorem quotedAs_flatMap (content : List Char) :
    QuotedAs content (content.flatMap fun c => (quotedForms c).headD []) := by
  induction content with
  | nil => exact .nil
  | cons c content ih => exact .cons (headD_mem_quotedForms c) ih

theorem Quotes.append_form {c : Char} {form : List Char} (hform : form ∈ quotedForms c)
    {raw content : List Char} (hrest : Quotes raw content) :
    Quotes (form ++ raw) (c :: content) := by
  unfold quotedForms at hform
  split at hform
  · cases List.mem_singleton.mp hform
    exact .escape (by decide) hrest
  · cases List.mem_singleton.mp hform
    exact .escape (by decide) hrest
  · cases List.mem_singleton.mp hform
    exact .escape (by decide) hrest
  · rcases List.mem_pair.mp hform with rfl | rfl
    · exact .plain (by decide) (by decide) (by decide) hrest
    · exact .escape (by decide) hrest
  · rcases List.mem_pair.mp hform with rfl | rfl
    · exact .plain (by decide) (by decide) (by decide) hrest
    · exact .escape (by decide) hrest
  · next hslash hquote hline _ _ =>
      cases List.mem_singleton.mp hform
      exact .plain hquote hslash hline hrest

theorem QuotedAs.quotes {content raw : List Char} (hquoted : QuotedAs content raw) :
    Quotes raw content := by
  induction hquoted with
  | nil => exact .nil
  | cons hform _ ih => exact ih.append_form hform

theorem Quotes.isQuotable {raw content : List Char} (hquotes : Quotes raw content) :
    IsQuotable raw := by
  induction hquotes with
  | nil => exact .nil
  | plain hquote hslash hline _ ih => exact .plain hquote hslash hline ih
  | escape hline _ ih => exact .escape hline ih

theorem Quotes.isLiteral {raw content : List Char} (hquotes : Quotes raw content) :
    IsLiteral (enquote raw).toList := by
  rw [toList_enquote]
  exact .intro hquotes.isQuotable

/-! ### Values -/

theorem composesItem_coordinate {x : Double} (hx : IsWrittenNumber x) :
    ComposesItem SpellsCoordinate x := by
  obtain ⟨text, hnumeral, hread⟩ := hx
  exact ⟨.ofText .number text, [], nofun, .plain hnumeral rfl .nil,
    fun _ => .numeral rfl hread⟩

theorem exists_scope_word {scope : String} (hscope : scope ∈ ["local", "unsaved", "saved"]) :
    ∃ word ∈ scopeWords, (word, scope) ∈ scopes := by
  simp only [List.mem_cons, List.not_mem_nil, or_false] at hscope
  rcases hscope with rfl | rfl | rfl
  · exact ⟨"local", by decide, by decide⟩
  · exact ⟨"game", by decide, by decide⟩
  · exact ⟨"save", by decide, by decide⟩

theorem composesItem_reference {value : Value} (hvalue : value.IsWritableReference) :
    ComposesItem SpellsReference value := by
  cases value with
  | reference name scope =>
      obtain ⟨hname, hscope⟩ := hvalue
      obtain ⟨word, hword, hmeans⟩ := exists_scope_word hscope
      have hlexeme : IsScope (word ++ ":").toList := by
        refine ⟨word, hword, ?_⟩
        rw [String.toList_append]
        rfl
      exact ⟨.ofText .scopePrefix (word ++ ":"), [.ofText .ident name], nofun,
        .intro (.plain hlexeme rfl (.plain hname rfl .nil))
          fun _ => ⟨_, .withScope rfl rfl hmeans rfl, rfl⟩⟩
  | _ => exact hvalue.elim

theorem exists_reference {value : Value} (hvalue : value.IsWritableReference) :
    ∃ pieces, IsComposed SpellsReference value pieces := by
  obtain ⟨next, rest, -, hcomposed⟩ := composesItem_reference hvalue
  exact ⟨next :: rest, hcomposed⟩

theorem composesItem_value {value : Value} (hvalue : value.IsWritable) :
    ComposesItem SpellsValue value := by
  cases value with
  | text content =>
      have hquotes := (quotedAs_flatMap content.toList).quotes
      exact ⟨.ofText .text (quote content), [], nofun, .plain hquotes.isLiteral rfl .nil,
        fun _ => .text rfl (toList_enquote _) hquotes⟩
  | number written =>
      exact ⟨.ofText .number written, [], nofun,
        .intro (.plain hvalue rfl .nil) fun _ => ⟨_, .number rfl, rfl⟩⟩
  | reference name scope =>
      have hreference : (Value.reference name scope).IsWritableReference := hvalue
      obtain ⟨next, rest, hnext, hcomposed, hspells⟩ := composesItem_reference hreference
      exact ⟨next, rest, hnext, hcomposed, fun place => .reference (hspells place)⟩
  | location x y z pitch yaw =>
      obtain ⟨pieces, hcomposed, hspells⟩ :=
        exists_enclosed fun c hc => composesItem_coordinate (hvalue c hc)
      exact ⟨.ofKind .loc, pieces, by decide, .plain rfl rfl hcomposed,
        fun _ => .facing rfl (hspells _)⟩
  | vector x y z =>
      obtain ⟨pieces, hcomposed, hspells⟩ :=
        exists_enclosed fun c hc => composesItem_coordinate (hvalue c hc)
      exact ⟨.ofKind .vec, pieces, by decide, .plain rfl rfl hcomposed,
        fun _ => .vector rfl (hspells _)⟩
  | formless => exact hvalue.elim

theorem exists_arguments {arguments : List Value}
    (harguments : ∀ value ∈ arguments, value.IsWritable) :
    ∃ pieces, IsComposed (Enclosed SpellsValue) arguments pieces :=
  exists_enclosed fun value hvalue => composesItem_value (harguments value hvalue)

/-! ### Statements -/

theorem exists_step {step : Step} (hstep : step.IsWritable) :
    ∃ pieces, IsComposed SpellsStep step pieces := by
  obtain ⟨haction, hsubAction, harguments⟩ := hstep
  obtain ⟨pieces, hcomposed, hspells⟩ := exists_arguments harguments
  exact ⟨.ofText .ident step.action :: .ofKind .doubleColon ::
      .ofText .ident step.subAction :: pieces,
    .intro (.plain haction rfl (.plain rfl rfl (.plain hsubAction rfl hcomposed)))
      fun _ => ⟨_, .step rfl rfl rfl (hspells _), rfl⟩⟩

theorem exists_subject {subject : Subject} (hsubject : subject.IsWritable) :
    ∃ kind : Terminal, kind.IsLexeme kind.fixedText.toList ∧ kind.opensValue = false ∧
      ∀ place, SpellsSubject subject ⟨kind, kind.fixedText, place⟩ := by
  simp only [Subject.IsWritable, List.mem_cons, List.not_mem_nil, or_false] at hsubject
  rcases hsubject with rfl | rfl | rfl
  · exact ⟨.player, rfl, rfl, fun _ => .player rfl⟩
  · exact ⟨.entity, rfl, rfl, fun _ => .entity rfl⟩
  · exact ⟨.plot, rfl, rfl, fun _ => .plot rfl⟩

theorem isLexeme_of_isOperator {operator : String} (hoperator : IsOperator operator) :
    Terminal.operator.IsLexeme operator.toList := by
  simp only [IsOperator, List.mem_cons, List.not_mem_nil, or_false] at hoperator
  rcases hoperator with rfl | rfl | rfl | rfl | rfl | rfl
  · exact ⟨'=', by decide, rfl⟩
  · exact ⟨'+', by decide, rfl⟩
  · exact ⟨'-', by decide, rfl⟩
  · exact ⟨'*', by decide, rfl⟩
  · exact ⟨'/', by decide, rfl⟩
  · exact ⟨'%', by decide, rfl⟩

theorem exists_negation {subject : Subject} {negated : Bool}
    (hnegated : negated = true → subject = .player) :
    ∃ pieces, IsComposed (SpellsNegation subject) negated pieces := by
  cases negated with
  | false => exact ⟨[], .nil, fun _ => .absent subject⟩
  | true =>
      obtain rfl := hnegated rfl
      exact ⟨[.ofKind .not], .plain rfl rfl .nil, fun _ => .present rfl⟩

theorem exists_block {statement : Statement} {rest : List Statement} {first more : List Piece}
    (hfirst : IsComposed SpellsStatement statement first)
    (hmore : IsComposed SpellsMore rest more) :
    ∃ pieces, IsComposed SpellsBlock (statement :: rest) pieces := by
  have hclosing : Composed [.ofKind .rightBrace] := .plain rfl rfl .nil
  refine ⟨.ofKind .leftBrace :: (first ++ (more ++ [Piece.ofKind .rightBrace])),
    .plain rfl rfl (hfirst.1.append (hmore.1.append hclosing)), fun place => ?_⟩
  rw [placed, placed_append, placed_append]
  exact .statements rfl (hfirst.2 _) (hmore.2 _) .absent rfl

mutual

/-- A writable statement has a spelling. -/
theorem Statement.IsWritable.exists_pieces : {statement : Statement} →
    statement.IsWritable → ∃ pieces, IsComposed SpellsStatement statement pieces
  | .action subject name arguments, ⟨hsubject, hname, harguments⟩ => by
      obtain ⟨kind, hlexeme, hplain, hsubject⟩ := exists_subject hsubject
      obtain ⟨pieces, hcomposed, hspells⟩ := exists_arguments harguments
      exact ⟨.ofKind kind :: .ofKind .dot :: .ofText .ident name :: pieces,
        .intro (.plain hlexeme hplain (.plain rfl rfl (.plain hname rfl hcomposed)))
          fun _ => ⟨_, .action (hsubject _) rfl rfl (hspells _), rfl⟩⟩
  | .assignment target operator verb arguments,
      ⟨htarget, hoperator, hverb, harguments⟩ => by
      obtain ⟨referred, htarget⟩ := exists_reference htarget
      obtain ⟨pieces, hcomposed, hspells⟩ := exists_arguments harguments
      have hoperator := isLexeme_of_isOperator hoperator
      refine ⟨.ofKind .var :: (referred ++ .ofText .operator operator ::
        .ofText .ident verb :: pieces), .intro (.plain rfl rfl (htarget.1.append
          (.plain hoperator rfl (.plain hverb rfl hcomposed)))) fun place => ?_⟩
      rw [placed, placed_append]
      exact ⟨_, .assignment rfl (htarget.2 _) rfl rfl (hspells _), rfl⟩
  | .condition subject name arguments body negated,
      ⟨hsubject, hnegated, hname, harguments, hbody⟩ => by
      obtain ⟨negation, hnegation⟩ := exists_negation hnegated
      obtain ⟨kind, hlexeme, hplain, hsubject⟩ := exists_subject hsubject
      obtain ⟨pieces, hcomposed, hspells⟩ := exists_arguments harguments
      obtain ⟨⟨block, hblock⟩, -⟩ := exists_body hbody
      refine ⟨.ofKind .if_ :: (negation ++ .ofKind kind :: .ofKind .dot ::
        .ofText .ident name :: (pieces ++ block)), .intro (.plain rfl rfl
          (hnegation.1.append (.plain hlexeme hplain (.plain rfl rfl (.plain hname rfl
            (hcomposed.append hblock.1)))))) fun place => ?_⟩
      rw [placed, placed_append, placed, placed, placed, placed_append]
      exact ⟨_, .condition rfl (hnegation.2 _) (hsubject _) rfl rfl
        (.present (hspells _)) (hblock.2 _), rfl⟩
  | .variableCondition target operator name arguments body,
      ⟨htarget, hoperator, hname, harguments, hbody⟩ => by
      obtain ⟨referred, htarget⟩ := exists_reference htarget
      obtain ⟨pieces, hcomposed, hspells⟩ := exists_arguments harguments
      obtain ⟨⟨block, hblock⟩, -⟩ := exists_body hbody
      have hoperator := isLexeme_of_isOperator hoperator
      refine ⟨.ofKind .if_ :: .ofKind .var :: (referred ++ .ofText .operator operator ::
        .ofText .ident name :: (pieces ++ block)), .intro (.plain rfl rfl (.plain rfl rfl
          (htarget.1.append (.plain hoperator rfl (.plain hname rfl
            (hcomposed.append hblock.1)))))) fun place => ?_⟩
      rw [placed, placed, placed_append, placed, placed, placed_append]
      exact ⟨_, .variableCondition rfl rfl (htarget.2 _) rfl rfl (hspells _) (hblock.2 _),
        rfl⟩
  | .otherwise body, hbody => by
      obtain ⟨⟨block, hcomposed, hspells⟩, -⟩ := exists_body hbody
      exact ⟨.ofKind .else_ :: block, .plain rfl rfl hcomposed,
        fun _ => .otherwise rfl (hspells _)⟩
  | .selection (step :: steps) body, ⟨_, hsteps, hbody⟩ => by
      obtain ⟨hstep, hsteps⟩ := List.forall_mem_cons.mp hsteps
      obtain ⟨first, hfirst⟩ := exists_step hstep
      obtain ⟨more, hmore⟩ := exists_trail .arrow fun step hstep => by
        obtain ⟨pieces, hcomposed, hspells⟩ := exists_step (hsteps step hstep)
        exact ⟨pieces, .plain rfl rfl hcomposed, hspells⟩
      obtain ⟨⟨block, hblock⟩, -⟩ := exists_body hbody
      refine ⟨.ofKind .select :: (first ++ (more ++ block)),
        .plain rfl rfl (hfirst.1.append (hmore.1.append hblock.1)), fun place => ?_⟩
      rw [placed, placed_append, placed_append]
      exact .selection rfl (hfirst.2 _) (hmore.2 _) (hblock.2 _)
  | .call name process, hname => by
      cases process with
      | false =>
          exact ⟨[.ofKind .call, .ofText .ident name, .ofKind .leftParen, .ofKind .rightParen],
            .intro (.plain rfl rfl (.plain hname rfl composed_parens))
              fun _ => ⟨_, .call rfl rfl rfl rfl, rfl⟩⟩
      | true =>
          exact ⟨[.ofKind .start, .ofText .ident name, .ofKind .leftParen, .ofKind .rightParen],
            .intro (.plain rfl rfl (.plain hname rfl composed_parens))
              fun _ => ⟨_, .call rfl rfl rfl rfl, rfl⟩⟩

theorem exists_body : {body : List Statement} → BodyIsWritable body →
    (∃ pieces, IsComposed SpellsBlock body pieces) ∧
      ∃ pieces, IsComposed SpellsMore body pieces
  | [], _ =>
      ⟨⟨[.ofKind .leftBrace, .ofKind .rightBrace], .plain rfl rfl (.plain rfl rfl .nil),
        fun _ => .nothing rfl rfl⟩, [], .nil, fun _ => .nil⟩
  | statement :: rest, ⟨hstatement, hrest⟩ => by
      obtain ⟨first, hfirst⟩ := hstatement.exists_pieces
      obtain ⟨-, more, hmore⟩ := exists_body hrest
      refine ⟨exists_block hfirst hmore, .ofKind .semicolon :: (first ++ more),
        .plain rfl rfl (hfirst.1.append hmore.1), fun place => ?_⟩
      rw [placed, placed_append]
      exact .cons rfl (hfirst.2 _) (hmore.2 _)

end

/-! ### Scripts -/

/-- A routine without the place where it was written. -/
def Routine.unplaced (routine : Routine) : Routine :=
  { routine with line := 0, column := 0 }

theorem Routine.IsWritable.exists_pieces {routine : Routine} (hroutine : routine.IsWritable) :
    ∃ pieces, Composed pieces ∧ ∀ place, ∃ found, SpellsRoutine found (placed place pieces) ∧
      found.unplaced = routine.unplaced := by
  obtain ⟨hkind, hname, hbody⟩ := hroutine
  obtain ⟨kind, name, body, line, column⟩ := routine
  obtain ⟨⟨block, hblock⟩, -⟩ := exists_body hbody
  simp only [List.mem_cons, List.not_mem_nil, or_false] at hkind
  rcases hkind with rfl | rfl | rfl
  · exact ⟨.ofKind .event :: .ofKind .player :: .ofKind .dot :: .ofText .ident name :: block,
      .plain rfl rfl (.plain rfl rfl (.plain rfl rfl (.plain hname rfl hblock.1))),
      fun _ => ⟨_, .event rfl rfl rfl rfl (hblock.2 _), rfl⟩⟩
  · exact ⟨.ofKind .func :: .ofText .ident name :: .ofKind .leftParen ::
        .ofKind .rightParen :: block,
      .plain rfl rfl (.plain hname rfl (composed_parens.append hblock.1)),
      fun _ => ⟨_, .function rfl rfl rfl rfl (hblock.2 _), rfl⟩⟩
  · exact ⟨.ofKind .proc :: .ofText .ident name :: .ofKind .leftParen ::
        .ofKind .rightParen :: block,
      .plain rfl rfl (.plain hname rfl (composed_parens.append hblock.1)),
      fun _ => ⟨_, .process rfl rfl rfl rfl (hblock.2 _), rfl⟩⟩

/-- Writable routines have a spelling. -/
theorem exists_script {routines : List Routine}
    (hroutines : ∀ routine ∈ routines, routine.IsWritable) :
    ∃ pieces, Composed pieces ∧ ∀ place, ∃ found, Spells found (placed place pieces) ∧
      found.map Routine.unplaced = routines.map Routine.unplaced := by
  induction routines with
  | nil => exact ⟨[], .nil, fun _ => ⟨[], .nil, rfl⟩⟩
  | cons routine routines ih =>
      obtain ⟨hroutine, hrest⟩ := List.forall_mem_cons.mp hroutines
      obtain ⟨first, hfirst, hspells⟩ := hroutine.exists_pieces
      obtain ⟨more, hmore, hall⟩ := ih hrest
      refine ⟨first ++ more, hfirst.append hmore, fun place => ?_⟩
      obtain ⟨one, hspells, hone⟩ := hspells place
      obtain ⟨found, hall, hfound⟩ := hall (place.after (written first []))
      refine ⟨one :: found, ?_, by rw [List.map_cons, List.map_cons, hone, hfound]⟩
      rw [placed_append]
      exact .cons hspells hall

end Blockscript.Script
