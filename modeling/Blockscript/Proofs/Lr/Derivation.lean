import Blockscript.Proofs.Lr.Run
import Mathlib.Data.List.Forall2

/-!
Derivations, and the soundness of the shift/reduce machine.  A derivation of a
word assigns a meaning to it through the productions of the grammar.  Whatever
its table, a machine that accepts has built a derivation of the tokens it was
fed: a reduction checks the symbols it takes off the stack.
-/

namespace Blockscript.Lr

variable {τ ν π : Type} {g : Grammar τ ν π} (a : Attribution g)

mutual

/-- A word derived from a symbol, with the meaning that the derivation gives
to it. -/
inductive Derives : (x : Symbol τ ν) → Carrier a.Token a.Meaning x →
    List a.Token → Prop
  | token (token : a.Token) : Derives (.terminal (a.kind token)) token [token]
  | production (p : π) (hp : p ∈ g.productions)
      {meanings : Meanings a.Token a.Meaning (g.rhs p)} {word : List a.Token}
      (parts : DerivesAll (g.rhs p) meanings word) :
      Derives (.rule (g.lhs p)) (a.interpret p meanings) word

/-- A word derived from symbols in order, a part of it from each. -/
inductive DerivesAll : (xs : List (Symbol τ ν)) → Meanings a.Token a.Meaning xs →
    List a.Token → Prop
  | nil : DerivesAll [] () []
  | cons {x : Symbol τ ν} {xs : List (Symbol τ ν)}
      {meaning : Carrier a.Token a.Meaning x} {meanings : Meanings a.Token a.Meaning xs}
      {first rest : List a.Token} (head : Derives x meaning first)
      (tail : DerivesAll xs meanings rest) :
      DerivesAll (x :: xs) (meaning, meanings) (first ++ rest)

end

variable {a}

theorem Derives.cast {r s : ν} (h : r = s) {meaning : a.Meaning r}
    {word : List a.Token} (hderives : Derives a (.rule r) meaning word) :
    Derives a (.rule s) (h ▸ meaning) word := by
  subst h
  exact hderives

theorem derives_terminal_iff {t : τ} {token : a.Token} {word : List a.Token} :
    Derives a (.terminal t) token word ↔ a.kind token = t ∧ word = [token] := by
  constructor
  · intro h
    cases h
    exact ⟨rfl, rfl⟩
  · rintro ⟨rfl, rfl⟩
    exact .token token

/-- A token before derived symbols. -/
theorem DerivesAll.token {t : τ} {token : a.Token} (hkind : a.kind token = t)
    {xs : List (Symbol τ ν)} {meanings : Meanings a.Token a.Meaning xs}
    {rest : List a.Token} (hrest : DerivesAll a xs meanings rest) :
    DerivesAll a (.terminal t :: xs) (token, meanings) (token :: rest) :=
  .cons (derives_terminal_iff.mpr ⟨hkind, rfl⟩) hrest

/-- One derived symbol at the end. -/
theorem DerivesAll.last {x : Symbol τ ν} {meaning : Carrier a.Token a.Meaning x}
    {word : List a.Token} (hlast : Derives a x meaning word) :
    DerivesAll a [x] (meaning, ()) word := by
  have hall := DerivesAll.cons hlast .nil
  rwa [List.append_nil] at hall

/-- What a rule derives is derived by one of its productions. -/
theorem Derives.exists_production {r : ν} {meaning : a.Meaning r} {word : List a.Token} :
    Derives a (.rule r) meaning word →
      ∃ p meanings, g.lhs p = r ∧ DerivesAll a (g.rhs p) meanings word
  | .production p _ parts => ⟨p, _, rfl, parts⟩

theorem DerivesAll.exists_append {x : Symbol τ ν} {xs : List (Symbol τ ν)}
    {meanings : Meanings a.Token a.Meaning (x :: xs)} {word : List a.Token} :
    DerivesAll a (x :: xs) meanings word →
      ∃ first rest, word = first ++ rest ∧ Derives a x meanings.1 first ∧
        DerivesAll a xs meanings.2 rest
  | .cons head tail => ⟨_, _, rfl, head, tail⟩

theorem DerivesAll.exists_token {t : τ} {xs : List (Symbol τ ν)}
    {meanings : Meanings a.Token a.Meaning (.terminal t :: xs)} {word : List a.Token}
    (hparts : DerivesAll a (.terminal t :: xs) meanings word) :
    ∃ token rest, word = token :: rest ∧ a.kind token = t ∧
      DerivesAll a xs meanings.2 rest := by
  obtain ⟨first, rest, rfl, hfirst, hrest⟩ := hparts.exists_append
  obtain ⟨hkind, rfl⟩ := derives_terminal_iff.mp hfirst
  exact ⟨_, rest, rfl, hkind, hrest⟩

/-- A word begins with the terminal that its symbols begin with. -/
theorem DerivesAll.exists_head {t : τ} {xs : List (Symbol τ ν)}
    (hhead : xs.head? = some (.terminal t)) {meanings : Meanings a.Token a.Meaning xs}
    {word : List a.Token} (hparts : DerivesAll a xs meanings word) :
    ∃ token rest, word = token :: rest ∧ a.kind token = t := by
  cases xs with
  | nil => contradiction
  | cons x xs =>
      obtain rfl := Option.some.inj hhead
      obtain ⟨token, rest, rfl, hkind, -⟩ := hparts.exists_token
      exact ⟨token, rest, rfl, hkind⟩

/-! ### Derivations of other tokens and meanings -/

/-- Two meanings of a symbol are related, be they tokens of a terminal or what a rule
means. -/
def Carrier.Related {κ κ' : Type} {M M' : ν → Type} (token : τ → κ → κ' → Prop)
    (meaning : (r : ν) → M r → M' r → Prop) :
    (x : Symbol τ ν) → Carrier κ M x → Carrier κ' M' x → Prop
  | .terminal t, found, other => token t found other
  | .rule r, found, other => meaning r found other

/-- The meanings of symbols are related one by one. -/
def Meanings.Related {κ κ' : Type} {M M' : ν → Type} (token : τ → κ → κ' → Prop)
    (meaning : (r : ν) → M r → M' r → Prop) :
    (xs : List (Symbol τ ν)) → Meanings κ M xs → Meanings κ' M' xs → Prop
  | [], _, _ => True
  | x :: xs, (first, rest), (other, others) =>
      Carrier.Related token meaning x first other ∧ Related token meaning xs rest others

/-- A relation of tokens that have the same kinds, for each terminal, and of meanings
that productions respect. -/
structure Correspondence (a b : Attribution g) where
  token : τ → a.Token → b.Token → Prop
  meaning : (r : ν) → a.Meaning r → b.Meaning r → Prop
  kind_eq : ∀ t u, token (a.kind t) t u → a.kind t = b.kind u
  interpret : ∀ p left right, Meanings.Related token meaning (g.rhs p) left right →
    meaning (g.lhs p) (a.interpret p left) (b.interpret p right)

section Correspondence

variable {b : Attribution g} (f : Correspondence a b)

def Correspondence.Words (f : Correspondence a b) : List a.Token → List b.Token → Prop :=
  List.Forall₂ fun t u => f.token (a.kind t) t u

theorem Correspondence.words_map {change : a.Token → b.Token}
    (hchange : ∀ t, f.token (a.kind t) t (change t)) (word : List a.Token) :
    f.Words word (word.map change) :=
  List.forall₂_map_right_iff.mpr (List.forall₂_same.mpr fun t _ => hchange t)

mutual

/-- A word of related tokens is derived with a related meaning. -/
theorem Derives.exists_related {x : Symbol τ ν} {found : Carrier a.Token a.Meaning x}
    {word : List a.Token} {other : List b.Token} (hword : f.Words word other) :
    Derives a x found word →
      ∃ meaning, Carrier.Related f.token f.meaning x found meaning ∧ Derives b x meaning other
  | .token token => by
      cases hword with
      | @cons _ seen _ _ htoken hnil =>
          cases hnil
          have hkind := (f.kind_eq token seen htoken).symm
          exact ⟨seen, htoken, derives_terminal_iff.mpr ⟨hkind, rfl⟩⟩
  | .production p hp parts => by
      obtain ⟨meanings, hrelated, hparts⟩ := parts.exists_related hword
      exact ⟨b.interpret p meanings, f.interpret p _ _ hrelated, .production p hp hparts⟩

theorem DerivesAll.exists_related {xs : List (Symbol τ ν)}
    {found : Meanings a.Token a.Meaning xs} {word : List a.Token} {other : List b.Token}
    (hword : f.Words word other) :
    DerivesAll a xs found word →
      ∃ meanings, Meanings.Related f.token f.meaning xs found meanings ∧
        DerivesAll b xs meanings other
  | .nil => by
      cases hword
      exact ⟨(), trivial, .nil⟩
  | .cons head tail => by
      have hleft := (List.forall₂_take_append _ _ _ hword.flip).flip
      have hright := (List.forall₂_drop_append _ _ _ hword.flip).flip
      obtain ⟨first, hfirst, hhead⟩ := head.exists_related hleft
      obtain ⟨rest, hrest, htail⟩ := tail.exists_related hright
      have hall := DerivesAll.cons hhead htail
      rw [List.take_append_drop] at hall
      exact ⟨(first, rest), ⟨hfirst, hrest⟩, hall⟩

end

end Correspondence

/-- Change the meaning of a symbol, be it a token of a terminal or what a rule means. -/
def Carrier.map {κ : Type} {M : ν → Type} (token : τ → κ → κ) (meaning : (r : ν) → M r → M r) :
    (x : Symbol τ ν) → Carrier κ M x → Carrier κ M x
  | .terminal t, found => token t found
  | .rule r, found => meaning r found

def Meanings.map {κ : Type} {M : ν → Type} (token : τ → κ → κ) (meaning : (r : ν) → M r → M r) :
    (xs : List (Symbol τ ν)) → Meanings κ M xs → Meanings κ M xs
  | [], found => found
  | x :: xs, (first, rest) => (Carrier.map token meaning x first, map token meaning xs rest)

theorem Carrier.related_map_iff {κ : Type} {M : ν → Type} {token : τ → κ → κ}
    {meaning : (r : ν) → M r → M r} {x : Symbol τ ν} {found other : Carrier κ M x} :
    Carrier.Related (fun k t u => u = token k t) (fun r m n => n = meaning r m) x found other ↔
      other = Carrier.map token meaning x found := by
  cases x <;> exact Iff.rfl

theorem Meanings.related_map_iff {κ : Type} {M : ν → Type} {token : τ → κ → κ}
    {meaning : (r : ν) → M r → M r} {xs : List (Symbol τ ν)} {found other : Meanings κ M xs} :
    Meanings.Related (fun k t u => u = token k t) (fun r m n => n = meaning r m) xs found other ↔
      other = Meanings.map token meaning xs found := by
  induction xs with
  | nil => exact ⟨fun _ => rfl, fun _ => trivial⟩
  | cons x xs ih =>
      obtain ⟨first, rest⟩ := found
      obtain ⟨other, others⟩ := other
      constructor
      · rintro ⟨hfirst, hrest⟩
        rw [Carrier.related_map_iff.mp hfirst, ih.mp hrest]
        rfl
      · intro hsame
        cases hsame
        exact ⟨Carrier.related_map_iff.mpr rfl, ih.mpr rfl⟩

theorem Meanings.map_eq_of_related {κ : Type} {M : ν → Type} {token : τ → κ → κ}
    {meaning : (r : ν) → M r → M r} {xs : List (Symbol τ ν)} {found other : Meanings κ M xs}
    (hrelated : Meanings.Related (fun k t u => token k t = token k u)
      (fun r m n => meaning r m = meaning r n) xs found other) :
    Meanings.map token meaning xs found = Meanings.map token meaning xs other := by
  induction xs with
  | nil => rfl
  | cons x xs ih =>
      obtain ⟨hfirst, hrest⟩ := hrelated
      refine congrArg₂ Prod.mk ?_ (ih hrest)
      cases x <;> exact hfirst

/-- A change of the tokens of each terminal that keeps their kinds, and of meanings that
productions respect. -/
structure Relabelling (a : Attribution g) where
  token : τ → a.Token → a.Token
  meaning : (r : ν) → a.Meaning r → a.Meaning r
  kind_token : ∀ k t, a.kind (token k t) = a.kind t
  interpret : ∀ p meanings, meaning (g.lhs p) (a.interpret p meanings) =
    a.interpret p (Meanings.map token meaning (g.rhs p) meanings)

/-- A change relates what it changes to what it makes of it. -/
def Relabelling.correspondence (f : Relabelling a) : Correspondence a a where
  token k t u := u = f.token k t
  meaning r m n := n = f.meaning r m
  kind_eq t u h := by rw [h, f.kind_token]
  interpret p left right h := by rw [Meanings.related_map_iff.mp h, f.interpret]

/-- A change relates what it makes the same. -/
def Relabelling.kernel (f : Relabelling a) : Correspondence a a where
  token k t u := f.token k t = f.token k u
  meaning r m n := f.meaning r m = f.meaning r n
  kind_eq t u h := by rw [← f.kind_token (a.kind t) t, h, f.kind_token]
  interpret p left right h := by rw [f.interpret, f.interpret, Meanings.map_eq_of_related h]

/-- A derived word of other tokens has the changed meaning. -/
theorem Derives.relabel (f : Relabelling a) {x : Symbol τ ν}
    {found : Carrier a.Token a.Meaning x} {word : List a.Token}
    (hderives : Derives a x found word) :
    Derives a x (Carrier.map f.token f.meaning x found)
      (word.map fun token => f.token (a.kind token) token) := by
  have hword := f.correspondence.words_map (fun _ => rfl) word
  obtain ⟨meaning, hrelated, hother⟩ := hderives.exists_related f.correspondence hword
  rwa [← Carrier.related_map_iff.mp hrelated]

/-! ### The machine builds derivations -/

/-- The symbols of a stack derive the tokens read so far, the lowest first. -/
inductive Stack.Spans : Stack a → List a.Token → Prop
  | nil : Spans [] []
  | cons {frame : Frame a} {below : Stack a} {word last : List a.Token}
      (hbelow : Spans below word) (hframe : Derives a frame.symbol frame.meaning last) :
      Spans (frame :: below) (word ++ last)

/-- What an outcome has built when `word` was read before the lookahead:
shifting adds the lookahead, and accepting derives the whole word. -/
def Outcome.Spans (word : List a.Token) (lookahead : Option a.Token) : Outcome a → Prop
  | .shifted next => ∃ token, lookahead = some token ∧ Stack.Spans next (word ++ [token])
  | .accepted meaning => lookahead = none ∧ Derives a (.rule g.start) meaning word
  | .rejected left | .derailed left => Stack.Spans left word

variable [DecidableEq τ] [DecidableEq ν]

/-- The symbols taken off a stack derive the last of its tokens. -/
theorem Stack.Spans.pop {symbols : List (Symbol τ ν)} {stack below : Stack a}
    {meanings : Meanings a.Token a.Meaning symbols} {word : List a.Token}
    (hspans : Stack.Spans stack word)
    (hpop : Stack.pop symbols stack = some (meanings, below)) :
    ∃ first last, word = first ++ last ∧ Stack.Spans below first ∧
      DerivesAll a symbols meanings last := by
  induction symbols generalizing below with
  | nil =>
      cases hpop
      exact ⟨word, [], (List.append_nil word).symm, hspans, .nil⟩
  | cons x xs ih =>
      rw [Stack.pop] at hpop
      split at hpop
      · rename_i taken frame rest htaken
        split at hpop
        · rename_i hsymbol
          subst hsymbol
          cases hpop
          obtain ⟨first, last, rfl, hrest, hall⟩ := ih htaken
          cases hrest with
          | cons hbelow hframe =>
              exact ⟨_, _, List.append_assoc _ _ _, hbelow, .cons hframe hall⟩
        · contradiction
      · contradiction

variable {table : Table τ ν π}

/-- A run builds derivations of what it reads, whatever its table. -/
theorem Stack.Feeds.spans (hall : ∀ p : π, p ∈ g.productions) {stack : Stack a}
    {lookahead : Option a.Token} {outcome : Outcome a}
    (hfeeds : Stack.Feeds table stack lookahead outcome) {word : List a.Token}
    (hspans : Stack.Spans stack word) : outcome.Spans word lookahead := by
  induction hfeeds generalizing word with
  | shift hshift => exact ⟨_, rfl, .cons hspans (.token _)⟩
  | reject hshift hreduce => exact hspans
  | accept hreduce hpop hstart =>
      obtain ⟨first, last, rfl, hbelow, hparts⟩ := hspans.pop hpop
      cases hbelow
      exact ⟨rfl, Derives.cast hstart (.production _ (hall _) hparts)⟩
  | reduce hshift hreduce hpop hgoes hgoto hrest ih =>
      obtain ⟨first, last, rfl, hbelow, hparts⟩ := hspans.pop hpop
      exact ih (.cons hbelow (.production _ (hall _) hparts))

end Blockscript.Lr
