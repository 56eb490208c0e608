import Blockscript.Proofs.Lr.Progress

/-!
Parse trees.  The parse tree of a word is what it means when every rule means the
tree below it.  Where a production stands midway on a stack, the tokens read so far
go on to a word in whose tree a node of its rule reaches across the end of them.
-/

namespace Blockscript.Lr

variable {τ ν π κ : Type} {g : Grammar τ ν π} {a : Attribution g}

mutual

/-- A tree of rules above tokens. -/
inductive Tree (ν κ : Type) where
  | leaf (token : κ)
  | node (rule : ν) (parts : Forest ν κ)

/-- Trees side by side. -/
inductive Forest (ν κ : Type) where
  | nil
  | cons (first : Tree ν κ) (rest : Forest ν κ)

end

mutual

def Tree.word : Tree ν κ → List κ
  | .leaf token => [token]
  | .node _ parts => parts.word

def Forest.word : Forest ν κ → List κ
  | .nil => []
  | .cons first rest => first.word ++ rest.word

end

/-- A node of a tree: its rule, and how many tokens stand before it and before its
end. -/
structure Node (ν : Type) where
  rule : ν
  start : Nat
  stop : Nat

mutual

/-- The nodes of a tree that stands behind so many tokens. -/
def Tree.nodes (start : Nat) : Tree ν κ → List (Node ν)
  | .leaf _ => []
  | .node r parts => ⟨r, start, start + parts.word.length⟩ :: parts.nodes start

def Forest.nodes (start : Nat) : Forest ν κ → List (Node ν)
  | .nil => []
  | .cons first rest => first.nodes start ++ rest.nodes (start + first.word.length)

end

/-- The tree of a symbol: a token is a leaf. -/
def Carrier.tree : (x : Symbol τ ν) → Carrier κ (fun _ => Tree ν κ) x → Tree ν κ
  | .terminal _, token => .leaf token
  | .rule _, tree => tree

def Meanings.forest : (xs : List (Symbol τ ν)) → Meanings κ (fun _ => Tree ν κ) xs → Forest ν κ
  | [], _ => .nil
  | x :: xs, (first, rest) => .cons (Carrier.tree x first) (forest xs rest)

/-- The attribution in which every rule means the tree below it. -/
@[reducible]
def trees (a : Attribution g) : Attribution g where
  Token := a.Token
  kind := a.kind
  Meaning _ := Tree ν a.Token
  interpret p parts := .node (g.lhs p) (Meanings.forest (g.rhs p) parts)

/-! ### Trees of derivations -/

/-- Whatever the rules mean, the same words are derived. -/
theorem Derives.exists_meaning {x : Symbol τ ν} {found : Carrier a.Token a.Meaning x}
    {word : List a.Token} (hderives : Derives a x found word) (b : Attribution g)
    (token : a.Token → b.Token) (hkind : ∀ t, b.kind (token t) = a.kind t) :
    ∃ meaning, Derives b x meaning (word.map token) := by
  let f : Correspondence a b := {
    token := fun _ t u => u = token t
    meaning := fun _ _ _ => True
    kind_eq := fun t u h => by rw [h, hkind]
    interpret := fun _ _ _ _ => trivial }
  obtain ⟨meaning, -, hmeaning⟩ := hderives.exists_related f (f.words_map (fun _ => rfl) word)
  exact ⟨meaning, hmeaning⟩

theorem Derives.exists_tree {x : Symbol τ ν} {meaning : Carrier a.Token a.Meaning x}
    {word : List a.Token} (hderives : Derives a x meaning word) :
    ∃ tree, Derives (trees a) x tree word := by
  simpa using hderives.exists_meaning (trees a) id fun _ => rfl

theorem Derives.exists_of_tree {x : Symbol τ ν} {tree : Carrier a.Token (trees a).Meaning x}
    {word : List a.Token} (hderives : Derives (trees a) x tree word) :
    ∃ meaning, Derives a x meaning word := by
  simpa using hderives.exists_meaning a id fun _ => rfl

mutual

theorem Derives.word_tree {x : Symbol τ ν} {tree : Carrier a.Token (trees a).Meaning x}
    {word : List a.Token} : Derives (trees a) x tree word → (Carrier.tree x tree).word = word
  | .token _ => rfl
  | .production _ _ parts => parts.word_forest

theorem DerivesAll.word_forest {xs : List (Symbol τ ν)}
    {parts : Meanings a.Token (trees a).Meaning xs} {word : List a.Token} :
    DerivesAll (trees a) xs parts word → (Meanings.forest xs parts).word = word
  | .nil => rfl
  | .cons head tail => congrArg₂ (· ++ ·) head.word_tree tail.word_forest

end

/-- A node stands over tokens of a word that are derived from its rule. -/
def Node.StandsOver (a : Attribution g) (node : Node ν) (start : Nat) (word : List a.Token) :
    Prop :=
  ∃ before inner after, word = before ++ (inner ++ after) ∧ node.start = start + before.length ∧
    node.stop = node.start + inner.length ∧ ∃ meaning, Derives a (.rule node.rule) meaning inner

mutual

theorem Derives.standsOver {x : Symbol τ ν} {tree : Carrier a.Token (trees a).Meaning x}
    {word : List a.Token} {node : Node ν} {start : Nat}
    (hnode : node ∈ (Carrier.tree x tree).nodes start) :
    Derives (trees a) x tree word → node.StandsOver a start word
  | .token _ => by contradiction
  | .production p hp parts => by
      rcases List.mem_cons.mp hnode with rfl | hnode
      · obtain ⟨meaning, hmeaning⟩ := (Derives.production p hp parts).exists_of_tree
        refine ⟨[], _, [], by simp, rfl, ?_, meaning, hmeaning⟩
        rw [parts.word_forest]
      · exact parts.standsOver hnode

theorem DerivesAll.standsOver {xs : List (Symbol τ ν)}
    {parts : Meanings a.Token (trees a).Meaning xs} {word : List a.Token} {node : Node ν}
    {start : Nat} (hnode : node ∈ (Meanings.forest xs parts).nodes start) :
    DerivesAll (trees a) xs parts word → node.StandsOver a start word
  | .nil => by contradiction
  | .cons head tail => by
      rcases List.mem_append.mp hnode with hnode | hnode
      · obtain ⟨before, inner, after, rfl, hstart, hstop, hinner⟩ := head.standsOver hnode
        exact ⟨before, inner, _, (List.append_assoc before _ _).trans
          (congrArg (before ++ ·) (List.append_assoc inner after _)), hstart, hstop, hinner⟩
      · obtain ⟨before, inner, after, rfl, hstart, hstop, hinner⟩ := tail.standsOver hnode
        refine ⟨_, inner, after, (List.append_assoc _ before _).symm, ?_, hstop, hinner⟩
        rw [hstart, head.word_tree, List.length_append, Nat.add_assoc]

end

theorem Node.StandsOver.within {node : Node ν} {start : Nat} {word : List a.Token}
    (hover : node.StandsOver a start word) :
    start ≤ node.start ∧ node.stop ≤ start + word.length := by
  obtain ⟨before, inner, after, rfl, hstart, hstop, -⟩ := hover
  simp only [List.length_append]
  omega

/-- A rule occurs only in itself and in rules that own it. -/
def Grammar.Owned (g : Grammar τ ν π) (owns : ν → Prop) (r : ν) : Prop :=
  ∀ p, Symbol.rule r ∈ g.rhs p → g.lhs p = r ∨ owns (g.lhs p)

section Owned

variable {owns : ν → Prop} {r : ν}

mutual

/-- The nodes of a rule stand inside those of its owners. -/
theorem Derives.exists_owner (howned : g.Owned owns r) {x : Symbol τ ν}
    {tree : Carrier a.Token (trees a).Meaning x} {word : List a.Token} {node : Node ν} {start : Nat}
    (hnode : node ∈ (Carrier.tree x tree).nodes start) (hrule : node.rule = r) :
    Derives (trees a) x tree word →
      x = .rule r ∨ ∃ owner ∈ (Carrier.tree x tree).nodes start, owns owner.rule ∧
        owner.start ≤ node.start ∧ node.stop ≤ owner.stop
  | .token _ => by contradiction
  | .production p hp parts => by
      rcases List.mem_cons.mp hnode with rfl | hnode
      · exact .inl (congrArg Symbol.rule hrule)
      · rcases parts.exists_owner howned hnode hrule with hoccurs | ⟨owner, howner, hinside⟩
        · rcases howned p hoccurs with hself | howns
          · exact .inl (congrArg Symbol.rule hself)
          · obtain ⟨hstart, hstop⟩ := (parts.standsOver hnode).within
            rw [← parts.word_forest] at hstop
            exact .inr ⟨_, List.mem_cons_self, howns, hstart, hstop⟩
        · exact .inr ⟨owner, List.mem_cons_of_mem _ howner, hinside⟩

theorem DerivesAll.exists_owner (howned : g.Owned owns r) {xs : List (Symbol τ ν)}
    {parts : Meanings a.Token (trees a).Meaning xs} {word : List a.Token} {node : Node ν}
    {start : Nat} (hnode : node ∈ (Meanings.forest xs parts).nodes start)
    (hrule : node.rule = r) :
    DerivesAll (trees a) xs parts word →
      Symbol.rule r ∈ xs ∨ ∃ owner ∈ (Meanings.forest xs parts).nodes start,
        owns owner.rule ∧ owner.start ≤ node.start ∧ node.stop ≤ owner.stop
  | .nil => by contradiction
  | .cons head tail => by
      rcases List.mem_append.mp hnode with hnode | hnode
      · rcases head.exists_owner howned hnode hrule with rfl | ⟨owner, howner, hinside⟩
        · exact .inl List.mem_cons_self
        · exact .inr ⟨owner, List.mem_append_left _ howner, hinside⟩
      · rcases tail.exists_owner howned hnode hrule with hoccurs | ⟨owner, howner, hinside⟩
        · exact .inl (List.mem_cons_of_mem _ hoccurs)
        · exact .inr ⟨owner, List.mem_append_right _ howner, hinside⟩

end

end Owned

/-! ### Trees that reach across the end of what has been read -/

section Awaits

variable {simplest : ν → π} {height : ν → Nat} (hproductive : Productive g simplest height)
  (hall : ∀ p : π, p ∈ g.productions)

include hproductive hall

/-- Where a production is awaited, any trees of its missing symbols are part of the
tree of a word that goes on from what has been read, and a node of the production
ends with them. -/
theorem Stack.Awaits.exists_tree {stack : Stack a} {p : π} {rest : List (Symbol τ ν)}
    (hawaits : Stack.Awaits stack p rest) {word : List a.Token}
    (hspans : Stack.Spans stack word) :
    ∃ ending : List τ, ∀ parts inner, DerivesAll (trees a) rest parts inner →
      ∀ tail : List a.Token, tail.map a.kind = ending →
        ∃ tree, Derives (trees a) (.rule g.start) tree (word ++ (inner ++ tail)) ∧
          (∀ node ∈ (Meanings.forest rest parts).nodes word.length, node ∈ tree.nodes 0) ∧
          ∃ start ≤ word.length,
            ⟨g.lhs p, start, word.length + inner.length⟩ ∈ tree.nodes 0 := by
  induction hawaits generalizing word with
  | @start p hstart =>
      cases hspans
      refine ⟨[], fun parts inner hinner tail htail => ?_⟩
      obtain rfl := List.map_eq_nil_iff.mp htail
      rw [List.nil_append, List.append_nil]
      refine ⟨.node (g.lhs p) (Meanings.forest (g.rhs p) parts), ?_, ?_, 0, Nat.le_refl 0, ?_⟩
      · have htree := Derives.production p (hall p) hinner
        rwa [hstart] at htree
      · exact fun node hnode => List.mem_cons_of_mem _ hnode
      · rw [← hinner.word_forest]
        exact List.mem_cons_self
  | @begin stack p q rest houter ih =>
      obtain ⟨outer, houter⟩ := ih hspans
      obtain ⟨kinds, hkinds⟩ := hproductive.exists_yields (trees a) rest
      refine ⟨kinds ++ outer, fun parts inner hinner tail htail => ?_⟩
      obtain ⟨left, right, rfl, hleft, hright⟩ := List.map_eq_append_iff.mp htail
      obtain ⟨others, hothers⟩ := hkinds left hleft
      have hparts := DerivesAll.cons (.production q (hall q) hinner) hothers
      obtain ⟨tree, htree, hnodes, -⟩ := houter _ _ hparts right hright
      rw [← List.append_assoc inner]
      refine ⟨tree, htree, fun node hnode => ?_, word.length, Nat.le_refl _, ?_⟩
      · exact hnodes _ (List.mem_append_left _ (List.mem_cons_of_mem _ hnode))
      · rw [← hinner.word_forest]
        exact hnodes _ (List.mem_append_left _ List.mem_cons_self)
  | @advance frame below p rest hbelow ih =>
      cases hspans with
      | @cons _ _ word last hspans hframe =>
          obtain ⟨ending, hending⟩ := ih hspans
          obtain ⟨top, htop⟩ := hframe.exists_tree
          refine ⟨ending, fun parts inner hinner tail htail => ?_⟩
          obtain ⟨tree, htree, hnodes, start, hstart, hnode⟩ :=
            hending _ _ (.cons htop hinner) tail htail
          rw [List.append_assoc, ← List.append_assoc last]
          refine ⟨tree, htree, fun node hmem => ?_, start, ?_, ?_⟩
          · apply hnodes
            apply List.mem_append_right
            rwa [htop.word_tree, ← List.length_append]
          · rw [List.length_append]
            omega
          · rwa [List.length_append, Nat.add_assoc, ← List.length_append]

variable [DecidableEq τ] [DecidableEq ν] [DecidableEq π] {table : Table τ ν π} {rank : ν → Nat}
  {empty : List ν} {first : List (ν × τ)} {follow : List (ν × Option τ)}

omit [DecidableEq τ] [DecidableEq ν] [DecidableEq π] hproductive hall in
/-- A symbol that cannot be empty has tokens. -/
theorem Derives.ne_nil [DecidableEq ν] (hsat : Saturated g empty first follow) {x : Symbol τ ν}
    (hx : Grammar.allIn empty [x] = false) {meaning : Carrier a.Token a.Meaning x}
    {word : List a.Token} (hderives : Derives a x meaning word) : word ≠ [] := by
  rintro rfl
  have hempty : Grammar.allIn empty [x] = true := hderives.heads hsat
  rw [hx] at hempty
  contradiction

/-- Where a production stands midway, the tokens read so far go on to a word in whose
tree a node of its rule begins before their end and ends behind it. -/
theorem Stack.Traced.exists_open_node (hground : Grounded g table rank)
    (hsat : Saturated g empty first follow)
    (hsolid : ∀ p, ∀ x ∈ g.rhs p, Grammar.allIn empty [x] = false) {stack : Stack a}
    (htraced : Stack.Traced table stack) {word : List a.Token} (hspans : Stack.Spans stack word)
    {p : π} {read : Nat} (hmidway : table.Midway g stack.top p read) :
    ∃ kinds : List τ, ∀ tail : List a.Token, tail.map a.kind = kinds →
      ∃ tree, Derives (trees a) (.rule g.start) tree (word ++ tail) ∧
        ∃ node ∈ tree.nodes 0, node.rule = g.lhs p ∧ node.start < word.length ∧
          word.length < node.stop := by
  obtain ⟨before, y, x, rest, hrhs, hfinishes⟩ := hmidway.exists_split
  cases htraced with
  | nil => exact absurd hfinishes (by simp [Stack.top, hground.initial p before y _ hrhs])
  | @cons frame below hbelow hedge =>
      obtain rfl := hground.passed _ _ _ hedge p before y _ hrhs hfinishes
      have hawaits : Stack.Awaits below p (frame.symbol :: x :: rest) :=
        hbelow.awaits hground hrhs ((Table.finishes_cons hedge p _).trans hfinishes)
      cases hspans with
      | @cons _ _ word last hspans hframe =>
          obtain ⟨ending, hending⟩ := hawaits.exists_tree hproductive hall hspans
          obtain ⟨top, htop⟩ := hframe.exists_tree
          obtain ⟨kinds, hkinds⟩ := hproductive.exists_yields (trees a) (x :: rest)
          refine ⟨kinds ++ ending, fun tail htail => ?_⟩
          obtain ⟨left, right, rfl, hleft, hright⟩ := List.map_eq_append_iff.mp htail
          obtain ⟨parts, hparts⟩ := hkinds left hleft
          obtain ⟨tree, htree, -, start, hstart, hnode⟩ :=
            hending _ _ (.cons htop hparts) right hright
          -- Neither the symbol just passed nor the missing one is empty.
          have hlast : 0 < last.length :=
            List.length_pos_iff.mpr (hframe.ne_nil hsat (hsolid p _ (by simp [hrhs])))
          have hmissing : 0 < left.length := by
            cases hparts with
            | cons hx _ =>
                have hsome := hx.ne_nil hsat (hsolid p x (by simp [hrhs]))
                rw [List.length_append]
                exact Nat.add_pos_left (List.length_pos_iff.mpr hsome) _
          rw [List.append_assoc, ← List.append_assoc last]
          refine ⟨tree, htree, _, hnode, rfl, ?_⟩
          simp only [List.length_append]
          omega

end Awaits

end Blockscript.Lr
