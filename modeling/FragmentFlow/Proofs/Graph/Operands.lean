import FragmentFlow.Proofs.Graph.Order

/-!
# Where operands stand

Control comes to a node that uses values only from where they were evaluated.  The
right operand of an operator and the branches of a conditional are drawn as intervals
that control enters from the left operand or the condition.  All operands therefore come
before the node that uses them in reverse postorder, also inside loops.
-/

namespace FragmentFlow.Graph

variable {graph : Graph} {id low high source : Nat} {node : Node} {kind : EdgeKind}

/-- The operands of a node fit the edges at which it was drawn. -/
theorem WellDrawn.shaped (well : graph.WellDrawn) (found : graph.nodes[id]? = some node)
    (uses : node.action.usesOperands = true) :
    ∃ tips, graph.toBuilder.Shape node.action node.operands tips ∧
      ∀ source kind, ⟨source, id, kind⟩ ∈ graph.edges ↔ ⟨source, kind⟩ ∈ tips := by
  have shaped := Builder.Drawn.shaped well.drawn (bare?_toBuilder found) uses
  exact shaped

/-- The entry does nothing but enter. -/
theorem WellDrawn.entry_plain (well : graph.WellDrawn)
    (found : graph.nodes[Graph.entry]? = some node) : node.action = .entry := by
  exact congrArg Node.action (Option.some.inj ((bare?_toBuilder found).symm.trans well.entry))

/-- Edges to a node with a value come from smaller numbers. -/
theorem WellDrawn.source_lt_of_valued (well : graph.WellDrawn) {edge : Edge}
    (drawn : edge ∈ graph.edges) (valued : graph.toBuilder.Valued edge.target) :
    edge.source < edge.target :=
  (Builder.Drawn.source_lt_target well.drawn drawn).resolve_right valued.not_joins

/-! ### Sealed intervals -/

section Sealed

variable {origin start last : Nat} {nodes : List Nat}

/-- A path into a sealed interval passes its origin or starts inside. -/
theorem Path.origin_mem (well : graph.WellDrawn) (path : graph.Path start nodes last)
    (isSealed : graph.toBuilder.Sealed low high origin kind) (above : low < last)
    (below : last ≤ high) :
    origin ∈ start :: nodes ∨ (low < start ∧ start ≤ high ∧ start ≤ last) := by
  induction path with
  | stay => exact Or.inr ⟨above, below, Nat.le_refl _⟩
  | step path leaving ih =>
      obtain ⟨drawn, rfl⟩ := well.mem_successors.1 leaving
      rw [← List.cons_append]
      rcases isSealed.entered _ drawn above below with ⟨inside, stays⟩ | ⟨rfl, -⟩
      · have upward := well.source_lt_of_valued drawn (isSealed.valued _ above below)
        rcases ih inside stays with passed | ⟨from_low, to_high, before⟩
        · exact Or.inl (List.mem_append_left _ passed)
        · exact Or.inr ⟨from_low, to_high, by omega⟩
      · exact Or.inl (List.mem_append_left _ path.last_mem)

/-- The origin of a sealed interval dominates its nodes. -/
theorem dominates_of_sealed (well : graph.WellDrawn)
    (isSealed : graph.toBuilder.Sealed low high origin kind) (above : low < id)
    (below : id ≤ high) : graph.Dominates origin id := fun _ path =>
  (path.origin_mem well isSealed above below).resolve_right fun inside =>
    Nat.not_lt_zero low inside.1

theorem Path.mem_of_ne (path : graph.Path start nodes last) (different : last ≠ start) :
    last ∈ nodes :=
  (List.mem_cons.1 path.last_mem).resolve_left different

/-- An edge leads to a later node if some node dominates its target and stands on every
path back. -/
theorem rank_lt_of_dominates (well : graph.WellDrawn) {edge : Edge} (drawn : edge ∈ graph.edges)
    (reaches : graph.Reaches edge.source) (before : graph.Dominates origin edge.target)
    (after : ∀ nodes, graph.Path edge.target nodes edge.source → origin ∈ nodes) :
    graph.rank edge.source < graph.rank edge.target := by
  refine (rank_lt_or_retreats well drawn reaches).resolve_right ?_
  rintro ⟨nodes, path, distinct, member⟩
  obtain ⟨first, rest, rfl, toTarget, back⟩ := path.split member
  rw [← List.cons_append] at distinct
  exact List.disjoint_of_nodup_append distinct (before first toTarget) (after rest back)

/-- Edges into a sealed interval and inside it lead to later nodes. -/
theorem rank_lt_of_sealed (well : graph.WellDrawn)
    (isSealed : graph.toBuilder.Sealed low high origin kind) (outside : origin ≤ low) {edge : Edge}
    (drawn : edge ∈ graph.edges) (reaches : graph.Reaches edge.source) (above : low < edge.target)
    (below : edge.target ≤ high) : graph.rank edge.source < graph.rank edge.target := by
  apply rank_lt_of_dominates well drawn reaches (dominates_of_sealed well isSealed above below)
  intro nodes back
  have notOrigin : origin ≠ edge.target := by omega
  rcases isSealed.entered edge drawn above below with ⟨inside, stays⟩ | ⟨isOrigin, -⟩
  · have upward := well.source_lt_of_valued drawn (isSealed.valued _ above below)
    rcases back.origin_mem well isSealed inside stays with passed | ⟨-, -, before⟩
    · exact (List.mem_cons.1 passed).resolve_left notOrigin
    · omega
  · subst isOrigin
    exact back.mem_of_ne notOrigin

/-- Inside a sealed span nodes come behind its origin. -/
theorem rank_origin_lt (well : graph.WellDrawn)
    (isSealed : graph.toBuilder.Sealed low high origin kind) (outside : origin ≤ low)
    (reaches : graph.Reaches id) (above : low < id) (below : id ≤ high) :
    graph.rank origin < graph.rank id := by
  obtain ⟨nodes, path⟩ := reaches
  induction path with
  | stay => exact absurd above (Nat.not_lt_zero low)
  | step path leaving ih =>
      obtain ⟨drawn, rfl⟩ := well.mem_successors.1 leaving
      have next := rank_lt_of_sealed well isSealed outside drawn ⟨_, path⟩ above below
      rcases isSealed.entered _ drawn above below with ⟨inside, stays⟩ | ⟨rfl, -⟩
      · exact Nat.lt_trans (ih inside stays) next
      · exact next

/-- Control can come to all of a sealed interval from its origin. -/
theorem Reaches.inside (well : graph.WellDrawn)
    (isSealed : graph.toBuilder.Sealed low high origin kind) (reaches : graph.Reaches origin)
    (above : low < id) (below : id ≤ high) : graph.Reaches id := by
  induction id using Nat.strongRecOn with
  | ind id ih =>
      obtain ⟨edge, drawn, rfl⟩ := isSealed.linked id above below
      have leaving := well.mem_successors.2 ⟨drawn, rfl⟩
      rcases isSealed.entered edge drawn above below with ⟨inside, stays⟩ | ⟨isOrigin, -⟩
      · have upward := well.source_lt_of_valued drawn (isSealed.valued _ above below)
        exact (ih edge.source upward inside stays).step leaving
      · exact (isOrigin ▸ reaches : graph.Reaches edge.source).step leaving

end Sealed

/-! ### Operands -/

/-- Edges to a node with operands come from smaller numbers. -/
theorem WellDrawn.source_lt_of_uses (well : graph.WellDrawn)
    (found : graph.nodes[id]? = some node) (uses : node.action.usesOperands = true)
    (drawn : ⟨source, id, kind⟩ ∈ graph.edges) : source < id := by
  refine (Builder.Drawn.source_lt_target well.drawn drawn).resolve_right ?_
  rintro ⟨bare, present, joins⟩
  rw [Builder.bare?, toBuilder, found] at present
  cases present
  have notJoin : node.bare.action.isJoin = false := Action.isJoin_of_usesOperands uses
  rw [notJoin] at joins
  cases joins

/-- A path back into a sealed interval from behind it passes its origin. -/
theorem Path.origin_mem_back (well : graph.WellDrawn) {origin last : Nat} {nodes : List Nat}
    (path : graph.Path id nodes last) (isSealed : graph.toBuilder.Sealed low high origin kind)
    (outside : origin ≤ low) (above : low < last) (below : last ≤ high) (behind : last < id) :
    origin ∈ nodes := by
  rcases path.origin_mem well isSealed above below with passed | ⟨-, -, before⟩
  · exact (List.mem_cons.1 passed).resolve_left (by omega)
  · omega

/-- The ways in which an operand comes to a node: it stands right before the node, at the
end of an interval whose origin dominates the node, or at such an origin. -/
inductive Placed (graph : Graph) (id operand : Nat) : Prop
  | next {kind : EdgeKind} :
      ⟨operand, id, kind⟩ ∈ graph.edges → graph.Dominates operand id → Placed graph id operand
  | inside {low origin : Nat} {kind way : EdgeKind} :
      ⟨operand, id, way⟩ ∈ graph.edges → graph.Dominates origin id →
        graph.toBuilder.Sealed low operand origin kind → origin ≤ low → low < operand →
          Placed graph id operand
  | origin {low high : Nat} {kind way : EdgeKind} :
      ⟨high, id, way⟩ ∈ graph.edges → graph.Dominates operand id →
        graph.toBuilder.Sealed low high operand kind → operand ≤ low → low < high →
          Placed graph id operand

/-- The operands of a node evaluate expressions and have their places. -/
theorem operands_placed (well : graph.WellDrawn) (found : graph.nodes[id]? = some node)
    (uses : node.action.usesOperands = true) :
    ∀ operand ∈ node.operands, graph.toBuilder.Valued operand ∧ graph.Placed id operand := by
  have notEntry : id ≠ Graph.entry := by
    rintro rfl
    rw [well.entry_plain found] at uses
    cases uses
  obtain ⟨tips, shape, entered⟩ := well.shaped found uses
  have dominates : ∀ {origin : Nat},
      (∀ source kind, ⟨source, kind⟩ ∈ tips → graph.Dominates origin source) →
        graph.Dominates origin id := fun last =>
    .of_last well notEntry fun source kind drawn => last source kind ((entered source kind).1 drawn)
  have drawn : ∀ {source kind}, ⟨source, kind⟩ ∈ tips → ⟨source, id, kind⟩ ∈ graph.edges :=
    (entered _ _).2
  generalize node.action = action, node.operands = operands at shape uses
  cases shape with
  | plain unused =>
      rw [unused] at uses
      cases uses
  | bare => exact nofun
  | @one action operand _ valued =>
      have operandDominates : graph.Dominates operand id := dominates fun source kind tip => by
        cases List.mem_singleton.1 tip
        exact .self graph operand
      intro other member
      cases List.mem_singleton.1 member
      exact ⟨valued, .next (drawn List.mem_cons_self) operandDominates⟩
  | @strict op left right _ less valued isSealed =>
      have leftDominates : graph.Dominates left id := dominates fun source kind tip => by
        cases List.mem_singleton.1 tip
        exact dominates_of_sealed well isSealed less (Nat.le_refl _)
      have last := drawn List.mem_cons_self
      intro other member
      rcases List.mem_cons.1 member with rfl | isRight
      · exact ⟨valued, .origin last leftDominates isSealed (Nat.le_refl _) less⟩
      · cases List.mem_singleton.1 isRight
        exact ⟨isSealed.valued right less (Nat.le_refl _),
          .inside last leftDominates isSealed (Nat.le_refl _) less⟩
  | @shortCircuit op left right _ less valued isSealed =>
      have leftDominates : graph.Dominates left id := dominates fun source kind tip => by
        rcases List.mem_cons.1 tip with isRight | isLeft
        · cases isRight
          exact dominates_of_sealed well isSealed less (Nat.le_refl _)
        · cases List.mem_singleton.1 isLeft
          exact .self graph left
      intro other member
      rcases List.mem_cons.1 member with rfl | isRight
      · exact ⟨valued, .next (drawn (List.mem_cons_of_mem _ List.mem_cons_self)) leftDominates⟩
      · cases List.mem_singleton.1 isRight
        exact ⟨isSealed.valued right less (Nat.le_refl _),
          .inside (drawn List.mem_cons_self) leftDominates isSealed (Nat.le_refl _) less⟩
  | @conditional test first second less more valued whenTrue whenFalse =>
      have testDominates : graph.Dominates test id := dominates fun source kind tip => by
        rcases List.mem_cons.1 tip with isFirst | isSecond
        · cases isFirst
          exact dominates_of_sealed well whenTrue less (Nat.le_refl _)
        · cases List.mem_singleton.1 isSecond
          exact dominates_of_sealed well whenFalse more (Nat.le_refl _)
      have firstDrawn := drawn List.mem_cons_self
      intro other member
      rcases List.mem_cons.1 member with rfl | isBranch
      · exact ⟨valued, .origin firstDrawn testDominates whenTrue (Nat.le_refl _) less⟩
      · rcases List.mem_cons.1 isBranch with rfl | isSecond
        · exact ⟨whenTrue.valued other less (Nat.le_refl _),
            .inside firstDrawn testDominates whenTrue (Nat.le_refl _) less⟩
        · cases List.mem_singleton.1 isSecond
          exact ⟨whenFalse.valued second more (Nat.le_refl _),
            .inside (drawn (List.mem_cons_of_mem _ List.mem_cons_self)) testDominates whenFalse
              (Nat.le_of_lt less) more⟩

/-- Control that reaches a node has passed its operands. -/
theorem Placed.reaches (well : graph.WellDrawn) {operand : Nat} (placed : graph.Placed id operand)
    (reaches : graph.Reaches id) : graph.Reaches operand := by
  cases placed with
  | next _ dominates => exact dominates.reaches reaches
  | inside _ dominates isSealed _ less =>
      exact (dominates.reaches reaches).inside well isSealed less (Nat.le_refl _)
  | origin _ dominates _ _ _ => exact dominates.reaches reaches

/-- The operands of a node that control can reach come before it. -/
theorem rank_operand_lt (well : graph.WellDrawn) (found : graph.nodes[id]? = some node)
    (uses : node.action.usesOperands = true) (reaches : graph.Reaches id) {operand : Nat}
    (member : operand ∈ node.operands) : graph.rank operand < graph.rank id := by
  obtain ⟨-, placed⟩ := operands_placed well found uses operand member
  have reached := placed.reaches well reaches
  have inside : ∀ {low high origin : Nat} {kind way : EdgeKind},
      ⟨high, id, way⟩ ∈ graph.edges → graph.Dominates origin id →
        graph.toBuilder.Sealed low high origin kind → origin ≤ low → low < high →
          graph.Reaches high → graph.rank high < graph.rank id := by
    intro low high origin kind way drawn dominates isSealed outside less reachesHigh
    refine rank_lt_of_dominates well drawn reachesHigh dominates fun nodes back => ?_
    exact back.origin_mem_back well isSealed outside less (Nat.le_refl _)
      (well.source_lt_of_uses found uses drawn)
  cases placed with
  | next drawn dominates =>
      refine rank_lt_of_dominates well drawn reached dominates fun nodes back => ?_
      exact back.mem_of_ne (Nat.ne_of_lt (well.source_lt_of_uses found uses drawn))
  | inside drawn dominates isSealed outside less =>
      exact inside drawn dominates isSealed outside less reached
  | @origin low high _ _ drawn dominates isSealed outside less =>
      have reachesHigh := reached.inside well isSealed less (Nat.le_refl high)
      exact Nat.lt_trans (rank_origin_lt well isSealed outside reachesHigh less (Nat.le_refl _))
        (inside drawn dominates isSealed outside less reachesHigh)

/-- The operand after whose evaluation further ones are evaluated before the node. -/
def Node.early? (node : Node) : Option Nat :=
  match node.action with
  | .binary op => if op.isShortCircuit then none else node.operands.head?
  | .conditional => node.operands.head?
  | _ => none

/-- Strict operators and conditionals have early operands. -/
theorem early_cases (well : graph.WellDrawn) (found : graph.nodes[id]? = some node) {early : Nat}
    (isEarly : node.early? = some early) :
    (∃ op right, node.action = .binary op ∧ op.isShortCircuit = false ∧
      node.operands = [early, right]) ∨
    ∃ first second, node.action = .conditional ∧ node.operands = [early, first, second] := by
  have uses : node.action.usesOperands = true := by
    unfold Node.early? at isEarly
    cases action : node.action <;> rw [action] at isEarly <;> first | rfl | cases isEarly
  obtain ⟨tips, shape, -⟩ := well.shaped found uses
  unfold Node.early? at isEarly
  generalize node.action = action, node.operands = operands at *
  cases shape with
  | plain unused =>
      rw [unused] at uses
      cases uses
  | bare => cases isEarly
  | one usesOne _ => cases action <;> cases usesOne <;> cases isEarly
  | @strict op _ right isStrict _ _ _ =>
      dsimp only at isEarly
      rw [isStrict] at isEarly
      cases isEarly
      exact Or.inl ⟨op, right, rfl, isStrict, rfl⟩
  | shortCircuit isShort _ _ _ =>
      dsimp only at isEarly
      rw [isShort] at isEarly
      cases isEarly
  | @conditional _ first second _ _ _ _ _ =>
      cases isEarly
      exact Or.inr ⟨first, second, rfl, rfl⟩

/-- An early operand is one of the operands. -/
theorem early_mem (well : graph.WellDrawn) (found : graph.nodes[id]? = some node) {early : Nat}
    (isEarly : node.early? = some early) :
    node.action.usesOperands = true ∧ early ∈ node.operands := by
  rcases early_cases well found isEarly with ⟨op, right, action, -, operands⟩ |
    ⟨first, second, action, operands⟩
  · rw [action, operands]
    exact ⟨rfl, List.mem_cons_self⟩
  · rw [action, operands]
    exact ⟨rfl, List.mem_cons_self⟩

/-- All operands but the early one stand right before the node. -/
theorem operand_next_or_early (well : graph.WellDrawn) (found : graph.nodes[id]? = some node)
    (uses : node.action.usesOperands = true) :
    ∀ operand ∈ node.operands, (∃ kind, ⟨operand, id, kind⟩ ∈ graph.edges) ∨
      node.early? = some operand := by
  obtain ⟨tips, shape, entered⟩ := well.shaped found uses
  have next : ∀ {operand kind}, ⟨operand, kind⟩ ∈ tips →
      ∃ kind, ⟨operand, id, kind⟩ ∈ graph.edges :=
    fun tip => ⟨_, (entered _ _).2 tip⟩
  unfold Node.early?
  generalize node.action = action, node.operands = operands at shape uses
  cases shape with
  | plain unused =>
      rw [unused] at uses
      cases uses
  | bare => exact nofun
  | one _ _ =>
      intro operand member
      cases List.mem_singleton.1 member
      exact Or.inl (next List.mem_cons_self)
  | strict isStrict _ _ _ =>
      intro operand member
      rcases List.mem_cons.1 member with rfl | isRight
      · exact Or.inr (by simp [isStrict])
      · cases List.mem_singleton.1 isRight
        exact Or.inl (next List.mem_cons_self)
  | shortCircuit _ _ _ _ =>
      intro operand member
      rcases List.mem_cons.1 member with rfl | isRight
      · exact Or.inl (next (List.mem_cons_of_mem _ List.mem_cons_self))
      · cases List.mem_singleton.1 isRight
        exact Or.inl (next List.mem_cons_self)
  | conditional _ _ _ _ _ =>
      intro operand member
      rcases List.mem_cons.1 member with rfl | isBranch
      · exact Or.inr rfl
      · rcases List.mem_cons.1 isBranch with rfl | isSecond
        · exact Or.inl (next List.mem_cons_self)
        · cases List.mem_singleton.1 isSecond
          exact Or.inl (next (List.mem_cons_of_mem _ List.mem_cons_self))

end FragmentFlow.Graph
