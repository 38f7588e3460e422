import FragmentFlow.Proofs.Copies.Fragments
import FragmentFlow.Proofs.Graph.Names

/-!
# Declarations and uses of a fragment

The names that a graph declares and uses are those that its fragment declares and uses,
wherever control comes, and those of a nested lambda are not among them.  So the free names
of a graph are told by the code: they are used and nowhere declared.  Scopes play no part in
this, a declaration in one block counts for all others.
-/

namespace FragmentFlow

namespace Tree.Node

/-- The variable that a node declares. -/
def declares? : Node → Option String
  | .stmt (.localDecl _ name _ _) => some name
  | .catchClause clause => some clause.name
  | .field decl => some decl.name
  | _ => none

/-- The variable that a node reads or assigns. -/
def uses? : Node → Option String
  | .expr (.ident _ name) | .expr (.assign _ name _) => some name
  | _ => none

variable {node : Node} {action : Graph.Action} {name : String}

/-- The action of a node declares what the node declares. -/
theorem declared?_of_action (acts : node.action? = some action) :
    action.declared? = node.declares? := by
  cases node with
  | stmt inner => cases inner <;> cases acts <;> rfl
  | expr inner => cases inner <;> cases acts <;> rfl
  | _ => cases acts <;> rfl

/-- The action of a node uses what the node uses. -/
theorem used?_of_action (acts : node.action? = some action) : action.used? = node.uses? := by
  cases node with
  | stmt inner => cases inner <;> cases acts <;> rfl
  | expr inner => cases inner <;> cases acts <;> rfl
  | _ => cases acts <;> rfl

/-- Nodes that declare or use a variable are evaluated. -/
theorem isEvaluated_of_names (mentions : node.declares? = some name ∨ node.uses? = some name) :
    node.isEvaluated = true := by
  cases node with
  | stmt inner => cases inner <;> first | rfl | (rcases mentions with ⟨⟨⟩⟩ | ⟨⟨⟩⟩)
  | catchClause clause => rfl
  | expr inner => rfl
  | field decl => rfl
  | _ => rcases mentions with ⟨⟨⟩⟩ | ⟨⟨⟩⟩

end Tree.Node

namespace Fragment

/-- Whether a fragment declares a variable, as a parameter or anywhere outside nested
lambdas. -/
def declares (fragment : Fragment) (name : String) : Bool :=
  fragment.code.parameters.contains name ||
    fragment.parts.any fun node => node.declares? == some name

/-- Whether a fragment reads or assigns a variable outside nested lambdas. -/
def uses (fragment : Fragment) (name : String) : Bool :=
  fragment.parts.any fun node => node.uses? == some name

variable {fragment : Fragment} {name : String}

theorem declares_iff : fragment.declares name = true ↔ name ∈ fragment.code.parameters ∨
    ∃ node ∈ fragment.parts, node.declares? = some name := by
  simp only [declares, Bool.or_eq_true, List.contains_iff_mem, List.any_eq_true, beq_iff_eq]

theorem uses_iff : fragment.uses name = true ↔
    ∃ node ∈ fragment.parts, node.uses? = some name := by
  simp only [uses, List.any_eq_true, beq_iff_eq]

end Fragment

namespace Graph

variable {b later : Builder} {names : List String} {name : String}

/-- A node without a part of the tree uses nothing. -/
theorem Action.used?_of_isImplicit {action : Action} (implicit : action.isImplicit names = true) :
    action.used? = none := by
  cases action <;> first | rfl | cases implicit

/-- Among the nodes that stand for nothing in the tree, only parameters declare a name. -/
theorem Action.mem_of_isImplicit {action : Action} (implicit : action.isImplicit names = true)
    (declares : action.declared? = some name) : name ∈ names := by
  cases action with
  | param other =>
      cases declares
      exact List.contains_iff_mem.1 implicit
  | decl _ => cases implicit
  | catchParam _ _ => cases implicit
  | _ => cases declares

/-! ### Parameters are drawn -/

namespace Builder

/-- Some node binds a parameter. -/
def BindsParam (b : Builder) (name : String) : Prop :=
  ∃ id node, b.bare? id = some node ∧ node.action = .param name

/-- A bound parameter stays bound. -/
theorem BindsParam.grow (binds : b.BindsParam name) (grows : Grows b later) :
    later.BindsParam name := by
  obtain ⟨id, node, found, isParam⟩ := binds
  exact ⟨id, node, grows.nodes id node found, isParam⟩

/-- Parameters are bound. -/
theorem bindsParam_params (b : Builder) (member : name ∈ names) :
    (b.params names).BindsParam name := by
  induction names generalizing b with
  | nil => cases member
  | cons first names ih =>
      rcases List.mem_cons.1 member with rfl | later
      · have bound : (b.push (.implicit (.param name) [])).2.BindsParam name :=
          ⟨_, _, bare?_push_self b _, rfl⟩
        exact bound.grow (Extends.params _ names).grows
      · exact ih _ later

/-- Parameters with types are bound. -/
theorem bindsParam_typedParams (b : Builder) {list : List Source.Param}
    (member : name ∈ list.map Source.Param.name) :
    (list.foldl (fun b param => (b.mention param.ty).params [param.name]) b).BindsParam name := by
  induction list generalizing b with
  | nil => cases member
  | cons param list ih =>
      rcases List.mem_cons.1 member with rfl | later
      · have bound : ((b.mention param.ty).params [param.name]).BindsParam param.name :=
          bindsParam_params _ List.mem_cons_self
        exact bound.grow (Extends.typedParams _ list).grows
      · exact ih _ later

/-- The code of a fragment binds its parameters. -/
theorem bindsParam_code (b : Builder) {code : Fragment.Code} (member : name ∈ code.parameters) :
    (b.code code).BindsParam name := by
  match code with
  | .method decl =>
      have bound := bindsParam_typedParams b member
      rw [Builder.code]
      cases decl.body with
      | none => exact bound
      | some body => exact bound.grow (Extends.stmts [] false _ body.stmts).grows
  | .lambda id names (.block body) =>
      exact (bindsParam_params b member).grow (Extends.stmts [] false _ body.stmts).grows
  | .lambda id names (.value result) =>
      have bound : (b.params names).BindsParam name := bindsParam_params b member
      exact ((bound.grow (Extends.expr [] false _ result).grows).grow (.push _ _)).grow
        (Extends.jump _ _ _).grows
  | .initializer _ => cases member
  | .fieldInitializer _ _ => cases member

end Builder

/-! ### The names of a built graph -/

section Built

variable {unit : Source.CompilationUnit} {serial : Nat} {fragment : Fragment} {env : Environment}
  {graph : Graph}

/-- Each evaluated part of a fragment is carried out somewhere. -/
theorem exists_enacting (member : fragment ∈ (Tree.ofUnit unit serial).fragments)
    (built : ofFragment fragment env = .ok graph) {part : Tree.Node}
    (isPart : part ∈ fragment.parts) (evaluated : part.isEvaluated = true) :
    ∃ (id : Nat) (node : Node), graph.nodes[id]? = some node ∧
      part.action? = some node.action := by
  obtain ⟨id, isDrawing⟩ := shows_draw isPart evaluated
  obtain ⟨bare, present, shown⟩ := Builder.mem_nodesWhere.1 isDrawing
  obtain ⟨isTree, -⟩ := Node.isDrawing_iff.1 shown
  obtain ⟨node, found, rfl⟩ : ∃ node : Node, graph.nodes[id]? = some node ∧
      node.bare = bare := by
    obtain ⟨-, rfl⟩ := eq_finish_of_ofFragment built
    have kept : ((draw fragment).finish fragment.name).toBuilder.bare? id = some bare :=
      Builder.grows_finish.nodes id bare present
    exact Option.map_eq_some_iff.1 kept
  rcases enacts_of_ofFragment built found with ⟨absent, -⟩ | ⟨inner, isInner, same, acts⟩
  · cases absent.symm.trans isTree
  · have sameId : inner.id = part.id := Option.some.inj (same.symm.trans isTree)
    cases (Fragment.collection member).eq_of_id inner isInner part isPart sameId
    exact ⟨id, node, found, acts⟩

theorem exists_declared_iff (member : fragment ∈ (Tree.ofUnit unit serial).fragments)
    (built : ofFragment fragment env = .ok graph) :
    (∃ (id : Nat) (node : Node), graph.nodes[id]? = some node ∧
      node.action.declared? = some name) ↔ fragment.declares name = true := by
  rw [Fragment.declares_iff]
  constructor
  · rintro ⟨id, node, found, declares⟩
    rcases enacts_of_ofFragment built found with ⟨-, implicit⟩ | ⟨inner, isPart, -, acts⟩
    · exact Or.inl (Action.mem_of_isImplicit implicit declares)
    · exact Or.inr ⟨inner, isPart, (Tree.Node.declared?_of_action acts).symm.trans declares⟩
  · rintro (isParam | ⟨part, isPart, declares⟩)
    · obtain ⟨-, rfl⟩ := eq_finish_of_ofFragment built
      have bound : ((draw fragment).finish fragment.name).toBuilder.BindsParam name :=
        (Builder.bindsParam_code Builder.start isParam).grow Builder.grows_finish
      obtain ⟨id, bare, present, action⟩ := bound
      obtain ⟨node, found, rfl⟩ := Option.map_eq_some_iff.1 present
      have isAction : node.action = .param name := action
      exact ⟨id, node, found, by rw [isAction]; rfl⟩
    · obtain ⟨id, node, found, acts⟩ := exists_enacting member built isPart
        (Tree.Node.isEvaluated_of_names (Or.inl declares))
      exact ⟨id, node, found, (Tree.Node.declared?_of_action acts).trans declares⟩

theorem exists_used_iff (member : fragment ∈ (Tree.ofUnit unit serial).fragments)
    (built : ofFragment fragment env = .ok graph) :
    (∃ (id : Nat) (node : Node), graph.nodes[id]? = some node ∧
      node.action.used? = some name) ↔ fragment.uses name = true := by
  rw [Fragment.uses_iff]
  constructor
  · rintro ⟨id, node, found, uses⟩
    rcases enacts_of_ofFragment built found with ⟨-, implicit⟩ | ⟨inner, isPart, -, acts⟩
    · rw [Action.used?_of_isImplicit implicit] at uses
      cases uses
    · exact ⟨inner, isPart, (Tree.Node.used?_of_action acts).symm.trans uses⟩
  · rintro ⟨part, isPart, uses⟩
    obtain ⟨id, node, found, acts⟩ := exists_enacting member built isPart
      (Tree.Node.isEvaluated_of_names (Or.inr uses))
    exact ⟨id, node, found, (Tree.Node.used?_of_action acts).trans uses⟩

/-- The free names of a graph are those that the fragment uses and nowhere declares. -/
theorem mem_freeNames_iff (member : fragment ∈ (Tree.ofUnit unit serial).fragments)
    (built : ofFragment fragment env = .ok graph) :
    name ∈ graph.freeNames.names ↔
      fragment.uses name = true ∧ fragment.declares name = false := by
  rw [mem_freeNames (wellDrawn_of_ofFragment built), exists_used_iff member built,
    exists_declared_iff member built, Bool.not_eq_true]

end Built

end Graph

end FragmentFlow
