import FragmentFlow.Proofs.Tree.Shape

/-!
# The fragment a node belongs to

The nodes of a fragment are found downwards from its body, the fragment around a
position is found upwards from the position.  Both agree: a node of a fragment lies in no
other one, and the fragment around a node has it among its nodes, unless the node is the
method or field itself or lies in an annotation of the method.
-/

namespace FragmentFlow

open FragmentFlow.Tree (Node Path)

/-- Whether a node is part of what is evaluated: a statement, a catch clause or an
expression. -/
def Tree.Node.isCode : Node → Bool
  | .stmt _ | .catchClause _ | .expr _ => true
  | _ => false

/-- Parts of code are code. -/
theorem Tree.Node.isCode_of_child {node child : Node} (isCode : node.isCode = true)
    (isChild : child ∈ node.children) : child.isCode = true := by
  have all : node.children.all Node.isCode = true := by
    cases node with
    | stmt inner =>
        cases inner <;> simp [Node.children, Tree.Stmt.children, Tree.Block.toNode, Node.isCode]
    | catchClause clause => simp [Node.children, Tree.Block.toNode, Node.isCode]
    | expr inner =>
        cases inner with
        | lambda id params body => cases body <;> rfl
        | _ => simp [Node.children, Tree.Expr.children, Node.isCode]
    | _ => cases isCode
  exact List.all_eq_true.1 all child isChild

theorem Tree.Node.mem_ownNodes_of_child {node parent child : Node}
    (isOwn : parent ∈ node.ownNodes) (notLambda : parent.isLambda = false)
    (isChild : child ∈ parent.children) : child ∈ node.ownNodes := by
  induction node using Node.induction with
  | step node ih =>
      rcases Node.mem_ownNodes.1 isOwn with rfl | ⟨outside, next, isNext, below⟩
      · exact Node.mem_ownNodes.2
          (Or.inr ⟨notLambda, child, isChild, Node.mem_ownNodes.2 (Or.inl rfl)⟩)
      · exact Node.mem_ownNodes.2 (Or.inr ⟨outside, next, isNext, ih next isNext below⟩)

namespace Fragment

/-! ### Downwards -/

/-- The fragments are at those paths that have one. -/
theorem map_path_fragments (tree : Tree) :
    tree.fragments.map Fragment.path =
      tree.paths.filter fun path => (ofPath? path).isSome := by
  have kept : (fun path => (ofPath? path).map Fragment.path) =
      Option.guard fun path => (ofPath? path).isSome := by
    funext path
    cases found : classify path.leaf path.above.head? <;> simp [ofPath?, Option.guard, found]
  rw [Tree.fragments, List.map_filterMap, kept, List.filterMap_eq_filter]

/-- The roots of fragments are in preorder. -/
theorem roots_sublist (tree : Tree) :
    (tree.fragments.map Fragment.root).Sublist (tree.preorder.map Node.id) := by
  have paths : (tree.fragments.map Fragment.path).Sublist tree.paths := by
    rw [map_path_fragments]
    exact List.filter_sublist
  have ids := paths.map fun path => path.leaf.id
  rw [List.map_map] at ids
  rw [Tree.preorder, ← Node.map_leaf_paths tree [], List.map_map]
  exact ids

/-! ### Upwards -/

/-- Code inside code is no fragment unless it is a lambda. -/
theorem classifyInside_of_isCode {node parent : Node} (isCode : node.isCode = true)
    (notClass : ∀ decl, parent ≠ .classDecl decl) : classifyInside node (some parent) = none := by
  unfold classifyInside
  split
  · cases isCode
  · cases isCode
  · unfold classify
    split <;> simp_all
  · rfl

/-- Code lies in the fragment its parent lies in, unless that is a lambda. -/
theorem locateFrom_parent {tree : Tree} {node parent : Node} {above : List Node}
    (isCode : node.isCode = true) (notClass : ∀ decl, parent ≠ .classDecl decl)
    (notLambda : parent.isLambda = false) :
    locateFrom tree node (parent :: above) = locateFrom tree parent above := by
  simp only [locateFrom, classifyInside_of_isCode isCode notClass]
  split
  · cases notLambda
  · rfl

/-- The body of a fragment lies in the fragment. -/
theorem exists_path_body {tree : Tree} {fragment : Fragment} (member : fragment ∈ tree.fragments)
    {body : Node} (isBody : fragment.body? = some body) :
    ∃ above, ⟨tree, body, above⟩ ∈ tree.paths ∧ locateFrom tree body above = some fragment ∧
      body.isCode = true := by
  obtain ⟨⟨tree, leaf, above⟩, code⟩ := fragment
  obtain ⟨inPaths, isCode⟩ := mem_fragments.1 member
  cases Node.tree_of_mem_paths inPaths
  dsimp only [body?] at inPaths isCode isBody
  unfold classify at isCode
  split at isCode
  · rename_i decl
    cases isCode
    obtain ⟨block, present, rfl⟩ := Option.map_eq_some_iff.1 isBody
    have isChild : block.toNode ∈ (Node.method decl).children := by
      rw [Node.children, present]
      exact List.mem_append_right _ List.mem_cons_self
    refine ⟨_, Tree.mem_paths_cons.2 ⟨inPaths, isChild⟩, ?_, rfl⟩
    rw [locateFrom_parent rfl (by rintro _ ⟨⟩) rfl]
    cases above <;> rfl
  · rename_i id params inner
    cases isCode
    cases isBody
    refine ⟨_, Tree.mem_paths_cons.2 ⟨inPaths, List.mem_cons_self⟩, ?_, ?_⟩
    · cases inner <;> rfl
    · cases inner <;> rfl
  · rename_i block decl isParent
    cases isCode
    cases isBody
    refine ⟨above, inPaths, ?_, rfl⟩
    cases above with
    | nil => cases isParent
    | cons parent above =>
        cases isParent
        rfl
  · rename_i decl owner isParent
    obtain ⟨init, present, rfl⟩ := Option.map_eq_some_iff.1 isCode
    cases isBody
    have isChild : Node.expr init ∈ (Node.field decl).children := by
      rw [Node.children, present]
      exact List.mem_cons_self
    refine ⟨_, Tree.mem_paths_cons.2 ⟨inPaths, isChild⟩, ?_, rfl⟩
    rw [locateFrom_parent rfl (by rintro _ ⟨⟩) rfl]
    cases above with
    | nil => cases isParent
    | cons parent above =>
        cases isParent
        simp [locateFrom, classifyInside, classify, present]
  · cases isCode

/-- Code is no class. -/
theorem notClass_of_isCode {node : Node} (isCode : node.isCode = true) (decl : Tree.Class) :
    node ≠ .classDecl decl := by
  rintro rfl
  cases isCode

/-- Code that lies in a fragment and all that is evaluated with it lie in it. -/
theorem exists_path_ownNodes {tree : Tree} {fragment : Fragment} {node inner : Node}
    {above : List Node} (member : ⟨tree, node, above⟩ ∈ tree.paths) (isCode : node.isCode = true)
    (located : locateFrom tree node above = some fragment) (isOwn : inner ∈ node.ownNodes) :
    ∃ upper, ⟨tree, inner, upper⟩ ∈ tree.paths ∧
      locateFrom tree inner upper = some fragment := by
  induction node using Node.induction generalizing above with
  | step node ih =>
      rcases Node.mem_ownNodes.1 isOwn with rfl | ⟨notLambda, child, isChild, below⟩
      · exact ⟨above, member, located⟩
      · have childCode := Node.isCode_of_child isCode isChild
        have childLocated : locateFrom tree child (node :: above) = some fragment := by
          rw [locateFrom_parent childCode (notClass_of_isCode isCode) notLambda]
          exact located
        exact ih child isChild (Tree.mem_paths_cons.2 ⟨member, isChild⟩) childCode childLocated
          below

/-- There is a path to every own node of a fragment, and the fragment is found from it. -/
theorem exists_path_of_mem_nodes {tree : Tree} {fragment : Fragment}
    (member : fragment ∈ tree.fragments) {node : Node} (isNode : node ∈ fragment.nodes) :
    ∃ above, ⟨tree, node, above⟩ ∈ tree.paths ∧
      locateFrom tree node above = some fragment := by
  rw [Fragment.nodes] at isNode
  split at isNode
  · cases isNode
  · rename_i body isBody
    obtain ⟨above, inPaths, located, isCode⟩ := exists_path_body member isBody
    exact exists_path_ownNodes inPaths isCode located isNode

/-- How a node can lie in a fragment. -/
inductive Attributed (fragment : Fragment) (node : Node) : Prop where
  | own (isNode : node ∈ fragment.nodes)
  | method (decl : Tree.Method) (isCode : fragment.code = .method decl)
      (isRoot : node = fragment.path.leaf)
  | field (decl : Tree.Field) (init : Tree.Expr)
      (isCode : fragment.code = .fieldInitializer decl init) (isRoot : node = fragment.path.leaf)
  | annotated (decl : Tree.Method) (isCode : fragment.code = .method decl) (annot : Tree.Annot)
      (isAnnot : annot ∈ decl.annotations) (inside : node ∈ (Node.annot annot).preorder)

/-- A node at which the search upwards ends with a fragment lies in it. -/
theorem attributed_of_classifyInside {tree : Tree} {node : Node} {above : List Node} {code : Code}
    (found : classifyInside node above.head? = some code) :
    Attributed ⟨⟨tree, node, above⟩, code⟩ node := by
  have isCode := classify_of_classifyInside found
  unfold classify at isCode
  split at isCode
  · cases isCode
    exact .method _ rfl rfl
  · cases found
  · cases isCode
    exact .own (Node.mem_ownNodes.2 (Or.inl rfl))
  · obtain ⟨init, -, rfl⟩ := Option.map_eq_some_iff.1 isCode
    exact .field _ init rfl rfl
  · cases isCode

/-- The code of a fragment starts at its node. -/
theorem node_of_classify {node : Node} {parent : Option Node} {code : Code}
    (found : classify node parent = some code) : code.node = node := by
  unfold classify at found
  split at found
  · cases found
    rfl
  · cases found
    rfl
  · cases found
    rfl
  · obtain ⟨init, present, rfl⟩ := Option.map_eq_some_iff.1 found
    rw [Code.node, ← present]
  · cases found

/-- A fragment that is a method is found at this method. -/
theorem eq_of_classify_method {node : Node} {parent : Option Node} {decl : Tree.Method}
    (found : classify node parent = some (.method decl)) : node = .method decl :=
  (node_of_classify found).symm

/-- A fragment that is a lambda is found at this lambda. -/
theorem eq_of_classify_lambda {node : Node} {parent : Option Node} {id : Nat}
    {params : List String} {body : Tree.LambdaBody}
    (found : classify node parent = some (.lambda id params body)) :
    node = .expr (.lambda id params body) :=
  (node_of_classify found).symm

/-- A fragment that initializes a field is found at this field. -/
theorem eq_of_classify_field {node : Node} {parent : Option Node} {decl : Tree.Field}
    {init : Tree.Expr} (found : classify node parent = some (.fieldInitializer decl init)) :
    node = .field decl ∧ decl.init = some init := by
  unfold classify at found
  split at found
  · cases found
  · cases found
  · cases found
  · obtain ⟨value, present, same⟩ := Option.map_eq_some_iff.1 found
    cases same
    exact ⟨rfl, present⟩
  · cases found

theorem mem_nodes_body {fragment : Fragment} {body : Node} (isBody : fragment.body? = some body) :
    body ∈ fragment.nodes := by
  rw [Fragment.nodes, isBody]
  exact Node.mem_ownNodes.2 (Or.inl rfl)

/-- The nodes of a fragment are own nodes of its body. -/
theorem body_of_mem_nodes {fragment : Fragment} {node : Node} (isNode : node ∈ fragment.nodes) :
    ∃ body, fragment.body? = some body ∧ node ∈ body.ownNodes := by
  unfold Fragment.nodes at isNode
  split at isNode
  · cases isNode
  · rename_i body isBody
    exact ⟨body, isBody, isNode⟩

theorem mem_nodes_of_child {fragment : Fragment} {node child : Node}
    (isNode : node ∈ fragment.nodes) (outside : node.isLambda = false)
    (isChild : child ∈ node.children) : child ∈ fragment.nodes := by
  obtain ⟨body, isBody, isOwn⟩ := body_of_mem_nodes isNode
  rw [Fragment.nodes, isBody]
  exact Node.mem_ownNodes_of_child isOwn outside isChild

/-- What lies below a node of a fragment lies in the fragment, unless the node is a
lambda. -/
theorem Attributed.child {tree : Tree} {fragment : Fragment} (member : fragment ∈ tree.fragments)
    {parent node : Node} (attributed : Attributed fragment parent)
    (notLambda : parent.isLambda = false) (isChild : node ∈ parent.children) :
    Attributed fragment node := by
  cases attributed with
  | own isNode =>
      apply Attributed.own
      rw [Fragment.nodes] at isNode ⊢
      split at isNode
      · cases isNode
      · exact Node.mem_ownNodes_of_child isNode notLambda isChild
  | method decl isCode isRoot =>
      have isMethod := eq_of_classify_method (isCode ▸ (mem_fragments.1 member).2)
      rw [isRoot, isMethod, Node.children, List.mem_append] at isChild
      rcases isChild with inAnnotations | inBody
      · obtain ⟨annot, isAnnot, rfl⟩ := List.mem_map.1 inAnnotations
        exact .annotated decl isCode annot isAnnot (Node.mem_preorder_self _)
      · obtain ⟨block, present, rfl⟩ := List.mem_map.1 inBody
        refine .own (mem_nodes_body ?_)
        rw [body?, isCode, Code.body?, Option.mem_toList.1 present]
        rfl
  | field decl init isCode isRoot =>
      obtain ⟨isField, present⟩ := eq_of_classify_field (isCode ▸ (mem_fragments.1 member).2)
      rw [isRoot, isField, Node.children, present] at isChild
      cases List.mem_singleton.1 isChild
      refine .own (mem_nodes_body ?_)
      rw [body?, isCode]
      rfl
  | annotated decl isCode annot isAnnot inside =>
      have below := (Node.preorder_sublist inside).subset
        ((Node.preorder_sublist_of_child isChild).subset node.mem_preorder_self)
      exact .annotated decl isCode annot isAnnot below

/-- A node belongs to the fragment that is found from it. -/
theorem attributed_of_locateFrom {tree : Tree} {node : Node} {above : List Node}
    {fragment : Fragment} (member : ⟨tree, node, above⟩ ∈ tree.paths)
    (located : locateFrom tree node above = some fragment) : Attributed fragment node := by
  induction above generalizing node with
  | nil =>
      obtain ⟨code, found, rfl⟩ := Option.map_eq_some_iff.1 located
      exact attributed_of_classifyInside found
  | cons parent above ih =>
      obtain ⟨parentMember, isChild⟩ := Tree.mem_paths_cons.1 member
      unfold locateFrom at located
      split at located
      · rename_i code found
        cases located
        exact attributed_of_classifyInside found
      · split at located
        · cases located
          cases List.mem_singleton.1 isChild
          exact .own (mem_nodes_body rfl)
        · rename_i isOther
          have notLambda : parent.isLambda = false := by
            unfold Node.isLambda
            split
            · exact absurd rfl (isOther _ _ _)
            · rfl
          have inFragments := mem_fragments_of_locateFrom parentMember located
          exact (ih parentMember located).child inFragments notLambda isChild

/-! ### The division of a tree -/

section Numbered

variable {unit : Source.CompilationUnit} {serial : Nat} {fragment other : Fragment}

/-- The fragment around a node of a fragment is that fragment. -/
theorem locate_of_mem_nodes (member : fragment ∈ (Tree.ofUnit unit serial).fragments) {node : Node}
    (isNode : node ∈ fragment.nodes) :
    ((Tree.ofUnit unit serial).pathTo? node.id).bind locate = some fragment := by
  obtain ⟨above, inPaths, located⟩ := exists_path_of_mem_nodes member isNode
  rw [Tree.pathTo?_eq_some_iff.2 ⟨inPaths, rfl⟩]
  exact located

/-- Different fragments have no node in common. -/
theorem nodes_disjoint (member : fragment ∈ (Tree.ofUnit unit serial).fragments)
    (found : other ∈ (Tree.ofUnit unit serial).fragments) (different : fragment.root ≠ other.root) :
    (fragment.nodes.map Node.id).Disjoint (other.nodes.map Node.id) := by
  intro id inFragment inOther
  obtain ⟨node, isNode, rfl⟩ := List.mem_map.1 inFragment
  obtain ⟨twin, isTwin, same⟩ := List.mem_map.1 inOther
  have located := locate_of_mem_nodes found isTwin
  rw [same, locate_of_mem_nodes member isNode] at located
  exact different (congrArg Fragment.root (Option.some.inj located))

theorem nodup_nodes (member : fragment ∈ (Tree.ofUnit unit serial).fragments) :
    (fragment.nodes.map Node.id).Nodup := by
  rw [Fragment.nodes]
  split
  · exact List.nodup_nil
  · rename_i body isBody
    exact (nodup_ids_body member isBody).sublist (body.ownNodes_sublist.map Node.id)

/-- The fragment that is found from a node has it. -/
theorem attributed_of_locate {node : Node}
    (member : node ∈ (Tree.ofUnit unit serial).nodes)
    (located : ((Tree.ofUnit unit serial).pathTo? node.id).bind locate = some fragment) :
    fragment ∈ (Tree.ofUnit unit serial).fragments ∧ fragment.Attributed node := by
  obtain ⟨above, inPaths⟩ := Tree.exists_path member
  rw [Tree.pathTo?_eq_some_iff.2 ⟨inPaths, rfl⟩] at located
  exact ⟨mem_fragments_of_locate inPaths located, attributed_of_locateFrom inPaths located⟩

end Numbered

/-- The fragments of a tree, in the order of their roots, divide its code: no node belongs
to two of them, the fragment around each node of a fragment is that fragment, and the
fragment around any node is one of them.  That one has the node among its own, or the node
is the method or field itself, or it lies in an annotation of the method. -/
theorem fragments_partition (unit : Source.CompilationUnit) (serial : Nat) :
    let tree := Tree.ofUnit unit serial
    (tree.fragments.map Fragment.root).Sublist (tree.preorder.map Node.id) ∧
    (tree.fragments.map Fragment.root).Nodup ∧
    (tree.fragments.Pairwise fun fragment other =>
      (fragment.nodes.map Node.id).Disjoint (other.nodes.map Node.id)) ∧
    (∀ fragment ∈ tree.fragments, (fragment.nodes.map Node.id).Nodup ∧
      ∀ node ∈ fragment.nodes, (tree.pathTo? node.id).bind locate = some fragment) ∧
    ∀ node ∈ tree.nodes, ∀ fragment, (tree.pathTo? node.id).bind locate = some fragment →
      fragment ∈ tree.fragments ∧ fragment.Attributed node := by
  intro tree
  have ordered := roots_sublist tree
  have distinct := (Tree.nodup_ids_ofUnit unit serial).sublist ordered
  refine ⟨ordered, distinct, ?_, ?_, ?_⟩
  · exact (List.pairwise_map.1 distinct).imp_of_mem nodes_disjoint
  · intro fragment member
    exact ⟨nodup_nodes member, fun node => locate_of_mem_nodes member⟩
  · intro node member fragment located
    exact attributed_of_locate member located

/-- A unit with a method that calls and whose annotation holds a lambda. -/
def watched : Source.CompilationUnit where
  name := "Main"
  classes := [{
    name := "Main"
    members := [.method "run" [] [⟨"Guard", [.lambda [] (.value (.ident "ready"))]⟩]
      (some [.exprStmt (.call "go" [])])] }]

/-- The lambda in the annotation is attributed to the method, whose nodes are those of its body. -/
theorem fragments_partition_watched :
    ∃ node ∈ (Tree.ofUnit watched 0).nodes, ∃ fragment ∈ (Tree.ofUnit watched 0).fragments,
      node.id = 1 ∧ fragment.root = 6 ∧ fragment.nodes.map Node.id = [5, 4, 3] ∧
      fragment.Attributed node := by
  have ids : (Tree.ofUnit watched 0).nodes.map Node.id = [0, 1, 2, 3, 4, 5, 6, 7, 8] := by
    decide +kernel
  have around : (((Tree.ofUnit watched 0).pathTo? 1).bind locate).map
      (fun fragment => (fragment.root, fragment.nodes.map Node.id)) = some (6, [5, 4, 3]) := by
    decide +kernel
  obtain ⟨node, isNode, isLambda⟩ := List.mem_map.1 (ids ▸ (by decide) :
    1 ∈ (Tree.ofUnit watched 0).nodes.map Node.id)
  obtain ⟨fragment, located, contents⟩ := Option.map_eq_some_iff.1 around
  rw [← isLambda] at located
  obtain ⟨isFragment, attributed⟩ :=
    (fragments_partition watched 0).2.2.2.2 node isNode fragment located
  rw [Prod.mk.injEq] at contents
  exact ⟨node, isNode, fragment, isFragment, isLambda, contents.1, contents.2, attributed⟩

end Fragment

end FragmentFlow
