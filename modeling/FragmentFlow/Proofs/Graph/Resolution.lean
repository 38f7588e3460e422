import FragmentFlow.Proofs.Drawing.Fragments
import FragmentFlow.Proofs.Drawing.Stored
import FragmentFlow.Proofs.Drawing.TypeNames

/-!
# Which fragments have a graph

A fragment with code has a graph if and only if all types that it names are known.
Nothing else can go wrong: the numbers in the arena lead to what is expected in each place,
and every frame that is entered is left again.  The environment decides whether there is a
graph, and never which one.
-/

namespace FragmentFlow.Graph

/-- The cause of a failure is a type that the fragment names and the environment does not know. -/
theorem unresolved_of_error {fragment : Fragment} {env : Environment} {failure : Failure}
    (isCode : fragment.hasBody = true) (failed : ofFragment fragment env = .error failure) :
    ∃ ty ∈ fragment.typeNames, env.resolves ty = false ∧ failure = .unresolved ty := by
  rw [ofFragment_of_code env isCode] at failed
  split at failed
  · rename_i ty first
    cases failed
    have member := Array.mem_toList_iff.1 (List.mem_of_find?_eq_some first)
    have unknown := List.find?_some first
    exact ⟨ty, mem_typeNames_draw.1 member, by simpa using unknown, rfl⟩
  · cases failed

/-- Drawing a fragment with code from the stored nodes of its tree ends.  There is a graph exactly
if the types of the fragment are known.  Otherwise the failure names one of those that are not
known.  All environments for which there is a graph give the same one.  Behind all code the frames
are balanced: none is left, and nothing is being copied. -/
theorem ofFragment_resolution {unit : Source.CompilationUnit} {serial : Nat} {fragment : Fragment}
    (member : fragment ∈ (Tree.ofUnit unit serial).fragments) (isCode : fragment.hasBody = true) :
    (∀ env, ofView (.ofArena (Tree.ofUnit unit serial).arena) env fragment.code.kind fragment.name
      fragment.root = some (ofFragment fragment env)) ∧
    (∀ env, (∃ graph, ofFragment fragment env = .ok graph) ↔
      ∀ ty ∈ fragment.typeNames, env.resolves ty = true) ∧
    (∀ env failure, ofFragment fragment env = .error failure →
      ∃ ty ∈ fragment.typeNames, env.resolves ty = false ∧ failure = .unresolved ty) ∧
    (∀ env other graph twin, ofFragment fragment env = .ok graph →
      ofFragment fragment other = .ok twin → graph = twin) ∧
    ∀ env draft, Draft.code (.ofArena (Tree.ofUnit unit serial).arena) env fragment.code.kind
      fragment.name fragment.root .start = some (.ok ((), draft)) →
        draft.frames = [] ∧ draft.duplicating = 0 := by
  refine ⟨ofView_ofArena member,
    fun env => ⟨?_, fun known => ⟨_, ofFragment_resolved isCode known⟩⟩,
    fun env failure => unresolved_of_error isCode, ?_,
    fun env draft => closed_of_stored member isCode⟩
  · rintro ⟨graph, built⟩ ty named
    by_contra unknown
    obtain ⟨first, failed⟩ :=
      ofFragment_unresolved isCode named (Bool.eq_false_of_not_eq_true unknown)
    rw [built] at failed
    cases failed
  · intro env other graph twin built isTwin
    rw [(eq_finish_of_ofFragment built).2, (eq_finish_of_ofFragment isTwin).2]

end FragmentFlow.Graph

namespace FragmentFlow

/-- A method with a type behind its `return`, and another one in a lambda. -/
def hidden : Source.CompilationUnit where
  name := "Hidden"
  classes := [{ name := "Hidden", members := [.method "run" [⟨"n", "int"⟩] [] (some
    [.returnValue (some (.lambda [] (.value (.new "Inner" [])))),
      .tryCatch [.exprStmt (.new "Lost" [])] [.mk "e" "Exception" []] none])] }]

theorem fragments_hidden_ne_nil : (Tree.ofUnit hidden 0).fragments ≠ [] := by
  decide +kernel

/-- The method of the class. -/
def hiddenRun : Fragment :=
  (Tree.ofUnit hidden 0).fragments.head fragments_hidden_ne_nil

/-- The type in dead code has to be known, and the one in the lambda need not be. -/
theorem hiddenRun_resolution :
    Graph.ofFragment hiddenRun .builtins = .error (.unresolved "Lost") ∧
    ∃ graph, Graph.ofView (.ofArena (Tree.ofUnit hidden 0).arena)
      (TypeTable.builtins.extend ["Lost"]).environment .method hiddenRun.name hiddenRun.root =
        some (.ok graph) := by
  have isCode : hiddenRun.hasBody = true := by decide +kernel
  have names : hiddenRun.typeNames = ["int", "Lost", "Exception"] := by decide +kernel
  have lost : ["int", "Lost", "Exception"].filter (fun ty => !Environment.builtins.resolves ty) =
      ["Lost"] := by
    decide +kernel
  have found : ["int", "Lost", "Exception"].filter
      (fun ty => !(TypeTable.builtins.extend ["Lost"]).environment.resolves ty) = [] := by
    decide +kernel
  have isMethod : hiddenRun.code.kind = .method := by decide +kernel
  have member : hiddenRun ∈ (Tree.ofUnit hidden 0).fragments :=
    List.head_mem fragments_hidden_ne_nil
  obtain ⟨stored, resolution, failures, -, -⟩ := Graph.ofFragment_resolution member isCode
  rw [names] at resolution failures
  constructor
  · cases outcome : Graph.ofFragment hiddenRun .builtins with
    | error failure =>
        obtain ⟨ty, named, unknown, rfl⟩ := failures .builtins failure outcome
        have member : ty ∈ ["int", "Lost", "Exception"].filter
            (fun ty => !Environment.builtins.resolves ty) :=
          List.mem_filter.2 ⟨named, by rw [unknown, Bool.not_false]⟩
        rw [lost] at member
        rw [List.mem_singleton.1 member]
    | ok graph =>
        have known := (resolution .builtins).1 ⟨graph, outcome⟩ "Lost" (by simp)
        have member : "Lost" ∈ ["int", "Lost", "Exception"].filter
            (fun ty => !Environment.builtins.resolves ty) := lost ▸ List.mem_cons_self
        rw [List.mem_filter, known] at member
        cases member.2
  · obtain ⟨graph, built⟩ := (resolution _).2 fun ty named => by
      have known := List.filter_eq_nil_iff.1 found ty named
      simpa using known
    exact ⟨graph, isMethod ▸ (stored _).trans (congrArg some built)⟩

end FragmentFlow
