import BuiltInScript.Proofs.Parsing.Accounts
import BuiltInScript.Proofs.Source.Inside

/-!
# Parses point into their source

A parser comes upon nothing but the tokens of its list and the end marker after them. So if those
stand in a text, whatever the parser points at stands in it too: the labels of what it reports, the
places of its errors, and the nodes that it makes.

**Results.**
* `Tree.mem_leaves_of_mem_nodes`: the leaves of a node are leaves of every tree that it is in.
* `Accounts.errorsInside`: an action that accounts for its faults fails at a token that it sees.
* `Language.parse_inside`: a parse points into the text that its tokens stand in.
-/
namespace BuiltInScript

variable {R K M F α : Type}

/-! ## Nodes -/

namespace Tree

mutual
theorem mem_leaves_of_mem_nodes {node : Node R K} :
    (tree : Tree R K) → node ∈ nodes tree → ∀ t ∈ leavesOf node.children, t ∈ leaves tree
  | .node _ children _, h => by
    rw [nodes, List.mem_cons] at h
    rw [leaves]
    rcases h with rfl | h
    · exact fun _ ht => ht
    · exact mem_leavesOf_of_mem_nodesOf children h
  | .token _, h => nomatch h
  | .error _, h => nomatch h

/-- `mem_leaves_of_mem_nodes` for trees side by side. -/
theorem mem_leavesOf_of_mem_nodesOf {node : Node R K} :
    (trees : List (Tree R K)) → node ∈ nodesOf trees → ∀ t ∈ leavesOf node.children,
      t ∈ leavesOf trees
  | [], h => nomatch h
  | tree :: trees, h => by
    intro t ht
    rw [nodesOf, List.mem_append] at h
    rw [leavesOf, List.mem_append]
    rcases h with h | h
    · exact .inl (mem_leaves_of_mem_nodes tree h t ht)
    · exact .inr (mem_leavesOf_of_mem_nodesOf trees h t ht)
end

end Tree

/-- The span of a node of which nothing has been computed. -/
theorem Node.span_fresh {node : Node R K} (h : node.views = {}) :
    node.span.1 = (Tree.leavesOf node.children).head?.bind fun first =>
      (Tree.leavesOf node.children).getLast?.map fun last => first.span.join last.span := by
  obtain ⟨rule, children, views⟩ := node
  cases h
  rfl

/-- A node points into the text that its leaves stand in. -/
theorem Node.span_inside [DecidableEq K] [TokenKind K] {text : String} {node : Node R K}
    (h : node.views = {}) (hleaves : ∀ t ∈ Tree.leavesOf node.children, t.Inside text)
    {span : Span} (hspan : node.span.1 = some span) : span.Inside text := by
  rw [Node.span_fresh h, Option.bind_eq_some_iff] at hspan
  obtain ⟨first, hfirst, hspan⟩ := hspan
  obtain ⟨last, hlast, rfl⟩ := Option.map_eq_some_iff.1 hspan
  exact (hleaves first (List.mem_of_head? hfirst)).join (hleaves last (List.mem_of_getLast? hlast))

variable [DecidableEq K] [TokenKind K]

/-! ## Errors -/

/-- A parser anywhere in a token list. -/
structure Parser.On (tokens : List (Token K)) (p : Parser K) : Prop where
  valid : p.cursor.Valid
  tokens_eq : p.cursor.tokens = tokens
  marker : p.cursor.marker = Token.endOf tokens

/-- An action whose errors point into a text, wherever in a token list it is begun. -/
def Parse.ErrorsInside (text : String) (tokens : List (Token K)) (action : Parse K α) : Prop :=
  ∀ ⦃p q e⦄, p.On tokens → action p = .error e q → e.span.Inside text

theorem Parser.On.sees {text : String} {tokens : List (Token K)} {p : Parser K} (h : p.On tokens)
    (ht : ∀ t ∈ tokens, t.Inside text) : p.Sees (Token.Inside text) :=
  ⟨h.valid, h.tokens_eq ▸ ht, h.marker ▸ Token.inside_endOf ht⟩

/-- Errors are about tokens that are seen. -/
theorem Parse.Accounts.errorsInside {text : String} {tokens : List (Token K)}
    {V : α → List Diagnostic → Prop} {action : Parse K α}
    (h : Parse.Accounts (Token.Inside text) V action) (ht : ∀ t ∈ tokens, t.Inside text) :
    Parse.ErrorsInside text tokens action := by
  intro p q e hp hr
  have hresult := h (hp.sees ht)
  rw [hr] at hresult
  cases hresult with
  | error _ hinside hspan _ => exact hspan ▸ hinside

omit [DecidableEq K] in
/-- What is reported about tokens of a text points into it. -/
theorem Reported.labels_inside {text : String} {d : Diagnostic}
    (h : Reported (Token.Inside (K := K) text) d) :
    ∀ label ∈ d.labels, label.span.Inside text := by
  intro label hlabel
  obtain ⟨t, hinside, hspan⟩ := h.spans_labels hlabel
  exact hspan ▸ hinside

/-! ## Parses -/

/-- Diagnostics and a tree that point into a text. -/
structure PointsInto (text : String) (diagnostics : List Diagnostic) (tree : Node R K) : Prop where
  labels : ∀ d ∈ diagnostics, ∀ label ∈ d.labels, label.span.Inside text
  nodes : ∀ node ∈ Tree.nodes tree.toTree, ∀ span, node.span.1 = some span → span.Inside text

/-- A parse points into the text that its tokens stand in. -/
theorem Language.parse_inside {lang : Language K R M F} {item : K → Parse K (Trees R K)}
    {name : String} {rule : R} {text : String} {tokens : List (Token K)} (h : Part.Items item)
    (hroot : lang.root = Part.whole name rule item)
    (ha : Parse.Accounts (Token.Inside text) (fun n : Node R K => Shows [n.toTree]) lang.root)
    (ht : ∀ t ∈ tokens, t.Inside text) (report : Report) :
    PointsInto text (lang.parse report tokens).1.diagnostics (lang.parse report tokens).1.tree := by
  have hparse := parse_accountable h hroot ha ht (Token.inside_endOf ht) report
  have hfresh (node : Node R K)
      (hnode : node ∈ Tree.nodes (lang.parse report tokens).1.tree.toTree) : node.views = {} :=
    hparse.shows.fresh node (by rw [Tree.nodesOf, Tree.nodesOf, List.append_nil]; exact hnode)
  have hleaves := parse_leaves h hroot report tokens
  generalize (lang.parse report tokens).1 = parsed at hparse hfresh hleaves ⊢
  refine ⟨fun d hd => (hparse.reported d hd).labels_inside, fun node hnode span hspan => ?_⟩
  refine Node.span_inside (hfresh node hnode) (fun t hleaf => ?_) hspan
  -- The leaves of the tree are tokens that the parser was shown, and the end marker.
  have hmem : t ∈ Tree.leavesOf parsed.tree.children :=
    Tree.mem_leaves_of_mem_nodes parsed.tree.toTree hnode t hleaf
  have hroot : (parsed.tree.leaves).1 = Tree.leavesOf parsed.tree.children := by
    have hviews := hfresh parsed.tree List.mem_cons_self
    unfold Node.leaves
    rw [hviews]
    rfl
  rw [← hroot, hleaves, List.mem_append, List.mem_singleton] at hmem
  rcases hmem with hmem | rfl
  · exact ht t ((List.takeWhile_sublist _).subset (List.mem_filter.1 hmem).1)
  · exact Token.inside_endOf ht

end BuiltInScript
