import BuiltInScript.Tree

/-!
# Views of trees that change

A node keeps the views that it was asked for, its leaves and its text, and takes them along wherever
it is put: below another node, into a copy, out of a tree again. Only a change of its own children
makes it drop them. So what it keeps must not depend on anything but the leaves below it, and no
node may get other leaves except by such a change: a node below another one is never changed where
it is. It may be asked, though, and then keeps a view that the nodes above know nothing of.

`Tree.Coherent` says that all nodes of a tree keep the views of the leaves they have. The program is
a `Forest` of nodes, and calls that change, copy or ask them in any order.

**Results.**
* `Looks.ask`: each view is that of the leaves, if what the node keeps is, and the node keeps no
  other afterwards.
* `lookAt_seen`, `lookAt_kept`: so it is of a node below another one, and the leaves of neither are
  touched.
* `coherent_step`, `coherent_after`: a call, and any run of them, leaves the forest coherent.
* `views_current`: no view is ever stale.
-/
namespace BuiltInScript

variable {R K α β : Type}

/-! ## Views, computed anew -/

namespace Tree

mutual
/-- A tree and all that is below it, in preorder. -/
def preorder : Tree R K → List (Tree R K)
  | .node rule children views => .node rule children views :: preorderOf children
  | .token t => [.token t]
  | .error t => [.error t]

/-- `preorder` of trees side by side. -/
def preorderOf : List (Tree R K) → List (Tree R K)
  | [] => []
  | t :: ts => preorder t ++ preorderOf ts
end

/-- The token of a leaf, be it skipped or not. -/
def leaf? : Tree R K → Option (Token K)
  | .node .. => none
  | .token t => some t
  | .error t => some t

mutual
theorem filterMap_leaf?_preorder : (t : Tree R K) → (preorder t).filterMap leaf? = leaves t
  | .node rule children views => by
    rw [preorder, List.filterMap_cons_none rfl, filterMap_leaf?_preorderOf, leaves]
  | .token _ => rfl
  | .error _ => rfl

theorem filterMap_leaf?_preorderOf :
    (ts : List (Tree R K)) → (preorderOf ts).filterMap leaf? = leavesOf ts
  | [] => rfl
  | t :: ts => by
    rw [preorderOf, List.filterMap_append, filterMap_leaf?_preorder t,
      filterMap_leaf?_preorderOf ts, leavesOf]
end

end Tree

theorem joinTexts_eq_join (tokens : List (Token K)) :
    joinTexts tokens = String.join (tokens.map (·.text)) := by
  rw [joinTexts, String.join, List.foldl_map]

/-- What a node can be asked. -/
inductive View where
  | leaves | text | firstToken | lastToken | span
deriving DecidableEq, Repr

namespace View

def Result (K : Type) : View → Type
  | leaves => List (Token K)
  | text => String
  | firstToken => Option (Token K)
  | lastToken => Option (Token K)
  | span => Option Span

/-- The view that these leaves make. -/
def ofLeaves (tokens : List (Token K)) : (view : View) → view.Result K
  | leaves => tokens
  | text => String.join (tokens.map (·.text))
  | firstToken => tokens.head?
  | lastToken => tokens.getLast?
  | span => tokens.head?.bind fun first => tokens.getLast?.map fun last => first.span.join last.span

/-- The view of a node that has these children. -/
def recomputed (view : View) (children : List (Tree R K)) : view.Result K :=
  view.ofLeaves ((Tree.preorderOf children).filterMap Tree.leaf?)

end View

/-- The view asked for, together with the node that remembers it. -/
def Node.ask (n : Node R K) : (view : View) → view.Result K × Node R K
  | .leaves => n.leaves
  | .text => n.text
  | .firstToken => n.firstToken
  | .lastToken => n.lastToken
  | .span => n.span

/-! ## One node -/

/-- The cell holds this value, or none yet. -/
def Memo.Holds (m : Memo α) (a : α) : Prop := ∀ b ∈ m.value?, b = a

namespace Memo

theorem holds_empty (a : α) : (empty : Memo α).Holds a := fun _ h => (Option.not_mem_none _ h).elim

theorem holds_some (a : α) : (⟨some a⟩ : Memo α).Holds a := fun _ h => (Option.some.inj h).symm

/-- Whether the producer is run makes no difference. -/
theorem Holds.force_eq {m : Memo α} {produce : Unit → α} (h : m.Holds (produce ())) :
    m.force produce = (produce (), ⟨some (produce ())⟩) := by
  obtain ⟨_ | a⟩ := m
  · rfl
  · rw [← h a rfl]
    rfl

end Memo

/-- What is remembered is what these leaves make. -/
structure Views.Current (views : Views K) (tokens : List (Token K)) : Prop where
  leaves : views.leaves.Holds tokens
  text : views.text.Holds (joinTexts tokens)

/-- What a node remembers is what its own leaves make. -/
def Node.Current (n : Node R K) : Prop := n.views.Current (Tree.leavesOf n.children)

theorem Views.Current.empty (tokens : List (Token K)) : ({} : Views K).Current tokens :=
  ⟨Memo.holds_empty _, Memo.holds_empty _⟩

/-- A text that is remembered is not made again. -/
theorem Node.text_of_some {n : Node R K} {text : String} (h : n.views.text.value? = some text) :
    n.text = (text, n) := by
  rw [Node.text, h]

/-- The text is made of the leaves, and both are remembered. -/
theorem Node.text_of_none {n : Node R K} (h : n.views.text.value? = none) :
    n.text = (joinTexts n.leaves.1,
      { n.leaves.2 with views.text := ⟨some (joinTexts n.leaves.1)⟩ }) := by
  simp only [Node.text, Node.leaves, Memo.force, h]

/-- Looking at a node tells something of its leaves, if what it remembers is current. Then this
stays so, and the children are left as they are. -/
structure Looks (look : Node R K → α × Node R K) (seen : List (Token K) → α) : Prop where
  children : ∀ n, (look n).2.children = n.children
  seen : ∀ n, n.Current → (look n).1 = seen (Tree.leavesOf n.children)
  current : ∀ n, n.Current → (look n).2.Current

namespace Looks

theorem leaves : Looks (Node.leaves : Node R K → _) id where
  children _ := rfl
  seen n h := by rw [Node.leaves, h.leaves.force_eq, id]
  current n h := by
    rw [Node.leaves, h.leaves.force_eq]
    exact ⟨Memo.holds_some _, h.text⟩

theorem text : Looks (Node.text : Node R K → _) joinTexts where
  children n := by
    unfold Node.text
    cases n.views.text.value? <;> rfl
  seen n h := by
    cases hv : n.views.text.value? with
    | some text => rw [Node.text_of_some hv, h.text text hv]
    | none => rw [Node.text_of_none hv, leaves.seen n h, id]
  current n h := by
    cases hv : n.views.text.value? with
    | some text => rwa [Node.text_of_some hv]
    | none =>
      rw [Node.text_of_none hv, leaves.seen n h]
      exact ⟨(leaves.current n h).leaves, Memo.holds_some _⟩

/-- What is told can be told in other words. -/
theorem map {look : Node R K → α × Node R K} {seen : List (Token K) → α} (h : Looks look seen)
    (f : α → β) : Looks (fun n => (f (look n).1, (look n).2)) (f ∘ seen) where
  children := h.children
  seen n hn := congrArg f (h.seen n hn)
  current := h.current

/-- Looking twice. -/
theorem both {look : Node R K → α × Node R K} {seen : List (Token K) → α}
    {look' : Node R K → β × Node R K} {seen' : List (Token K) → β} (h : Looks look seen)
    (h' : Looks look' seen') :
    Looks (fun n => (((look n).1, (look' (look n).2).1), (look' (look n).2).2))
      fun tokens => (seen tokens, seen' tokens) where
  children n := (h'.children _).trans (h.children n)
  seen n hn := by rw [h.seen n hn, h'.seen _ (h.current n hn), h.children n]
  current n hn := h'.current _ (h.current n hn)

theorem firstToken : Looks (Node.firstToken : Node R K → _) List.head? := leaves.map List.head?

theorem lastToken : Looks (Node.lastToken : Node R K → _) List.getLast? := leaves.map List.getLast?

theorem span : Looks (Node.span : Node R K → _) View.span.ofLeaves :=
  (firstToken.both lastToken).map fun tokens =>
    tokens.1.bind fun first => tokens.2.map fun last => first.span.join last.span

theorem ask (view : View) :
    Looks (fun n : Node R K => n.ask view) fun leaves => view.ofLeaves leaves := by
  cases view with
  | leaves => exact leaves
  | text =>
    have htext : (View.text.ofLeaves : List (Token K) → String) = joinTexts :=
      funext fun tokens => (joinTexts_eq_join tokens).symm
    exact htext ▸ text
  | firstToken => exact firstToken
  | lastToken => exact lastToken
  | span => exact span

end Looks

/-! ## A node below another one -/

/-- All nodes of a tree remember what their leaves make. -/
def Tree.Coherent (t : Tree R K) : Prop :=
  ∀ m ∈ Tree.nodes t, m.Current

namespace Tree

theorem mem_nodesOf {m : Node R K} {ts : List (Tree R K)} :
    m ∈ nodesOf ts ↔ ∃ t ∈ ts, m ∈ nodes t := by
  induction ts with
  | nil => simp [nodesOf]
  | cons t ts ih => simp [nodesOf, ih]

theorem coherent_node {n : Node R K} :
    n.toTree.Coherent ↔ n.Current ∧ ∀ t ∈ n.children, t.Coherent := by
  have hbelow : (∀ m ∈ nodesOf n.children, m.Current) ↔ ∀ t ∈ n.children, t.Coherent := by
    simp only [mem_nodesOf, Coherent]
    exact ⟨fun h t ht m hm => h m ⟨t, ht, hm⟩, fun h m ⟨t, ht, hm⟩ => h t ht m hm⟩
  rw [Coherent, Node.toTree, nodes, List.forall_mem_cons, hbelow]

theorem coherent_token (t : Token K) : (.token t : Tree R K).Coherent := fun _ h => nomatch h

theorem coherent_error (t : Token K) : (.error t : Tree R K).Coherent := fun _ h => nomatch h

theorem eq_of_node? {t : Tree R K} {n : Node R K} (h : t.node? = some n) : t = n.toTree := by
  cases t with
  | node rule children views =>
    cases h
    rfl
  | token t => cases h
  | error t => cases h

/-- A tree in the place of one with the same leaves. -/
theorem leavesOf_set {ts : List (Tree R K)} {i : Nat} {t t' : Tree R K} (h : ts[i]? = some t)
    (hleaves : leaves t' = leaves t) : leavesOf (ts.set i t') = leavesOf ts := by
  induction ts generalizing i with
  | nil => cases h
  | cons s ts ih =>
    cases i with
    | zero =>
      cases h
      rw [List.set_cons_zero, leavesOf, leavesOf, hleaves]
    | succ i => rw [List.set_cons_succ, leavesOf, leavesOf, ih h]

end Tree

namespace Node

/-- The node among the children that has this number. -/
def child? (n : Node R K) (i : Nat) : Option (Node R K) := n.children[i]?.bind Tree.node?

/-- The node to which the numbers of children lead. -/
def below? (n : Node R K) : List Nat → Option (Node R K)
  | [] => some n
  | i :: path => (n.child? i).bind fun m => m.below? path

/-- Looks at the node to which the numbers of children lead, where it is: it stays below the same
nodes, with all that it remembers. -/
def lookAt (look : Node R K → α × Node R K) (n : Node R K) : List Nat → Option (α × Node R K)
  | [] => some (look n)
  | i :: path => (n.child? i).bind fun m => (m.lookAt look path).map fun (seen, m) =>
      (seen, { n with children := n.children.set i m.toTree })

theorem children_of_child? {n m : Node R K} {i : Nat} (h : n.child? i = some m) :
    n.children[i]? = some m.toTree := by
  obtain ⟨t, ht, hm⟩ := Option.bind_eq_some_iff.mp h
  rw [ht, Tree.eq_of_node? hm]

theorem coherent_child {n m : Node R K} {i : Nat} (hn : n.toTree.Coherent)
    (h : n.child? i = some m) : m.toTree.Coherent :=
  (Tree.coherent_node.mp hn).2 _ (List.mem_of_getElem? (children_of_child? h))

theorem coherent_below {n m : Node R K} {path : List Nat} (hn : n.toTree.Coherent)
    (h : n.below? path = some m) : m.toTree.Coherent := by
  induction path generalizing n with
  | nil =>
    cases h
    exact hn
  | cons i path ih =>
    obtain ⟨c, hc, hm⟩ := Option.bind_eq_some_iff.mp h
    exact ih (coherent_child hn hc) hm

variable {look : Node R K → α × Node R K} {seen : List (Token K) → α}

/-- What is seen is made of the leaves of the node looked at. -/
theorem lookAt_seen (hlook : Looks look seen) {n : Node R K} (hn : n.toTree.Coherent)
    (path : List Nat) :
    (n.lookAt look path).map Prod.fst
      = (n.below? path).map fun m => seen (Tree.leavesOf m.children) := by
  induction path generalizing n with
  | nil => exact congrArg some (hlook.seen n (Tree.coherent_node.mp hn).1)
  | cons i path ih =>
    rw [lookAt, below?]
    cases hc : n.child? i with
    | none => rfl
    | some m =>
      rw [Option.bind_some, Option.bind_some, ← ih (coherent_child hn hc), Option.map_map]
      rfl

/-- The nodes above know nothing of it, and need not: they have the same leaves as before. -/
theorem lookAt_kept (hlook : Looks look seen) {n n' : Node R K} {a : α} {path : List Nat}
    (hn : n.toTree.Coherent) (h : n.lookAt look path = some (a, n')) :
    n'.toTree.Coherent ∧ Tree.leavesOf n'.children = Tree.leavesOf n.children := by
  induction path generalizing n n' with
  | nil =>
    obtain ⟨hcurrent, hbelow⟩ := Tree.coherent_node.mp hn
    have hlooked : look n = (a, n') := Option.some.inj h
    obtain rfl : (look n).2 = n' := congrArg Prod.snd hlooked
    rw [Tree.coherent_node, hlook.children]
    exact ⟨⟨hlook.current n hcurrent, hbelow⟩, rfl⟩
  | cons i path ih =>
    obtain ⟨hcurrent, hbelow⟩ := Tree.coherent_node.mp hn
    obtain ⟨m, hm, h⟩ := Option.bind_eq_some_iff.mp h
    obtain ⟨⟨_, m'⟩, hlooked, h⟩ := Option.map_eq_some_iff.mp h
    cases h
    obtain ⟨hm', hleaves⟩ := ih (coherent_child hn hm) hlooked
    have hsame : Tree.leavesOf (n.children.set i m'.toTree) = Tree.leavesOf n.children :=
      Tree.leavesOf_set (children_of_child? hm) hleaves
    refine ⟨Tree.coherent_node.mpr ⟨?_, fun t ht => ?_⟩, hsame⟩
    -- the node above keeps its own views as they are, and they speak of nothing but leaves
    · rw [Node.Current, hsame]
      exact hcurrent
    · obtain ht | rfl := List.mem_or_eq_of_mem_set ht
      · exact hbelow t ht
      · exact hm'

/-! ## Changes -/

/-- Whatever becomes of the children of a node, it has dropped its views. -/
theorem coherent_changed {rule : R} {children : List (Tree R K)} (h : ∀ t ∈ children, t.Coherent) :
    (toTree { rule, children }).Coherent :=
  Tree.coherent_node.mpr ⟨.empty _, h⟩

theorem coherent_addTree {n : Node R K} {t : Tree R K} (hn : n.toTree.Coherent)
    (ht : t.Coherent) : (n.addTree t).toTree.Coherent :=
  coherent_changed (List.forall_mem_append.mpr
    ⟨(Tree.coherent_node.mp hn).2, List.forall_mem_singleton.mpr ht⟩)

theorem coherent_removeLast {n : Node R K} (hn : n.toTree.Coherent) :
    n.removeLast.2.toTree.Coherent ∧ ∀ t ∈ n.removeLast.1, t.Coherent := by
  obtain ⟨-, hbelow⟩ := Tree.coherent_node.mp hn
  exact ⟨coherent_changed fun t ht => hbelow t (List.dropLast_subset _ ht),
    fun t ht => hbelow t (List.mem_of_getLast? ht)⟩

theorem coherent_copyFrom {n other : Node R K} (h : other.toTree.Coherent) :
    (n.copyFrom other).toTree.Coherent :=
  coherent_changed (Tree.coherent_node.mp h).2

end Node

/-! ## Many nodes -/

/-- The nodes of a program, each with the trees below it. No node ever leaves its slot. -/
abbrev Forest (R K : Type) := List (Node R K)

namespace Forest

/-- Where a node of a forest is: in a slot, or below the node there. -/
structure Place where
  slot : Nat
  /-- The numbers of the children that lead to it. -/
  path : List Nat := []
deriving DecidableEq, Repr

/-- What a program does with its nodes. A node that is moved is copied with all that it remembers,
and its old slot is not used any more. -/
inductive Call (R K : Type) where
  | create (rule : R)
  | addNode (slot : Nat) (child : Place)
  | addToken (slot : Nat) (token : Token K)
  | addError (slot : Nat) (token : Token K)
  /-- A node that is removed is one of the forest's own from then on. -/
  | removeLast (slot : Nat)
  | copyFrom (slot : Nat) (other : Place)
  | clone (other : Place)
  | ask (view : View) (place : Place)
deriving Repr

def node? (forest : Forest R K) (place : Place) : Option (Node R K) :=
  forest[place.slot]?.bind fun n => n.below? place.path

/-- The view asked for, if there is a node to ask, and the forest in which it is remembered. -/
def ask (forest : Forest R K) (view : View) (place : Place) :
    Option (view.Result K × Forest R K) :=
  forest[place.slot]?.bind fun n => (n.lookAt (·.ask view) place.path).map fun (seen, n) =>
    (seen, forest.set place.slot n)

/-- The forest after a call. A call about a node that does not exist does nothing. -/
def step (forest : Forest R K) : Call R K → Forest R K
  | .create rule => forest ++ [.ofRule rule]
  | .addNode slot child =>
    match forest.node? child with
    | some m => forest.modify slot (·.addNode m)
    | none => forest
  | .addToken slot token => forest.modify slot (·.addToken token)
  | .addError slot token => forest.modify slot (·.addError token)
  | .removeLast slot =>
    match forest[slot]? with
    | some n => forest.set slot n.removeLast.2 ++ (n.removeLast.1.bind Tree.node?).toList
    | none => forest
  | .copyFrom slot other =>
    match forest.node? other with
    | some m => forest.modify slot (·.copyFrom m)
    | none => forest
  | .clone other => forest ++ (forest.node? other).toList
  | .ask view place =>
    match forest.ask view place with
    | some (_, forest) => forest
    | none => forest

/-- The forest that several calls make. -/
def after (calls : List (Call R K)) : Forest R K := calls.foldl step []

/-- All nodes of the forest remember what their leaves make. -/
def Coherent (forest : Forest R K) : Prop := ∀ n ∈ forest, n.toTree.Coherent

section

variable {forest : Forest R K}

theorem Coherent.node {n : Node R K} {place : Place} (h : forest.Coherent)
    (hn : forest.node? place = some n) : n.toTree.Coherent := by
  obtain ⟨top, htop, hbelow⟩ := Option.bind_eq_some_iff.mp hn
  exact Node.coherent_below (h top (List.mem_of_getElem? htop)) hbelow

theorem Coherent.append {others : Forest R K} (h : forest.Coherent) (hothers : Coherent others) :
    Coherent (forest ++ others) :=
  List.forall_mem_append.mpr ⟨h, hothers⟩

theorem Coherent.set {n : Node R K} (h : forest.Coherent) (slot : Nat) (hn : n.toTree.Coherent) :
    Coherent (forest.set slot n) := by
  intro m hm
  obtain hm | rfl := List.mem_or_eq_of_mem_set hm
  · exact h m hm
  · exact hn

theorem Coherent.modify {f : Node R K → Node R K} (h : forest.Coherent) (slot : Nat)
    (hf : ∀ n : Node R K, n.toTree.Coherent → (f n).toTree.Coherent) :
    Coherent (forest.modify slot f) := by
  intro m hm
  obtain ⟨i, hi⟩ := List.mem_iff_getElem?.mp hm
  rw [List.getElem?_modify] at hi
  obtain ⟨n, hn, rfl⟩ := Option.map_eq_some_iff.mp hi
  have hcoherent := h n (List.mem_of_getElem? hn)
  split
  · exact hf n hcoherent
  · exact hcoherent

theorem coherent_ask {view : View} {place : Place} {seen : view.Result K} {forest' : Forest R K}
    (h : forest.Coherent) (hask : forest.ask view place = some (seen, forest')) :
    forest'.Coherent := by
  obtain ⟨n, hn, hask⟩ := Option.bind_eq_some_iff.mp hask
  obtain ⟨⟨_, n'⟩, hlooked, hask⟩ := Option.map_eq_some_iff.mp hask
  cases hask
  exact h.set _ (Node.lookAt_kept (.ask view) (h n (List.mem_of_getElem? hn)) hlooked).1

theorem coherent_step (h : forest.Coherent) (call : Call R K) : (forest.step call).Coherent := by
  cases call with
  | create rule =>
    exact h.append (List.forall_mem_singleton.mpr
      (Node.coherent_changed fun _ ht => (List.not_mem_nil ht).elim))
  | addNode slot child =>
    rw [step]
    split
    · next m hm => exact h.modify slot fun n hn => Node.coherent_addTree hn (h.node hm)
    · exact h
  | addToken slot token =>
    exact h.modify slot fun n hn => Node.coherent_addTree hn (Tree.coherent_token token)
  | addError slot token =>
    exact h.modify slot fun n hn => Node.coherent_addTree hn (Tree.coherent_error token)
  | removeLast slot =>
    rw [step]
    split
    · next n hn =>
      obtain ⟨hkept, hremoved⟩ := Node.coherent_removeLast (h n (List.mem_of_getElem? hn))
      -- what is removed takes its views along: its own children have not changed
      refine (h.set slot hkept).append fun m hm => ?_
      obtain ⟨t, ht, hm⟩ := Option.bind_eq_some_iff.mp (Option.mem_toList.mp hm)
      rw [← Tree.eq_of_node? hm]
      exact hremoved t ht
    · exact h
  | copyFrom slot other =>
    rw [step]
    split
    · next m hm => exact h.modify slot fun n _ => Node.coherent_copyFrom (h.node hm)
    · exact h
  | clone other => exact h.append fun m hm => h.node (Option.mem_toList.mp hm)
  | ask view place =>
    rw [step]
    split
    · next hask => exact coherent_ask h hask
    · exact h

end

theorem coherent_after (calls : List (Call R K)) : (after calls).Coherent :=
  List.foldlRecOn calls step (fun _ hn => (List.not_mem_nil hn).elim)
    fun _ h call _ => coherent_step h call

/-- No view is ever stale. Whatever has been done with any number of nodes, a node that is asked
gives the view that its children make now. -/
theorem views_current (calls : List (Call R K)) (view : View) (place : Place) :
    ((after calls).ask view place).map Prod.fst
      = ((after calls).node? place).map fun n => view.recomputed n.children := by
  have hcoherent : (after calls).Coherent := coherent_after calls
  rw [ask, node?]
  cases hn : (after calls)[place.slot]? with
  | none => rfl
  | some n =>
    have hseen := Node.lookAt_seen (.ask view) (hcoherent n (List.mem_of_getElem? hn)) place.path
    simp only [View.recomputed, Tree.filterMap_leaf?_preorderOf]
    rw [Option.bind_some, Option.bind_some, Option.map_map, ← hseen]
    rfl

end Forest
end BuiltInScript
