import Mathlib.Data.List.Basic
import Mathlib.Logic.Relation

/-! # Disjoint sets with path compression

Every node points at a parent, a root at itself. Roots are found by following the parents, and two
classes are joined by pointing one root at the other. No ranks are kept: that the chains end is
carried by the structure.
-/

namespace Difflore.Foundation

universe u

variable {α : Type u}

def ChainsEnd (parent : α → α) : Prop :=
  ∃ rank : α → Nat, ∀ node, parent node ≠ node → rank (parent node) < rank node

variable [DecidableEq α]

/-- The root of a node, and the parents with the path to it compressed. -/
def findIn (parent : α → α) (hends : ChainsEnd parent) (node : α) : α × (α → α) :=
  if _ : parent node = node then (node, parent)
  else
    let found := findIn parent hends (parent node)
    (found.1, Function.update found.2 node found.1)
termination_by hends.choose node
decreasing_by exact hends.choose_spec node ‹_›

structure Represents (parent root : α → α) : Prop where
  step : ∀ node, root (parent node) = root node
  fixed : ∀ node, parent (root node) = root node
  own : ∀ node, parent node = node → root node = node

namespace Represents

variable {parent root : α → α}

omit [DecidableEq α] in
theorem idem (hroot : Represents parent root) (node : α) : root (root node) = root node :=
  hroot.own _ (hroot.fixed node)

omit [DecidableEq α] in
theorem own_iff (hroot : Represents parent root) {node : α} :
    parent node = node ↔ root node = node := by
  constructor
  · exact hroot.own node
  · intro hnode
    rw [← hnode]
    exact hroot.fixed node

theorem compress (hroot : Represents parent root) {node : α} (hnode : root node ≠ node) :
    Represents (Function.update parent node (root node)) root where
  step other := by
    rcases eq_or_ne other node with rfl | hother
    · rw [Function.update_self, hroot.idem]
    · rw [Function.update_of_ne hother, hroot.step]
  fixed other := by
    have hother : root other ≠ node := by
      rintro rfl
      exact hnode (hroot.idem other)
    rw [Function.update_of_ne hother, hroot.fixed]
  own other := by
    rcases eq_or_ne other node with rfl | hother
    · rw [Function.update_self]
      exact id
    · rw [Function.update_of_ne hother]
      exact hroot.own other

theorem link (hroot : Represents parent root) {left right : α} (hleft : root left = left)
    (hright : root right = right) (hne : left ≠ right) :
    Represents (Function.update parent right left)
      fun node => if root node = right then left else root node where
  step node := by
    rcases eq_or_ne node right with rfl | hnode
    · rw [Function.update_self, hleft, hright, if_neg hne, if_pos rfl]
    · rw [Function.update_of_ne hnode, hroot.step]
  fixed node := by
    split
    next =>
      rw [Function.update_of_ne hne, hroot.own_iff]
      exact hleft
    next hnode => rw [Function.update_of_ne hnode, hroot.fixed]
  own node := by
    rcases eq_or_ne node right with rfl | hnode
    · rw [Function.update_self]
      intro hsame
      exact absurd hsame hne
    · rw [Function.update_of_ne hnode]
      intro hparent
      rw [hroot.own node hparent, if_neg hnode]

omit [DecidableEq α] in
theorem rank_lt (hroot : Represents parent root) {rank : α → Nat}
    (hrank : ∀ node, parent node ≠ node → rank (parent node) < rank node) {node : α}
    (hnode : root node ≠ node) : rank (root node) < rank node := by
  induction hsize : rank node using Nat.strongRecOn generalizing node with
  | ind size ih =>
    subst hsize
    have hparent : rank (parent node) < rank node :=
      hrank node fun howned => hnode (hroot.own node howned)
    rcases eq_or_ne (root (parent node)) (parent node) with hlast | hmore
    · rw [← hroot.step, hlast]
      exact hparent
    · have hrest := ih _ hparent hmore rfl
      rw [hroot.step] at hrest
      exact Nat.lt_trans hrest hparent

end Represents

section Find

variable {parent : α → α} (hends : ChainsEnd parent)

theorem findIn_of_root {node : α} (hnode : parent node = node) :
    findIn parent hends node = (node, parent) := by
  rw [findIn, dif_pos hnode]

theorem findIn_of_child {node : α} (hnode : parent node ≠ node) : findIn parent hends node =
      ((findIn parent hends (parent node)).1,
        Function.update (findIn parent hends (parent node)).2 node
          (findIn parent hends (parent node)).1) := by
  rw [findIn, dif_neg hnode]

theorem represents_findIn : Represents parent fun node => (findIn parent hends node).1 where
  step node := by
    rcases eq_or_ne (parent node) node with hroot | hchild
    · rw [hroot]
    · rw [findIn_of_child hends hchild]
  fixed node := by
    induction node using findIn.induct parent hends with
    | case1 node hroot =>
      rw [findIn_of_root hends hroot]
      exact hroot
    | case2 node hchild ih =>
      rw [findIn_of_child hends hchild]
      exact ih
  own node hroot := by rw [findIn_of_root hends hroot]

theorem compressed_findIn {root : α → α} (hroot : Represents parent root) {rank : α → Nat}
    (hrank : ∀ node, parent node ≠ node → rank (parent node) < rank node) (node : α) :
    (findIn parent hends node).1 = root node ∧ Represents (findIn parent hends node).2 root ∧
      ∀ other, (findIn parent hends node).2 other ≠ other →
        rank ((findIn parent hends node).2 other) < rank other := by
  induction node using findIn.induct parent hends with
  | case1 node hnode =>
    rw [findIn_of_root hends hnode]
    exact ⟨(hroot.own node hnode).symm, hroot, hrank⟩
  | case2 node hchild ih =>
    obtain ⟨hfound, hrest, hfalls⟩ := ih
    have hnode : root node ≠ node := mt hroot.own_iff.mpr hchild
    rw [findIn_of_child hends hchild, hfound, hroot.step]
    refine ⟨rfl, hrest.compress hnode, ?_⟩
    intro other
    dsimp only
    rcases eq_or_ne other node with rfl | hother
    · rw [Function.update_self]
      exact fun _ => hroot.rank_lt hrank hnode
    · rw [Function.update_of_ne hother]
      exact hfalls other

theorem chainsEnd_findIn (node : α) : ChainsEnd (findIn parent hends node).2 := by
  have hmeasure := hends
  obtain ⟨rank, hrank⟩ := hmeasure
  exact ⟨rank, (compressed_findIn hends (represents_findIn hends) hrank node).2.2⟩

end Find

theorem chainsEnd_link {parent root : α → α} (hends : ChainsEnd parent)
    (hroot : Represents parent root) {left right : α} (hleft : root left = left)
    (hright : root right = right) (hne : left ≠ right) :
    ChainsEnd (Function.update parent right left) := by
  obtain ⟨rank, hrank⟩ := hends
  -- the class that moves goes up by as much as the new root stands above the ground
  refine ⟨fun node => if root node = right then rank node + rank left + 1 else rank node, ?_⟩
  intro node hnode
  dsimp only
  rcases eq_or_ne node right with rfl | hother
  · rw [Function.update_self, hleft, hright, if_neg hne, if_pos rfl]
    omega
  · rw [Function.update_of_ne hother] at hnode ⊢
    have hfalls := hrank node hnode
    rw [hroot.step]
    split <;> omega

structure UnionFind (α : Type u) where
  parent : α → α
  chainsEnd : ChainsEnd parent

namespace UnionFind

omit [DecidableEq α] in
theorem chainsEnd_id : ChainsEnd (id : α → α) := ⟨fun _ => 0, fun _ hnode => absurd rfl hnode⟩

def new : UnionFind α := ⟨id, chainsEnd_id⟩

def find (forest : UnionFind α) (node : α) : α × UnionFind α :=
  ((findIn forest.parent forest.chainsEnd node).1,
    ⟨(findIn forest.parent forest.chainsEnd node).2, chainsEnd_findIn forest.chainsEnd node⟩)

def root (forest : UnionFind α) (node : α) : α := (forest.find node).1

theorem represents (forest : UnionFind α) : Represents forest.parent forest.root :=
  represents_findIn forest.chainsEnd

theorem root_eq {forest : UnionFind α} {root : α → α} (hroot : Represents forest.parent root)
    (node : α) : forest.root node = root node := by
  obtain ⟨rank, hrank⟩ := forest.chainsEnd
  exact (compressed_findIn forest.chainsEnd hroot hrank node).1

@[simp] theorem root_find (forest : UnionFind α) (node other : α) :
    (forest.find node).2.root other = forest.root other := by
  obtain ⟨rank, hrank⟩ := forest.chainsEnd
  exact root_eq (compressed_findIn forest.chainsEnd forest.represents hrank node).2.1 other

theorem root_root (forest : UnionFind α) (node : α) :
    forest.root (forest.root node) = forest.root node :=
  forest.represents.idem node

theorem represents_found (forest : UnionFind α) (left right : α) :
    Represents ((forest.find left).2.find right).2.parent forest.root := by
  have hfound := ((forest.find left).2.find right).2.represents
  have hsame : ((forest.find left).2.find right).2.root = forest.root := by
    funext node
    rw [root_find, root_find]
  rwa [hsame] at hfound

def union (forest : UnionFind α) (left right : α) : UnionFind α :=
  let leftFound := forest.find left
  let rightFound := leftFound.2.find right
  if hne : leftFound.1 ≠ rightFound.1 then
    ⟨Function.update rightFound.2.parent rightFound.1 leftFound.1,
      chainsEnd_link rightFound.2.chainsEnd (forest.represents_found left right)
        (forest.root_root left) (by
          change forest.root ((forest.find left).2.root right) = (forest.find left).2.root right
          rw [root_find, root_root]) hne⟩
  else rightFound.2

theorem root_union (forest : UnionFind α) (left right node : α) :
    (forest.union left right).root node =
      if forest.root node = forest.root right then forest.root left else forest.root node := by
  have hleft : (forest.find left).1 = forest.root left := rfl
  have hright : ((forest.find left).2.find right).1 = forest.root right :=
    forest.root_find left right
  have hfound := forest.represents_found left right
  unfold union
  simp only
  split
  next hne =>
    rw [hleft, hright] at hne
    apply root_eq
    dsimp only
    rw [hleft, hright]
    exact hfound.link (forest.root_root left) (forest.root_root right) hne
  next hsame =>
    rw [hleft, hright, not_not] at hsame
    rw [root_find, root_find]
    split
    next hnode => rw [hnode, hsame]
    next => rfl

def Merges (forest : UnionFind α) (related : α → α → Prop) : Prop :=
  ∀ node other, forest.root node = forest.root other ↔ Relation.EqvGen related node other

theorem merges_new : (new : UnionFind α).Merges fun _ _ => False := by
  intro node other
  have hroot : ∀ node, (new : UnionFind α).root node = node := fun node =>
    (new : UnionFind α).represents.own node rfl
  rw [hroot, hroot]
  constructor
  · rintro rfl
    exact .refl node
  · intro hconnected
    induction hconnected with
    | rel _ _ hfalse => exact hfalse.elim
    | refl _ => rfl
    | symm _ _ _ ih => exact ih.symm
    | trans _ _ _ _ _ ihfront ihback => exact ihfront.trans ihback

theorem Merges.union {forest : UnionFind α} {related : α → α → Prop}
    (hforest : forest.Merges related) (left right : α) :
    (forest.union left right).Merges
      fun node other => related node other ∨ (node = left ∧ other = right) := by
  intro node other
  have hmono : ∀ {node other}, Relation.EqvGen related node other →
      Relation.EqvGen (fun node other => related node other ∨ (node = left ∧ other = right))
        node other := fun hconnected =>
    Relation.EqvGen.mono (fun _ _ hrelated => Or.inl hrelated) _ _ hconnected
  -- every node is connected to the root it has now
  have hreach : ∀ node, Relation.EqvGen
      (fun node other => related node other ∨ (node = left ∧ other = right)) node
      ((forest.union left right).root node) := by
    intro node
    rw [root_union]
    have hown : Relation.EqvGen related node (forest.root node) :=
      (hforest _ _).mp (forest.root_root node).symm
    split
    next hnode =>
      have hright : Relation.EqvGen related node right := (hforest _ _).mp hnode
      have hleft : Relation.EqvGen related left (forest.root left) :=
        (hforest _ _).mp (forest.root_root left).symm
      exact (hmono hright).trans _ _ _
        ((Relation.EqvGen.rel left right (.inr ⟨rfl, rfl⟩)).symm.trans _ _ _ (hmono hleft))
    next => exact hmono hown
  constructor
  · intro hsame
    exact (hreach node).trans _ _ _ (hsame ▸ (hreach other).symm)
  · intro hconnected
    induction hconnected with
    | rel node other hrelated =>
      rw [root_union, root_union]
      rcases hrelated with hrelated | ⟨rfl, rfl⟩
      · rw [(hforest _ _).mpr (.rel _ _ hrelated)]
      · rw [if_pos rfl]
        split <;> rfl
    | refl _ => rfl
    | symm _ _ _ ih => exact ih.symm
    | trans _ _ _ _ _ ihfront ihback => exact ihfront.trans ihback

theorem Merges.foldl {forest : UnionFind α} {related : α → α → Prop}
    (hforest : forest.Merges related) (edges : List (α × α)) :
    (edges.foldl (fun forest edge => forest.union edge.1 edge.2) forest).Merges
      fun node other => related node other ∨ (node, other) ∈ edges := by
  induction edges generalizing forest related with
  | nil => simpa using hforest
  | cons edge rest ih =>
    have hrest := ih (hforest.union edge.1 edge.2)
    have hedges : (fun node other => related node other ∨ (node, other) ∈ edge :: rest) =
        fun node other => (related node other ∨ (node = edge.1 ∧ other = edge.2)) ∨
          (node, other) ∈ rest := by
      funext node other
      rw [List.mem_cons, or_assoc, Prod.ext_iff]
    rw [hedges]
    exact hrest

end UnionFind

end Difflore.Foundation
