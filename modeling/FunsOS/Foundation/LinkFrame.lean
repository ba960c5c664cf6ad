import FunsOS.Foundation.PointerTree

/-!
# Where an update of a linked tree can reach

Several trees may share one family of child and parent links. An update of one of them leaves
the others alone because everything it reads and writes is reached from the tree's own root:
`Links.Within S L` says that the links of `L` do not lead out of the set `S`, and
`Links.Inside S L L'` that an update kept this and changed no link outside `S`. The updates of
`PointerTree` are inside every set their links stay within.
-/

set_option autoImplicit false

namespace FunsOS.Foundation

namespace Links

universe u

variable {α : Type u} {L M K : Links α} {S : Set α} {a x : α} {side : Side}
  {place : Option (Side × α)}

/-- The root pointer and the links of the nodes in the set do not lead out of it. -/
structure Within (S : Set α) (L : Links α) : Prop where
  root : ∀ {b}, L.root = some b → b ∈ S
  parent : ∀ {a b}, a ∈ S → L.parent a = some b → b ∈ S
  child : ∀ {s a b}, a ∈ S → L.child s a = some b → b ∈ S

/-- The second family of links stays within the set and is the first one outside of it. -/
structure Inside (S : Set α) (L M : Links α) : Prop where
  within : M.Within S
  outside : ∀ a ∉ S, M.parent a = L.parent a ∧ ∀ s, M.child s a = L.child s a

theorem Inside.refl (within : L.Within S) : Inside S L L := ⟨within, fun _ _ => ⟨rfl, fun _ => rfl⟩⟩

theorem Inside.trans (first : Inside S L M) (second : Inside S M K) : Inside S L K := by
  refine ⟨second.within, fun a outside => ⟨?_, fun s => ?_⟩⟩
  · rw [(second.outside a outside).1, (first.outside a outside).1]
  · rw [(second.outside a outside).2 s, (first.outside a outside).2 s]

/-- The links of a tree stay within its nodes. -/
theorem Represents.within {t : BinaryTree α} (rep : L.Represents t) :
    L.Within {a | a ∈ inorder t} := by
  refine ⟨fun leads => ?_, fun {a b} member leads => ?_, fun {s a b} member leads => ?_⟩
  · exact rep.reach_iff.mp (.root leads)
  · obtain ⟨fs, l, r, rfl⟩ := exists_plug_of_mem member
    have parent : L.parent a = above fs := (holds_plug.mp rep.holds).2.2.1
    exact mem_inorder_plug.mpr (.inr (mem_ctxNodes_of_above (parent.symm.trans leads)))
  · exact rep.reach_iff.mp (.child (rep.reach_iff.mpr member) leads)

section Updates

variable [DecidableEq α] {value p : Option α}

section

variable (inside : Inside S L M) (stays : ∀ b, value = some b → b ∈ S)
include inside stays

omit [DecidableEq α] in
theorem Inside.setRoot : Inside S L { M with root := value } :=
  ⟨⟨fun leads => stays _ leads, inside.within.parent, inside.within.child⟩, inside.outside⟩

theorem Inside.setChild (member : a ∈ S) : Inside S L (M.setChild side a value) := by
  refine ⟨⟨inside.within.root, inside.within.parent, ?_⟩, fun c outside => ?_⟩
  · intro s c b member_c leads
    rw [setChild_child] at leads
    split at leads
    · exact stays b leads
    · exact inside.within.child member_c leads
  · have other : c ≠ a := fun same => outside (same ▸ member)
    refine ⟨(inside.outside c outside).1, fun s => ?_⟩
    rw [setChild_child_of_ne other]
    exact (inside.outside c outside).2 s

theorem Inside.setParent (member : a ∈ S) : Inside S L (M.setParent a value) := by
  refine ⟨⟨inside.within.root, ?_, inside.within.child⟩, fun c outside => ?_⟩
  · intro c b member_c leads
    by_cases same : c = a
    · subst same
      rw [setParent_parent_self] at leads
      exact stays b leads
    · rw [setParent_parent_of_ne same] at leads
      exact inside.within.parent member_c leads
  · have other : c ≠ a := fun same => outside (same ▸ member)
    rw [setParent_parent_of_ne other]
    exact inside.outside c outside

theorem Inside.setParentOf (member : ∀ b, p = some b → b ∈ S) :
    Inside S L (M.setParentOf p value) := by
  cases p with
  | none => exact inside
  | some b => exact inside.setParent stays (member b rfl)

theorem Inside.replace (member : a ∈ S) : Inside S L (M.replace side a value) := by
  unfold Links.replace
  split
  · exact inside.setRoot stays
  · next above leads =>
      have above_member := inside.within.parent member leads
      split
      · exact inside.setChild stays above_member
      · exact inside.setChild stays above_member

end

/-- A rotation at a node of the set. -/
theorem Within.rotate (within : L.Within S) (member : x ∈ S) (rotated : L.rotate side x = some M) :
    Inside S L M := by
  unfold Links.rotate at rotated
  split at rotated
  · cases rotated
  · next y leads =>
      have y_member := within.child member leads
      rw [← Option.some.inj rotated]
      have first : Inside S L (L.setChild side.flip x (L.child side y)) :=
        (Inside.refl within).setChild (fun b leads => within.child y_member leads) member
      have to_x : ∀ b, some x = some b → b ∈ S := fun b same => Option.some.inj same ▸ member
      have to_y : ∀ b, some y = some b → b ∈ S := fun b same => Option.some.inj same ▸ y_member
      have second := first.setParentOf to_x fun b => first.within.child (s := side) y_member
      have third := second.setParent (fun b leads => second.within.parent member leads) y_member
      exact ((third.replace to_y member).setChild to_x y_member).setParent to_y member

omit [DecidableEq α] in
/-- A walk from a pointer into the set ends at a link of a node of the set. -/
theorem Within.walk (within : L.Within S) {goLeft : α → Bool} {fuel : Nat}
    {at_ : Option (Side × α)} (starts : ∀ b, p = some b → b ∈ S)
    (at_member : ∀ b, at_ = some b → b.2 ∈ S) (walked : L.walk goLeft fuel p at_ = some place) :
    ∀ b, place = some b → b.2 ∈ S := by
  induction fuel generalizing p at_ with
  | zero => cases walked
  | succ fuel ih =>
    cases p with
    | none =>
      cases walked
      exact at_member
    | some a =>
      have member := starts a rfl
      rw [Links.walk] at walked
      split at walked
      all_goals
        refine ih (fun b leads => within.child member leads) ?_ walked
        rintro b ⟨⟩
        exact member

/-- A node outside the set that is attached to a node of the set. -/
theorem Within.attach (within : L.Within S) (at_member : ∀ b, place = some b → b.2 ∈ S)
    (fresh : a ∉ S) : Inside (insert a S) L (L.attach place a) := by
  have other : ∀ {c}, c ∈ S → c ≠ a := fun member same => fresh (same ▸ member)
  -- the links of the new node may lead anywhere before they are set
  have cleared : Inside (insert a S) L (((L.setParent a (place.map Prod.snd)).setChild .left a
      none).setChild .right a none) := by
    refine ⟨⟨fun leads => .inr (within.root leads), ?_, ?_⟩, fun c outside => ?_⟩
    · intro c b member leads
      simp only [setChild_parent] at leads
      rcases member with rfl | member
      · rw [setParent_parent_self, Option.map_eq_some_iff] at leads
        obtain ⟨link, at_place, rfl⟩ := leads
        exact .inr (at_member link at_place)
      · rw [setParent_parent_of_ne (other member)] at leads
        exact .inr (within.parent member leads)
    · intro s c b member leads
      rcases member with rfl | member
      · cases s <;> simp [setChild_child] at leads
      · rw [setChild_child_of_ne (other member), setChild_child_of_ne (other member)] at leads
        exact .inr (within.child member leads)
    · have c_ne : c ≠ a := fun same => outside (.inl same)
      simp only [setChild_parent, setParent_parent_of_ne c_ne, setChild_child_of_ne c_ne,
        setParent_child, implies_true, and_self]
  have to_a : ∀ b, some a = some b → b ∈ insert a S := fun b same => .inl (Option.some.inj same).symm
  cases place with
  | none => exact cleared.setRoot to_a
  | some link => exact cleared.setChild to_a (.inr (at_member link rfl))

/-- A node of the set that is taken out. -/
theorem Within.unlink (within : L.Within S) (member : a ∈ S) : Inside S L (L.unlink a) := by
  have replacement : ∀ b, (L.child .left a).or (L.child .right a) = some b → b ∈ S := by
    intro b leads
    rcases Option.or_eq_some_iff.mp leads with leads | ⟨-, leads⟩
    · exact within.child member leads
    · exact within.child member leads
  have up : ∀ b, L.parent a = some b → b ∈ S := fun b leads => within.parent member leads
  have first := (Inside.refl within).setParentOf up replacement
  exact first.replace replacement member

end Updates

end Links

end FunsOS.Foundation
