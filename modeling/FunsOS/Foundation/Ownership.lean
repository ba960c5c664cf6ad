
/-!
# Cells and what refers to them

An allocator hands out cells, and a system refers to cells in roles: this cell holds
a page, that one a table. `Owned refers used` says that a cell is referred to in one
role only, and that every cell that is referred to is in use.

A step of the system drops references (`Owned.shrink`), or adds references to a cell in
use (`Owned.add`), such as one it has just allocated. A cell may be given back when
nothing refers to it any more.
-/

set_option autoImplicit false

namespace FunsOS.Foundation

universe u v

variable {Cell : Type u} {Role : Type v} {refers refers' : Cell → Role → Prop}
  {used used' : Cell → Prop}

/-- Every cell that is referred to is in use, in one role. -/
structure Owned (refers : Cell → Role → Prop) (used : Cell → Prop) : Prop where
  role : ∀ {c r r'}, refers c r → refers c r' → r = r'
  held : ∀ {c r}, refers c r → used c

section

variable (owned : Owned refers used)
include owned

/-- Nothing refers to a cell that is not in use. -/
theorem Owned.not_refers {c : Cell} (free : ¬ used c) {r : Role} :
    ¬ refers c r := fun refer => free (owned.held refer)

/-- References are dropped, and cells that nothing refers to are given back. -/
theorem Owned.shrink (fewer : ∀ c r, refers' c r → refers c r)
    (kept : ∀ c r, refers' c r → used c → used' c) : Owned refers' used' where
  role := fun {c r r'} refer refer' => owned.role (fewer c r refer) (fewer c r' refer')
  held := fun {c r} refer => kept c r refer (owned.held (fewer c r refer))

/-- More cells are in use. -/
theorem Owned.mono (monotone : ∀ c, used c → used' c) : Owned refers used' :=
  owned.shrink (fun _ _ refer => refer) fun c _ _ => monotone c

/-- References to cells in use are added, in the role they are referred to in already. -/
theorem Owned.add {new : Cell → Prop} {role : Role}
    (inUse : ∀ c, new c → used c) (alone : ∀ c r, new c → refers c r → r = role)
    (cases : ∀ c r, refers' c r → refers c r ∨ (new c ∧ r = role)) : Owned refers' used := by
  constructor
  case role =>
    intro c r r' refer refer'
    rcases cases c r refer with old | ⟨isNew, rfl⟩
    · rcases cases c r' refer' with old' | ⟨isNew, rfl⟩
      · exact owned.role old old'
      · exact alone c r isNew old
    · rcases cases c r' refer' with old' | ⟨-, rfl⟩
      · exact (alone c r' isNew old').symm
      · rfl
  case held =>
    intro c r refer
    rcases cases c r refer with old | ⟨isNew, -⟩
    · exact owned.held old
    · exact inUse c isNew

end

end FunsOS.Foundation
