import Mathlib.Tactic.NormNum
import FunsOS.Foundation.TextScan

/-!
# Path strings

`path_normalize` and `path_join` of `fs/path.c`. A C string is the list of its bytes before the
terminator. Both write into a buffer of `PATH_MAX` bytes and fail when it is too small.

A path shorter than `PATH_MAX` has at most `PATH_MAX / 2` components, which is the size of the
tables in which `path_normalize` keeps them.

What `path_normalize` returns depends only on whether the path is absolute and on its segments
between slashes (`pathNormalize_congr`), so that joining paths with any number of slashes
between them gives the same normalized path.
-/

set_option autoImplicit false

namespace FunsOS.Path

open Foundation List

/-- A C string. -/
abbrev Name := List UInt8

/-- The character `/`. -/
def slash : UInt8 := 47

/-- The character `.`. -/
def period : UInt8 := 46

def pathMax : Nat := 4096

/-! ## The code -/

/-- The first loop of `path_normalize`, with the components found so far. Every round reads a
character, so the length of the path bounds the rounds. -/
def componentLoop : Nat → Name → List Name → List Name
  | 0, _, components => components
  | fuel + 1, path, components =>
    let path := path.dropWhile (· == slash)
    if path = [] then components
    else
      let component := path.takeWhile (· != slash)
      let path := path.dropWhile (· != slash)
      if component = [period] then componentLoop fuel path components
      else if component = [period, period] then componentLoop fuel path components.dropLast
      else componentLoop fuel path (components ++ [component])

/-- Writes a character if the terminator still fits behind it. -/
def pushChar (out : Name) (c : UInt8) : Option Name :=
  if out.length + 1 ≥ pathMax then none else some (out ++ [c])

/-- The second loop of `path_normalize`: the components with slashes between them. -/
def writeComponents : Name → Nat → List Name → Option Name
  | out, _, [] => some out
  | out, c, component :: components => do
      let out ← if c > 0 then pushChar out slash else some out
      let out ← component.foldlM pushChar out
      writeComponents out (c + 1) components

/-- `path_normalize` into a buffer of `PATH_MAX` bytes; `none` is `-1`. -/
def pathNormalize (path : Name) : Option Name :=
  let isAbs := path.head? = some slash
  let components := componentLoop (path.length + 1) path []
  (writeComponents (if isAbs then [slash] else []) 0 components).map fun out =>
    if out = [] then [period] else out

/-- `path_join` into a buffer of `PATH_MAX` bytes; `none` is `-1`. -/
def pathJoin (dir name : Name) : Option Name :=
  let dir := dir.rdropWhile (· == slash)
  let name := name.dropWhile (· == slash)
  if dir.length + 1 + name.length + 1 > pathMax then none else some (dir ++ slash :: name)

/-! ## What normalizing depends on -/

/-- What the first loop does with one component. -/
def addComponent (components : List Name) (component : Name) : List Name :=
  if component = [period] then components
  else if component = [period, period] then components.dropLast
  else components ++ [component]

variable {path dir name joined later : Name} {stack : Nat → UInt8}

/-- The first loop runs through the segments of the path. -/
theorem componentLoop_eq {fuel : Nat} (enough : path.length < fuel) (components : List Name) :
    componentLoop fuel path components = (segments slash path).foldl addComponent components := by
  induction fuel generalizing path components with
  | zero => omega
  | succ fuel ih =>
    rw [componentLoop, ← segments_dropWhile path]
    have shorter : (path.dropWhile (· == slash)).length ≤ path.length := length_dropWhile_le _ _
    generalize stripped : path.dropWhile (· == slash) = left at shorter ⊢
    cases left with
    | nil => simp
    | cons c left =>
      have other : c ≠ slash := by
        intro same
        have first := List.head?_dropWhile_not (· == slash) path
        rw [stripped] at first
        simp [same] at first
      have rest : (left.dropWhile (· != slash)).length < fuel := by
        have := length_dropWhile_le (· != slash) left
        simp only [length_cons] at shorter
        omega
      rw [if_neg (cons_ne_nil _ _), segments_cons_of_ne other, foldl_cons,
        takeWhile_cons_of_pos (by simpa using other),
        dropWhile_cons_of_pos (by simpa using other), addComponent]
      dsimp only
      split_ifs
      · exact ih rest _
      · exact ih rest _
      · exact ih rest _

/-- **Normalizing depends on the segments only.** -/
theorem pathNormalize_congr {other : Name}
    (absolute : path.head? = some slash ↔ other.head? = some slash)
    (same : segments slash path = segments slash other) :
    pathNormalize path = pathNormalize other := by
  simp only [pathNormalize, componentLoop_eq (Nat.lt_succ_self _), same, absolute]

theorem segments_pathJoin (join : pathJoin dir name = some joined) :
    segments slash joined = segments slash dir ++ segments slash name := by
  simp only [pathJoin] at join
  split at join
  · cases join
  · rw [← Option.some.inj join, segments_append, segments_rdropWhile, segments_dropWhile]

theorem head?_pathJoin (join : pathJoin dir name = some joined) (absolute : dir.head? = some slash) :
    joined.head? = some slash := by
  simp only [pathJoin] at join
  split at join
  · cases join
  · rw [← Option.some.inj join]
    cases stripped : dir.rdropWhile (· == slash) with
    | nil => rfl
    | cons c left =>
      have isPrefix := rdropWhile_prefix (· == slash) dir
      rw [stripped] at isPrefix
      obtain ⟨tail, rfl⟩ := isPrefix
      simpa using absolute

/-- Paths that are short enough can be joined. -/
theorem pathJoin_isSome (room : dir.length + 1 + (name.dropWhile (· == slash)).length < pathMax) :
    ∃ joined, pathJoin dir name = some joined ∧
      joined.length ≤ dir.length + 1 + (name.dropWhile (· == slash)).length := by
  have shorter : (dir.rdropWhile (· == slash)).length ≤ dir.length :=
    ( rdropWhile_prefix _ _).length_le
  refine ⟨_, if_neg (by omega), ?_⟩
  simp only [length_append, length_cons]
  omega

/-!
## Path resolution

`path_resolve` of `fs/path.c` normalizes a path and walks down the dentry tree. At a symbolic
link it puts together a new path from the link's target and the rest of the path, and starts
again; a relative target is put behind the path of the link's directory, which `dentry_path`
writes backwards into a buffer. The loop counts the links it has followed.

`dentry_path` reserves a byte for the leading slash of a directory below the root and does not
write it. The path it returns starts with whatever the stack had there, and it is right exactly
for the root and when that byte happens to be a slash (`dentryPath_eq_iff`). A relative link
then resolves as the path through its directory does (`relative_link_resolves_iff`).
-/

open Option Nat

universe u

def symlinkMaxFollow : Nat := 8

def childMaxIter : Nat := 512

/-- The size of `component`. -/
def componentMax : Nat := 256

/-- The dentries as `path_resolve` reads them. `kernelAddress` says that an address is at least
`0xC0000000`. `lookup` is the file system's operation, where there is one, and so is `readlink`,
which gives the target or an error. A dentry other than the root is farther from the root than
its parent. -/
structure Vfs (D : Type u) where
  root : D
  cwd : Option D
  name : D → Name
  parent : D → Option D
  children : D → List D
  kernelAddress : D → Bool
  mountPoint : D → Bool
  mounts : List (D × D)
  isLink : D → Bool
  lookup : D → Name → Option D
  readlink : D → Option Name
  depth : D → Nat
  depth_parent : ∀ d p, d ≠ root → parent d = some p → depth p < depth d
  name_terminated : ∀ d, (0 : UInt8) ∉ name d

/-- What a walk along a path comes to. -/
inductive Walk (D : Type u) where
  | failed
  | arrived (d : D)
  | link (found : D) (rest : Name)

namespace Vfs

variable {D : Type u} [DecidableEq D]

/-! ## Writing the path of a dentry -/

/-- The first loop of `dentry_path`: the names and their slashes. -/
def lengthLoop (v : Vfs D) : Nat → Option D → Nat
  | 0, _ => 0
  | _ + 1, none => 0
  | fuel + 1, some p =>
    if p = v.root then 0 else (v.name p).length + 1 + v.lengthLoop fuel (v.parent p)

/-- The second loop of `dentry_path`, with the bytes written so far, from `pos` on. -/
def writeLoop (v : Vfs D) : Nat → Option D → Name → Name
  | 0, _, written => written
  | _ + 1, none, written => written
  | fuel + 1, some p, written =>
    if p = v.root then written
    else
      let written := v.name p ++ written
      let p := v.parent p
      v.writeLoop fuel p (if p ≠ none ∧ p ≠ some v.root then slash :: written else written)

variable (v : Vfs D)

/-- `dentry_path` into a buffer of `PATH_MAX` bytes that has the contents `stack`; `none` is
`-1`. The result is the C string at the start of the buffer. -/
def dentryPath (stack : Nat → UInt8) (d : D) : Option Name :=
  if d = v.root then some [slash]
  else
    let len := 1 + v.lengthLoop (v.depth d + 1) (some d)
    if len > pathMax then none
    else
      let written := v.writeLoop (v.depth d + 1) (some d) []
      let pos := len - 1 - written.length
      some (((range pos).map stack ++ written).takeWhile (· != 0))

/-! ## Walking and following links -/

/-- Goes over to the root of the file system that is mounted on a dentry. -/
def cross (d : D) : D :=
  if v.mountPoint d then ((v.mounts.find? fun mount => mount.1 == d).map Prod.snd).getD d else d

/-- The child of that name: in the child list, or else by the file system's `lookup`. -/
def findChild (d : D) (component : Name) : Option D :=
  ((((v.children d).take childMaxIter).takeWhile v.kernelAddress).find? fun child =>
    v.name child == component).or (v.lookup d component)

/-- The inner loop of `path_resolve_internal`, from a dentry along the rest of a path. Every
round reads a character, so the length of the path bounds the rounds. -/
def walkLoop (v : Vfs D) (followLast : Bool) : Nat → D → Name → Walk D
  | 0, current, _ => .arrived current
  | fuel + 1, current, work =>
    let work := work.dropWhile (· == slash)
    if work = [] then .arrived current
    else
      let component := work.takeWhile (· != slash)
      let work := work.dropWhile (· != slash)
      if component.length ≥ componentMax then .failed
      else
        match v.findChild (v.cross current) component with
        | none => .failed
        | some found =>
          if v.isLink found then
            if work = [] ∧ followLast = false then .arrived found else .link found work
          else v.walkLoop followLast fuel found work

/-- The walk along a normalized path, from the root or the working directory. -/
def walk (followLast : Bool) (work : Name) : Walk D :=
  v.walkLoop followLast (work.length + 1)
    (if work.head? = some slash then v.root else v.cwd.getD v.root) work

def linkDir (found : D) : D := (v.parent found).getD v.root

/-- The path to go on with from a link; `stack` is the buffer for the path of its directory. -/
def follow (stack : Nat → UInt8) (found : D) (rest : Name) : Option Name := do
  let target ← v.readlink found
  let combined ←
    if target.head? = some slash then pathJoin target rest
    else do
      let parentPath ← v.dentryPath stack (v.linkDir found)
      let combined ← pathJoin parentPath target
      if rest.length > 0 then pathJoin combined rest else some combined
  pathNormalize combined

/-- The outer loop of `path_resolve_internal` with the number of links it may still follow;
`none` is `-1`. Each link finds the buffer for its directory with the next contents of
`frames`. -/
def resolveLoop (v : Vfs D) (followLast : Bool) : Nat → (Nat → Nat → UInt8) → Name → Option D
  | 0, _, work =>
    match v.walk followLast work with
    | .arrived d => some (v.cross d)
    | _ => none
  | links + 1, frames, work =>
    match v.walk followLast work with
    | .failed => none
    | .arrived d => some (v.cross d)
    | .link found rest =>
      (v.follow (frames 0) found rest).bind (v.resolveLoop followLast links fun i => frames (i + 1))

variable (frames : Nat → Nat → UInt8)

def pathResolveInternal (path : Name) (followLast : Bool) : Option D :=
  (pathNormalize path).bind (v.resolveLoop followLast symlinkMaxFollow frames)

def pathResolve (path : Name) : Option D :=
  v.pathResolveInternal frames path true

def pathResolveNofollow (path : Name) : Option D :=
  v.pathResolveInternal frames path false

/-! ## The path of a dentry -/

def namesLoop (v : Vfs D) : Nat → Option D → List Name
  | 0, _ => []
  | _ + 1, none => []
  | fuel + 1, some p =>
    if p = v.root then [] else v.namesLoop fuel (v.parent p) ++ [v.name p]

/-- The absolute path of a dentry: a slash and the names from the root, with slashes between. -/
def absolutePath (d : D) : Name :=
  slash :: [slash].intercalate (v.namesLoop (v.depth d + 1) (some d))

section DentryPath

variable (v : Vfs D)

/-- The path of a dentry below the root, without the leading slash. -/
def joinedNames (fuel : Nat) (d : D) : Name := [slash].intercalate (v.namesLoop fuel (some d))

variable {v} {fuel : Nat} {d : D}

section

variable (below : d ≠ v.root)
include below

/-- The names of a dentry below the root: those of its parent and its own. -/
theorem joinedNames_succ (enough : v.depth d < fuel + 1) :
    v.joinedNames (fuel + 1) d =
      if v.parent d ≠ none ∧ v.parent d ≠ some v.root then
        (v.parent d).elim [] (v.joinedNames fuel) ++ slash :: v.name d
      else v.name d := by
  rw [joinedNames, namesLoop, if_neg below]
  cases of_d : v.parent d with
  | none => cases fuel <;> simp [namesLoop]
  | some p =>
    by_cases at_root : p = v.root
    · cases fuel <;> simp [namesLoop, at_root]
    · have closer := v.depth_parent d p below of_d
      obtain ⟨fuel, rfl⟩ : ∃ k, fuel = k + 1 := ⟨fuel - 1, by omega⟩
      have nonempty : v.namesLoop (fuel + 1) (some p) ≠ [] := by
        simp [namesLoop, at_root]
      rw [if_pos ⟨by simp, by simpa using at_root⟩, intercalate_concat nonempty]
      rfl

/-- The second loop writes the names with slashes between them, and the first loop counts one
more than that. -/
theorem joinedNames_spec (enough : v.depth d < fuel) :
    v.lengthLoop fuel (some d) = (v.joinedNames fuel d).length + 1 ∧
      (∀ written, v.writeLoop fuel (some d) written = v.joinedNames fuel d ++ written) ∧
      (0 : UInt8) ∉ v.joinedNames fuel d := by
  induction fuel generalizing d with
  | zero => omega
  | succ fuel ih =>
    have name := v.name_terminated d
    simp only [joinedNames_succ below enough, lengthLoop, writeLoop, if_neg below]
    cases of_d : v.parent d with
    | none => cases fuel <;> simp [lengthLoop, writeLoop, name]
    | some p =>
      by_cases at_root : p = v.root
      · cases fuel <;> simp [lengthLoop, writeLoop, at_root, name]
      · have closer := v.depth_parent d p below of_d
        obtain ⟨length, write, terminated⟩ := ih at_root (by omega)
        have separated : (0 : UInt8) ≠ slash := by decide
        simp [at_root, length, write, terminated, separated, name]
        omega

/-- What `dentry_path` returns for a dentry below the root: the first byte is left as it was. -/
theorem dentryPath_below (fits : (v.absolutePath d).length < pathMax) : v.dentryPath stack d =
      some (if stack 0 = 0 then [] else stack 0 :: v.joinedNames (v.depth d + 1) d) := by
  obtain ⟨length, written, terminated⟩ := joinedNames_spec below (lt_add_one (v.depth d))
  change (v.joinedNames (v.depth d + 1) d).length + 1 < pathMax at fits
  rw [dentryPath, if_neg below]
  rw [length, written, if_neg (by omega)]
  have whole : (v.joinedNames (v.depth d + 1) d).takeWhile (· != 0) =
      v.joinedNames (v.depth d + 1) d := by
    rw [takeWhile_eq_self_iff]
    intro c member
    simp only [bne_iff_ne, ne_eq]
    rintro rfl
    exact terminated member
  by_cases zero : stack 0 = 0
  · simp [zero]
  · simp [zero, whole]

end

/-- **`dentry_path` is right for the root and when the stack has a slash in the right place.** -/
theorem dentryPath_eq_iff (fits : (v.absolutePath d).length < pathMax) :
    v.dentryPath stack d = some (v.absolutePath d) ↔ d = v.root ∨ stack 0 = slash := by
  by_cases at_root : d = v.root
  · simp [dentryPath, absolutePath, namesLoop, at_root]
  · rw [dentryPath_below at_root fits]
    simp only [at_root, false_or, Option.some.injEq]
    by_cases zero : stack 0 = 0
    · rw [zero]
      exact ⟨fun same => by simp [absolutePath] at same, fun same => absurd same (by decide)⟩
    · rw [if_neg zero]
      simp [absolutePath, joinedNames]

end DentryPath

/-! ## Following a link -/

section Follow

variable {v : Vfs D} {found : D}

/-- What is left of a path behind a link is nothing or starts with a slash. -/
theorem walkLoop_rest {followLast : Bool} {fuel : Nat} {current : D} {work rest : Name}
    (met : v.walkLoop followLast fuel current work = .link found rest) :
    rest = [] ∨ ∃ tail, rest = slash :: tail := by
  induction fuel generalizing current work with
  | zero => cases met
  | succ fuel ih =>
    rw [walkLoop] at met
    dsimp only at met
    split at met
    · cases met
    split at met
    · cases met
    split at met
    · cases met
    split at met
    · split at met
      · cases met
      · obtain ⟨-, rfl⟩ := Walk.link.inj met
        generalize work.dropWhile (· == slash) = left
        have first := List.head?_dropWhile_not (· != slash) left
        cases behind : left.dropWhile (· != slash) with
        | nil => exact .inl rfl
        | cons c tail =>
          rw [behind] at first
          exact .inr ⟨tail, by simpa using first⟩
    · exact ih met

/-- The path through the directory of a link: its absolute path, the target and the rest. -/
def linkPath (v : Vfs D) (found : D) (target rest : Name) : Name :=
  v.absolutePath (v.linkDir found) ++ slash :: (target ++ rest)

/-- A relative link whose directory is written rightly goes on with the path through it. -/
theorem follow_eq {target rest : Name} (reads : v.readlink found = some target)
    (relative : target.head? ≠ some slash) (behind : rest = [] ∨ ∃ tail, rest = slash :: tail)
    (fits : (v.linkPath found target rest).length < pathMax)
    (written : v.dentryPath stack (v.linkDir found) = some (v.absolutePath (v.linkDir found))) :
    v.follow stack found rest = pathNormalize (v.linkPath found target rest) := by
  have length : (v.linkPath found target rest).length =
      (v.absolutePath (v.linkDir found)).length + 1 + target.length + rest.length := by
    simp only [linkPath, length_append, length_cons]
    omega
  have stripped := length_dropWhile_le (· == slash) target
  have room : (v.absolutePath (v.linkDir found)).length + 1 +
      (target.dropWhile (· == slash)).length < pathMax := by omega
  obtain ⟨joined, join, short⟩ := pathJoin_isSome room
  have absolute : joined.head? = some slash := head?_pathJoin join rfl
  rw [follow, reads]
  simp only [bind_eq_bind, bind_some, if_neg relative, written, join]
  rcases behind with rfl | ⟨tail, rfl⟩
  · refine pathNormalize_congr (by simp [absolute, linkPath, absolutePath]) ?_
    rw [segments_pathJoin join, linkPath, segments_append, append_nil]
  · have stripped' := length_dropWhile_le (· == slash) tail
    have same : (slash :: tail).dropWhile (· == slash) = tail.dropWhile (· == slash) :=
      dropWhile_cons_of_pos (by simp)
    rw [length_cons] at length
    have room' : joined.length + 1 + ((slash :: tail).dropWhile (· == slash)).length < pathMax := by
      rw [same]
      omega
    obtain ⟨whole, join', -⟩ := pathJoin_isSome room'
    have absolute' : whole.head? = some slash := head?_pathJoin join' absolute
    simp only [length_cons, gt_iff_lt, zero_lt_succ, if_true, join', bind_some]
    refine pathNormalize_congr (by simp [absolute', linkPath, absolutePath]) ?_
    rw [segments_pathJoin join', segments_pathJoin join, linkPath, segments_append,
      segments_append, segments_sep, append_assoc]

end Follow

/-! ## The links of a run -/

/-- The path that the outer loop stands at after it has followed `k` links. -/
def workAfter (v : Vfs D) (followLast : Bool) : Nat → (Nat → Nat → UInt8) → Name → Option Name
  | 0, _, work => some work
  | k + 1, frames, work =>
    match v.walk followLast work with
    | .link found rest =>
      (v.follow (frames 0) found rest).bind (v.workAfter followLast k fun i => frames (i + 1))
    | _ => none

/-- The `k`-th link that the walk of a path meets, counted from 0, with the rest of the path. -/
def Met (v : Vfs D) (frames : Nat → Nat → UInt8) (path : Name) (followLast : Bool) (k : Nat)
    (found : D) (rest : Name) : Prop :=
  ∃ work, (pathNormalize path).bind (v.workAfter followLast k frames) = some work ∧
    v.walk followLast work = .link found rest

section Links

variable {v : Vfs D} {followLast : Bool} {frames : Nat → Nat → UInt8} {work : Name}
  {k links i : Nat} {found : D}

theorem Met.rest {rest : Name} (met : v.Met frames path followLast k found rest) :
    rest = [] ∨ ∃ tail, rest = slash :: tail := by
  obtain ⟨work, -, here⟩ := met
  exact walkLoop_rest here

theorem resolveLoop_workAfter (reached : v.workAfter followLast k frames work = some later) :
    v.resolveLoop followLast (links + k) frames work =
      v.resolveLoop followLast links (fun i => frames (i + k)) later := by
  induction k generalizing frames work with
  | zero =>
    cases reached
    rfl
  | succ k ih =>
    rw [workAfter] at reached
    rw [← add_assoc, resolveLoop]
    split at reached
    · next found rest met =>
        obtain ⟨next, followed, onward⟩ := bind_eq_some_iff.1 reached
        rw [met]
        dsimp only
        rw [followed, bind_some, ih onward]
        simp only [add_assoc]
    · cases reached

/-- A run that meets no further link after `links` of them is not stopped by the limit. -/
theorem resolveLoop_more (last : ∀ later, v.workAfter followLast links frames work = some later →
      ∀ found rest, v.walk followLast later ≠ .link found rest) {more : Nat} :
    v.resolveLoop followLast (links + more) frames work =
      v.resolveLoop followLast links frames work := by
  induction links generalizing frames work with
  | zero =>
    cases more with
    | zero => rfl
    | succ more =>
      rw [← add_assoc, resolveLoop, resolveLoop]
      cases met : v.walk followLast work with
      | failed | arrived => rfl
      | link found rest => exact absurd met (last work rfl found rest)
  | succ links ih =>
    rw [add_right_comm, resolveLoop, resolveLoop]
    cases met : v.walk followLast work with
    | failed | arrived => rfl
    | link found rest =>
      dsimp only
      cases followed : v.follow (frames 0) found rest with
      | none => rfl
      | some next =>
        refine ih fun later reached => last later ?_
        rw [workAfter, met]
        simpa [followed] using reached

/-- Following `j` links and then `i` more. -/
theorem workAfter_add {j : Nat} : v.workAfter followLast (i + j) frames work =
      (v.workAfter followLast j frames work).bind
        (v.workAfter followLast i fun n => frames (n + j)) := by
  induction j generalizing frames work with
  | zero => rfl
  | succ j ih =>
    rw [← add_assoc, workAfter, workAfter]
    cases v.walk followLast work with
    | failed | arrived => rfl
    | link found rest =>
      dsimp only
      cases v.follow (frames 0) found rest with
      | none => rfl
      | some next =>
        simp only [bind_some]
        rw [ih]
        simp only [add_assoc]

/-- A run that meets a link later meets one now. -/
theorem walk_link_of_later {rest : Name}
    (reached : v.workAfter followLast i frames work = some later)
    (met : v.walk followLast later = .link found rest) :
    ∃ found rest, v.walk followLast work = .link found rest := by
  cases i with
  | zero =>
    cases reached
    exact ⟨found, rest, met⟩
  | succ i =>
    rw [workAfter] at reached
    split at reached
    · next found rest here => exact ⟨found, rest, here⟩
    · cases reached

/-- Where the limit is not exceeded, a link that is met is not the last one allowed. -/
theorem Met.lt_limit {rest : Name} (met : v.Met frames path followLast k found rest) {limit : Nat}
    (within : ∀ found rest, ¬ v.Met frames path followLast limit found rest) : k < limit := by
  by_contra late
  obtain ⟨i, rfl⟩ : ∃ i, k = i + limit := ⟨k - limit, by omega⟩
  obtain ⟨work, reached, here⟩ := met
  obtain ⟨start, normal, after⟩ := bind_eq_some_iff.1 reached
  rw [workAfter_add] at after
  obtain ⟨earlier, at_limit, onward⟩ := bind_eq_some_iff.1 after
  obtain ⟨found', rest', met'⟩ := walk_link_of_later onward here
  exact within found' rest' ⟨earlier, by rw [normal, bind_some, at_limit], met'⟩

/-- After a link, resolution goes on as if it had started with the path that the link leads
to. -/
theorem resolve_after_link {rest : Name} (met : v.Met frames path followLast k found rest)
    (within : ∀ found rest, ¬ v.Met frames path followLast symlinkMaxFollow found rest) :
    v.pathResolveInternal frames path followLast =
      (v.follow (frames k) found rest).bind
        (v.resolveLoop followLast symlinkMaxFollow fun i => frames (i + (k + 1))) := by
  have below := met.lt_limit within
  obtain ⟨m, limit⟩ : ∃ m, symlinkMaxFollow = m + 1 + k := ⟨symlinkMaxFollow - k - 1, by omega⟩
  obtain ⟨work, reached, here⟩ := met
  obtain ⟨start, normal, after⟩ := bind_eq_some_iff.1 reached
  rw [pathResolveInternal, normal, bind_some, limit, resolveLoop_workAfter after, resolveLoop, here]
  dsimp only
  rw [zero_add]
  cases followed : v.follow (frames k) found rest with
  | none => rfl
  | some next =>
    simp only [bind_some, add_assoc, add_comm 1 k]
    refine (resolveLoop_more (fun later onward found' rest' met' => ?_)).symm
    -- one more link would be the one beyond the limit
    refine within found' rest' ⟨later, ?_, met'⟩
    rw [normal, bind_some, limit, workAfter_add, after, bind_some, workAfter, here]
    dsimp only
    rw [zero_add, followed, bind_some]
    simpa only [add_assoc, add_comm 1 k] using onward

end Links

end Vfs

/-- **Relative links.** For every link with a relative target that the walk of a path meets,
`dentry_path` writes the absolute path of its directory and the path resolves as the one through
that directory, exactly if the directory is the root or the stack happens to have a slash where
`dentry_path` writes nothing. -/
theorem relative_link_resolves_iff {D : Type u} [DecidableEq D] (v : Vfs D)
    (frames : Nat → Nat → UInt8) (path : Name) (k : Nat) (found : D) (target rest : Name)
    (met : v.Met frames path true k found rest) (reads : v.readlink found = some target)
    (relative : target.head? ≠ some slash)
    (within : ∀ found rest, ¬ v.Met frames path true symlinkMaxFollow found rest)
    (fits : (v.linkPath found target rest).length < pathMax) :
    (v.dentryPath (frames k) (v.linkDir found) = some (v.absolutePath (v.linkDir found)) ∧
      v.pathResolve frames path =
        v.pathResolve (fun i => frames (i + (k + 1))) (v.linkPath found target rest)) ↔
      v.linkDir found = v.root ∨ frames k 0 = slash := by
  have dir_fits : (v.absolutePath (v.linkDir found)).length < pathMax := by
    rw [Vfs.linkPath, length_append] at fits
    omega
  rw [← Vfs.dentryPath_eq_iff dir_fits]
  refine and_iff_left_of_imp fun written => ?_
  rw [Vfs.pathResolve, Vfs.resolve_after_link met within,
    Vfs.follow_eq reads relative met.rest fits written]
  rfl

/-- A tree of four entries. -/
scoped instance neZeroFour : NeZero 4 := ⟨by decide⟩

/-- The root, a directory `a` with a file `f`, and a link `l` in the directory `linkDir` with that
target. -/
def smallTree (linkDir : Fin 4) (target : Name) : Vfs (Fin 4) where
  root := 0
  cwd := none
  name d := [[47], [97], [108], [102]].getD d []
  parent d := [some 0, some 0, some (if linkDir = 0 then 0 else 1), some 1].getD d none
  children d := [if linkDir = 0 then [2, 1] else [1], if linkDir = 0 then [3] else [2, 3]].getD d []
  kernelAddress _ := true
  mountPoint _ := false
  mounts := []
  isLink d := d = 2
  lookup _ _ := none
  readlink d := if d = 2 then some target else none
  depth d := [0, 1, 2, 2].getD d 0
  depth_parent := by cases decEq linkDir 0 <;> simp_all <;> decide
  name_terminated := by decide

/-- The link `/l` to `a/f` resolves as `//a/f`. -/
theorem link_in_root_resolves :
    (smallTree 0 [97, 47, 102]).pathResolve (fun _ _ => 0) [47, 108] =
      (smallTree 0 [97, 47, 102]).pathResolve (fun _ _ => 0) [47, 47, 97, 47, 102] := by
  have met : (smallTree 0 [97, 47, 102]).Met (fun _ _ => 0) [47, 108] true 0 2 [] :=
    ⟨[47, 108], by decide +kernel, rfl⟩
  have within : ∀ found rest, ¬ (smallTree 0 [97, 47, 102]).Met (fun _ _ => 0) [47, 108] true
      symlinkMaxFollow found rest := by
    rintro found rest ⟨work, reached, -⟩
    have stopped : (pathNormalize [47, 108]).bind
        ((smallTree 0 [97, 47, 102]).workAfter true symlinkMaxFollow fun _ _ => 0) = none := by
      decide +kernel
    rw [stopped] at reached
    cases reached
  exact ((relative_link_resolves_iff (smallTree 0 [97, 47, 102]) (fun _ _ => 0) [47, 108] 0 2
    [97, 47, 102] [] met (by decide) (by decide) within (by decide +kernel)).2 (.inl rfl)).2

/-- The link `/a/l` to `f`, with a stack of zeros: the path of `/a` is written as the empty
string, so that the link leads to `/f`, which does not exist. -/
theorem link_below_root_is_lost :
    (smallTree 1 [102]).dentryPath (fun _ => 0) 1 = some [] ∧
      (smallTree 1 [102]).absolutePath 1 = [47, 97] ∧
      (smallTree 1 [102]).pathResolve (fun _ _ => 0) [47, 97, 47, 108] = none ∧
      (smallTree 1 [102]).pathResolve (fun _ _ => 0) [47, 97, 47, 102] = some 3 := by
  decide +kernel

end FunsOS.Path
