import Mathlib.Data.List.Basic

/-!
# The table of file locks

`fs/flock.c` keeps one list of locks with at most one entry per file descriptor. An entry has
a type, a number of holders and the process of an exclusive lock; which processes hold a
shared lock is not recorded.

`flock_acquire` looks for the entry of the descriptor. If there is one, the request is
decided on it (`requestOn`), which may change or remove it; if there is none, a new entry is
put in front. `flock_release_fd` walks over the whole list.

The table is characterised by what `flock_find` returns: a call changes the lock of its
descriptor only (`FlockTable.Edited`).
-/

set_option autoImplicit false

namespace FunsOS.Flock

open List

/-- A process, by its `pid`. -/
abbrev Pid := Nat

def lockSh : UInt32 := 1

def lockEx : UInt32 := 2

def lockUn : UInt32 := 3

def lockNb : UInt32 := 4

def maxFileLocks : Nat := 256

/-- The fields of `file_lock_t` that are read. -/
structure FileLock where
  fd : Int
  lockType : UInt32
  holderCount : UInt32
  exclusivePid : Pid
  deriving Repr, DecidableEq

/-- `flock_table_t`: the list from its head, and the count. -/
structure FlockTable where
  locks : List FileLock
  count : Nat
  deriving Repr, DecidableEq

def flockInit : FlockTable := { locks := [], count := 0 }

variable (table : FlockTable)

def flockFind (fd : Int) : Option FileLock :=
  table.locks.find? fun lock => lock.fd == fd

def currentPid (current : Option Pid) : Pid := current.getD 0

/-! ## Requests -/

/-- The part of `flock_acquire` for a descriptor that has a lock: the return code, and the
lock afterwards (`none` if it is removed from the list). -/
def requestOn (lock : FileLock) (myPid : Pid) (lockType : UInt32) : Int × Option FileLock :=
  if lockType = lockUn then
    if lock.lockType = lockSh then
      if lock.holderCount - 1 = 0 then (0, none)
      else (0, some { lock with holderCount := lock.holderCount - 1 })
    else if lock.lockType = lockEx then
      if lock.exclusivePid = myPid then (0, none) else (0, some lock)
    else (0, some lock)
  else if lockType = lockSh then
    if lock.lockType = lockEx ∧ lock.exclusivePid ≠ myPid then (-1, some lock)
    else (0, some { lock with holderCount := lock.holderCount + 1, lockType := lockSh })
  else if lockType = lockEx then
    if lock.lockType = lockEx ∧ lock.exclusivePid = myPid then (0, some lock)
    else if lock.lockType = lockSh ∧ 1 < lock.holderCount then (-1, some lock)
    else (0, some { lock with lockType := lockEx, exclusivePid := myPid, holderCount := 1 })
  else (-1, some lock)

/-- Write the lock that was found back, or take it out of the list. -/
def replaceFirst (fd : Int) (after : Option FileLock) : List FileLock → List FileLock
  | [] => []
  | lock :: locks =>
    if lock.fd = fd then after.toList ++ locks else lock :: replaceFirst fd after locks

/-- The lock that `flock_acquire` makes for a descriptor without one. -/
def newLock (fd : Int) (myPid : Pid) (lockType : UInt32) : FileLock :=
  { fd
    lockType
    holderCount := 1
    exclusivePid := if lockType = lockEx then myPid else 0 }

/-- `flock_acquire`, with `sched_get_current` and whether `kmalloc` succeeds as arguments. -/
def flockAcquire (current : Option Pid) (allocates : Bool) (fd : Int) (operation : UInt32) :
    Int × FlockTable :=
  let lockType := operation &&& ~~~lockNb
  match current with
  | none => (-1, table)
  | some myPid =>
    match flockFind table fd with
    | some lock =>
      let decided := requestOn lock myPid lockType
      (decided.1,
        { locks := replaceFirst fd decided.2 table.locks
          count := if decided.2 = none then table.count - 1 else table.count })
    | none =>
      if lockType = lockUn then (0, table)
      else if maxFileLocks ≤ table.count then (-1, table)
      else if allocates then
        (0,
          { locks := newLock fd myPid lockType :: table.locks, count := table.count + 1 })
      else (-1, table)

/-- What `flock_release_fd` does to a lock of the descriptor. -/
def releaseOn (lock : FileLock) (myPid : Pid) : Option FileLock :=
  if lock.lockType = lockEx ∧ lock.exclusivePid ≠ myPid then some lock
  else if lock.lockType = lockSh then
    if lock.holderCount - 1 = 0 then none
    else some { lock with holderCount := lock.holderCount - 1 }
  else none

/-- The loop of `flock_release_fd`. -/
def releaseLocks (fd : Int) (myPid : Pid) : List FileLock → List FileLock
  | [] => []
  | lock :: locks =>
    if lock.fd = fd then (releaseOn lock myPid).toList ++ releaseLocks fd myPid locks
    else lock :: releaseLocks fd myPid locks

def flockReleaseFd (current : Option Pid) (fd : Int) : FlockTable :=
  let locks := releaseLocks fd (currentPid current) table.locks
  { locks, count := table.count - (table.locks.length - locks.length) }

/-! ## One lock per descriptor -/

/-- No two locks of the list are for one descriptor. -/
def FlockTable.OnePerFd : Prop := (table.locks.map FileLock.fd).Nodup

theorem flockInit_onePerFd : flockInit.OnePerFd := nodup_nil

variable {fd : Int} {lock : FileLock} {locks : List FileLock} {table : FlockTable}
  {after : Option FileLock} {myPid : Pid} {count : Nat}

theorem flockFind_fd (found : flockFind table fd = some lock) : lock.fd = fd := by
  simpa using find?_some found

/-- The descriptors of a list after a replacement are among those before. -/
theorem replaceFirst_fds (keeps : ∀ a ∈ after, a.fd = fd) :
    ((replaceFirst fd after locks).map FileLock.fd).Sublist (locks.map FileLock.fd) := by
  induction locks with
  | nil => exact List.Sublist.refl _
  | cons lock locks ih =>
    rw [replaceFirst]
    split
    · rename_i same
      cases after with
      | none => exact sublist_cons_self _ _
      | some a =>
        have fd_eq : a.fd = lock.fd := (keeps a rfl).trans same.symm
        simp [fd_eq]
    · exact ih.cons_cons _

theorem replaceFirst_find_other {other : Int} (ne : other ≠ fd) (keeps : ∀ a ∈ after, a.fd = fd) :
    (replaceFirst fd after locks).find? (fun lock => lock.fd == other) =
      locks.find? fun lock => lock.fd == other := by
  induction locks with
  | nil => rfl
  | cons lock locks ih =>
    rw [replaceFirst]
    split
    · rename_i same
      have notLock : lock.fd ≠ other := fun eq => ne (eq.symm.trans same)
      cases after with
      | none => simp [notLock]
      | some a =>
        have notAfter : a.fd ≠ other := fun eq => ne (eq.symm.trans (keeps a rfl))
        simp [notLock, notAfter]
    · rw [find?_cons, find?_cons, ih]

theorem find_eq_none_iff :
    locks.find? (fun lock => lock.fd == fd) = none ↔ fd ∉ locks.map FileLock.fd := by
  simp

theorem replaceFirst_find_same (keeps : ∀ a ∈ after, a.fd = fd)
    (unique : (locks.map FileLock.fd).Nodup)
    (found : locks.find? (fun lock => lock.fd == fd) = some lock) :
    (replaceFirst fd after locks).find? (fun lock => lock.fd == fd) = after := by
  induction locks with
  | nil => cases found
  | cons first locks ih =>
    obtain ⟨absent, unique⟩ := nodup_cons.mp unique
    rw [replaceFirst]
    split
    · rename_i same
      rw [same] at absent
      cases after with
      | none => exact find_eq_none_iff.mpr absent
      | some a => simp [keeps a rfl]
    · rename_i different
      rw [find?_cons_of_neg (by simpa using different)] at found ⊢
      exact ih unique found

theorem releaseLocks_of_absent (absent : fd ∉ locks.map FileLock.fd) :
    releaseLocks fd myPid locks = locks := by
  induction locks with
  | nil => rfl
  | cons lock locks ih =>
    rw [map_cons, mem_cons, not_or] at absent
    rw [releaseLocks, if_neg (Ne.symm absent.1), ih absent.2]

/-- On a list with one lock per descriptor the loop of `flock_release_fd` meets one lock. -/
theorem releaseLocks_of_found (unique : (locks.map FileLock.fd).Nodup)
    (found : locks.find? (fun lock => lock.fd == fd) = some lock) :
    releaseLocks fd myPid locks = replaceFirst fd (releaseOn lock myPid) locks := by
  induction locks with
  | nil => cases found
  | cons first locks ih =>
    obtain ⟨absent, unique⟩ := nodup_cons.mp unique
    rw [releaseLocks, replaceFirst]
    split
    · rename_i same
      rw [find?_cons_of_pos (by simpa using same)] at found
      cases found
      rw [same] at absent
      rw [releaseLocks_of_absent absent]
    · rename_i different
      rw [find?_cons_of_neg (by simpa using different)] at found
      rw [ih unique found]

/-! ## What the calls do to the table -/

/-- The second table has the given lock for the descriptor and otherwise the locks of the
first. -/
structure FlockTable.Edited (table : FlockTable) (fd : Int) (after : Option FileLock)
    (result : FlockTable) : Prop where
  onePerFd : result.OnePerFd
  here : flockFind result fd = after
  elsewhere : ∀ other ≠ fd, flockFind result other = flockFind table other

theorem FlockTable.OnePerFd.replace (onePerFd : table.OnePerFd)
    (found : flockFind table fd = some lock) (keeps : ∀ a ∈ after, a.fd = fd) :
    table.Edited fd after { locks := replaceFirst fd after table.locks, count } where
  onePerFd := (replaceFirst_fds keeps).nodup onePerFd
  here := replaceFirst_find_same keeps onePerFd found
  elsewhere := fun _ ne => replaceFirst_find_other ne keeps

/-- Putting a lock in front for a descriptor that has none. -/
theorem FlockTable.OnePerFd.add (onePerFd : table.OnePerFd)
    (absent : flockFind table lock.fd = none) :
    table.Edited lock.fd (some lock) { locks := lock :: table.locks, count } where
  onePerFd := nodup_cons.mpr ⟨find_eq_none_iff.mp absent, onePerFd⟩
  here := find?_cons_of_pos (by simp)
  elsewhere := fun other ne => find?_cons_of_neg (by simpa using ne.symm)

theorem FlockTable.OnePerFd.release (onePerFd : table.OnePerFd) (current : Option Pid) (fd : Int) :
    table.Edited fd ((flockFind table fd).bind fun lock => releaseOn lock (currentPid current))
      (flockReleaseFd table current fd) := by
  cases found : flockFind table fd with
  | none =>
    rw [flockReleaseFd, releaseLocks_of_absent (find_eq_none_iff.mp found)]
    exact ⟨onePerFd, found, fun _ _ => rfl⟩
  | some lock =>
    rw [flockReleaseFd, releaseLocks_of_found onePerFd found]
    refine onePerFd.replace found (fun after decided => ?_)
    have isFd := flockFind_fd found
    change releaseOn lock (currentPid current) = some after at decided
    unfold releaseOn at decided
    split_ifs at decided <;> cases decided <;> exact isFd

end FunsOS.Flock
