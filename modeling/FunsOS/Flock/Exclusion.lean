import Mathlib.Tactic.NormNum
import FunsOS.Flock.Table
import FunsOS.Foundation.Runs

/-!
# Who holds a file lock

A process holds a shared or an exclusive lock on a descriptor from a successful request until
its own `LOCK_UN`, conversion or release. That is what the callers of `fs/flock.c` rely on,
and it is defined from the calls and their return codes alone (`Locks.step`). The table is
the code's record of it: an exclusive entry names its holder, a shared entry only counts.

`Backed` says that the record is good: an exclusive entry names every holder, a shared entry
counts at least as many as hold the lock, and without an entry nobody holds it. It gives the
exclusion (`Locks.Recorded.excludes`).

Several calls break the record, because the code does not know who holds a shared lock and
does not look at the owner of an exclusive one. `Fits` says which calls do not; every run of
such calls keeps exclusive locks exclusive (`flock_excludes`).
-/

set_option autoImplicit false

namespace FunsOS.Flock

open Foundation List Option

/-! ## Locks held -/

inductive Mode where
  | shared
  | exclusive
  deriving Repr, DecidableEq

/-- A process holds a lock on a descriptor. -/
structure Holding where
  pid : Pid
  fd : Int
  mode : Mode
  deriving Repr, DecidableEq

variable {fd other : Int} {pid : Pid} {lock : FileLock} {holding : Holding}

section

variable (held : List Holding)

/-- The locks held on a descriptor. -/
def heldOn (fd : Int) : List Holding :=
  held.filter fun holding => decide (holding.fd = fd)

/-- The locks held by other processes. -/
def byOthers (pid : Pid) : List Holding :=
  held.filter fun holding => decide (holding.pid ≠ pid)

/-- The process no longer holds a lock on the descriptor. -/
def dropLock (pid : Pid) (fd : Int) : List Holding :=
  held.filter fun holding => decide (¬(holding.pid = pid ∧ holding.fd = fd))

/-- The process now holds this lock on the descriptor, and no other. -/
def grantLock (holding : Holding) : List Holding :=
  holding :: dropLock held holding.pid holding.fd

theorem heldOn_dropLock : heldOn (dropLock held pid fd) fd = byOthers (heldOn held fd) pid := by
  rw [heldOn, dropLock, byOthers, heldOn, List.filter_filter, List.filter_filter]
  refine List.filter_congr fun holding _ => ?_
  by_cases here : holding.fd = fd
  · simp [here]
  · simp [here]

theorem heldOn_dropLock_other (ne : other ≠ fd) :
    heldOn (dropLock held pid fd) other = heldOn held other := by
  rw [dropLock, heldOn, List.filter_filter]
  refine List.filter_congr fun holding _ => ?_
  by_cases there : holding.fd = other
  · simp [there, ne]
  · simp [there]

theorem heldOn_grantLock : heldOn (grantLock held holding) holding.fd =
      holding :: byOthers (heldOn held holding.fd) holding.pid := by
  rw [← heldOn_dropLock, heldOn, grantLock, filter_cons_of_pos (by simp), heldOn]

theorem heldOn_grantLock_other (ne : other ≠ holding.fd) :
    heldOn (grantLock held holding) other = heldOn held other := by
  rw [heldOn, grantLock, filter_cons_of_neg (by simpa using ne.symm)]
  exact heldOn_dropLock_other held ne

theorem byOthers_length_le : (byOthers held pid).length ≤ held.length := length_filter_le _ _

end

variable {held : List Holding} {code : Int}

theorem mem_of_mem_byOthers (member : holding ∈ byOthers held pid) :
    holding ∈ held ∧ holding.pid ≠ pid := by
  simpa [byOthers] using member

/-! ## Calls -/

/-- A call, with the process that makes it (`sched_get_current`). -/
inductive Call where
  /-- `flock_syscall`; `allocates` says whether a `kmalloc` in it succeeds. -/
  | flock (current : Option Pid) (allocates : Bool) (fd : Int) (operation : UInt32)
  /-- `flock_release_fd`. -/
  | release (current : Option Pid) (fd : Int)
  deriving Repr, DecidableEq

/-- The table and the locks held. -/
structure Locks where
  table : FlockTable
  held : List Holding
  deriving Repr, DecidableEq

/-- After `flock_init`. -/
def Locks.start : Locks := { table := flockInit, held := [] }

/-- The locks held after a request of a process that returned the code. -/
def heldAfter (held : List Holding) (pid : Pid) (fd : Int) (operation : UInt32) (code : Int) :
    List Holding :=
  if code ≠ 0 then held
  else if operation &&& ~~~lockNb = lockSh then grantLock held ⟨pid, fd, .shared⟩
  else if operation &&& ~~~lockNb = lockEx then grantLock held ⟨pid, fd, .exclusive⟩
  else if operation &&& ~~~lockNb = lockUn then dropLock held pid fd
  else held

def Locks.step (s : Locks) : Call → Locks
  | .flock current allocates fd operation =>
    let result := flockAcquire s.table current allocates fd operation
    { table := result.2
      held :=
        match current with
        | none => s.held
        | some pid => heldAfter s.held pid fd operation result.1 }
  | .release current fd =>
    { table := flockReleaseFd s.table current fd
      held :=
        match current with
        | none => s.held
        | some pid => dropLock s.held pid fd }

/-- Where one process holds an exclusive lock, no other process holds a lock. -/
def Locks.Exclusive (s : Locks) : Prop :=
  ∀ first ∈ s.held, ∀ second ∈ s.held,
    first.mode = .exclusive → second.fd = first.fd → second.pid = first.pid
deriving Decidable

/-! ## The record of a descriptor -/

/-- What the lock of a descriptor says about the locks held on it. -/
inductive Backed : Option FileLock → List Holding → Prop
  | free : Backed none []
  | exclusive {lock : FileLock} {held : List Holding} (type : lock.lockType = lockEx)
      (one : lock.holderCount = 1) (owner : ∀ holding ∈ held, holding.pid = lock.exclusivePid) :
      Backed (some lock) held
  | shared {lock : FileLock} {held : List Holding} (type : lock.lockType = lockSh)
      (modes : ∀ holding ∈ held, holding.mode = .shared)
      (counted : held.length ≤ lock.holderCount.toNat) (positive : 0 < lock.holderCount.toNat) :
      Backed (some lock) held
  /-- An entry that a request with another operation made: nobody holds a lock. -/
  | unused {lock : FileLock} (notSh : lock.lockType ≠ lockSh) (notEx : lock.lockType ≠ lockEx)
      (one : lock.holderCount = 1) : Backed (some lock) []

/-- The table records the locks held. -/
structure Locks.Recorded (s : Locks) : Prop where
  onePerFd : s.table.OnePerFd
  backed : ∀ fd, Backed (flockFind s.table fd) (heldOn s.held fd)

theorem Locks.start_recorded : Locks.start.Recorded := ⟨flockInit_onePerFd, fun _ => .free⟩

/-- A lock that is recorded as the code's tests assume excludes. -/
theorem Backed.excludes {lock : Option FileLock} (backed : Backed lock held)
    {first second : Holding} (firstHeld : first ∈ held) (secondHeld : second ∈ held)
    (isExclusive : first.mode = .exclusive) : second.pid = first.pid := by
  cases backed with
  | free | unused => cases firstHeld
  | exclusive _ _ owner => rw [owner first firstHeld, owner second secondHeld]
  | shared _ modes => exact absurd ((modes first firstHeld).symm.trans isExclusive) (by decide)

theorem Backed.nobody (backed : Backed none held) : held = [] := by
  cases backed
  rfl

theorem Locks.Recorded.excludes {s : Locks} (recorded : s.Recorded) : s.Exclusive := by
  intro first firstHeld second secondHeld isExclusive sameFd
  refine (recorded.backed first.fd).excludes ?_ ?_ isExclusive
  · simp [heldOn, firstHeld]
  · simp [heldOn, secondHeld, sameFd]

/-! ## Calls that the record survives -/

/-- A request that the record of its descriptor survives. -/
def FitsRequest (lock : FileLock) (held : List Holding) (pid : Pid) (lockType : UInt32) : Prop :=
  if lockType = lockUn then
    -- one is subtracted from the count, whoever asks
    lock.lockType = lockSh → (byOthers held pid).length < lock.holderCount.toNat
  else if lockType = lockSh then
    lock.lockType = lockSh → lock.holderCount.toNat + 1 < 2 ^ 32
  else if lockType = lockEx then
    -- the owner of an exclusive lock is overwritten, and so is a single shared holder
    (lock.lockType = lockEx → lock.exclusivePid = pid) ∧
      (lock.lockType = lockSh → lock.holderCount ≤ 1 → byOthers held pid = [])
  else True
deriving Decidable

/-- The locks on a descriptor after the process's own release of it. -/
def afterRelease (held : List Holding) : Option Pid → List Holding
  | none => held
  | some pid => byOthers held pid

/-- A release that the record of its descriptor survives. -/
def FitsRelease (lock : FileLock) (held : List Holding) (current : Option Pid) : Prop :=
  (lock.lockType = lockSh → (afterRelease held current).length < lock.holderCount.toNat) ∧
    (lock.lockType = lockEx → lock.exclusivePid = currentPid current → current ≠ none)

/-- A call that the record survives. -/
def Fits (s : Locks) : Call → Prop
  | .flock current _ fd operation =>
    ∀ pid ∈ current, ∀ lock ∈ flockFind s.table fd,
      FitsRequest lock (heldOn s.held fd) pid (operation &&& ~~~lockNb)
  | .release current fd =>
    ∀ lock ∈ flockFind s.table fd, FitsRelease lock (heldOn s.held fd) current

instance Fits.decidable (s : Locks) : (call : Call) → Decidable (Fits s call)
  | .flock current _ fd _ =>
    inferInstanceAs (Decidable (∀ pid ∈ current, ∀ lock ∈ flockFind s.table fd, _))
  | .release _ fd =>
    inferInstanceAs (Decidable (∀ lock ∈ flockFind s.table fd, (_ → _) ∧ (_ → _ → _)))

/-! ## The record survives -/

theorem Backed.uncount {others : List Holding} (type : lock.lockType = lockSh)
    (modes : ∀ holding ∈ held, holding.mode = .shared) (positive : 0 < lock.holderCount.toNat)
    (among : ∀ holding ∈ others, holding ∈ held) (fewer : others.length < lock.holderCount.toNat) :
    Backed (if lock.holderCount - 1 = 0 then none
      else some { lock with holderCount := lock.holderCount - 1 }) others := by
  have less : (lock.holderCount - 1).toNat = lock.holderCount.toNat - 1 :=
    UInt32.toNat_sub_of_le _ _ (UInt32.le_iff_toNat_le.mpr positive)
  split
  · rename_i isZero
    rw [isZero] at less
    have empty : others = [] := eq_nil_of_length_eq_zero (by
      have : (0 : UInt32).toNat = 0 := rfl
      omega)
    rw [empty]
    exact .free
  · rename_i notZero
    have nonzero : (lock.holderCount - 1).toNat ≠ 0 := fun eq =>
      notZero (UInt32.toNat_inj.mp eq)
    exact .shared type (fun holding member => modes holding (among holding member))
      (by dsimp only; omega) (by dsimp only; omega)

theorem afterRelease_nil {current : Option Pid} : afterRelease [] current = [] := by
  cases current <;> rfl

/-- An owner's locks are all there are on an exclusive lock. -/
theorem byOthers_owner (owner : ∀ holding ∈ held, holding.pid = pid) : byOthers held pid = [] :=
  filter_eq_nil_iff.mpr fun holding member => by simp [owner holding member]

/-- `LOCK_UN`: the record survives. -/
theorem Backed.unlock (backed : Backed (some lock) held) (fits : FitsRequest lock held pid lockUn) :
    Backed (requestOn lock pid lockUn).2 (byOthers held pid) := by
  rw [requestOn, if_pos rfl]
  cases backed with
  | exclusive type one owner =>
    rw [if_neg (by rw [type]; decide), if_pos type]
    split
    · rename_i mine
      rw [mine] at owner
      rw [byOthers_owner owner]
      exact .free
    · exact .exclusive type one fun holding member =>
        owner holding (mem_of_mem_byOthers member).1
  | shared type modes counted positive =>
    have uncounted := Backed.uncount type modes positive
      (fun _ member => (mem_of_mem_byOthers member).1) (fits type)
    rwa [if_pos type, apply_ite Prod.snd]
  | unused notSh notEx one =>
    rw [if_neg notSh, if_neg notEx]
    exact .unused notSh notEx one

theorem Backed.count (modes : ∀ holding ∈ held, holding.mode = .shared)
    (counted : held.length ≤ lock.holderCount.toNat + 1)
    (fits : lock.holderCount.toNat + 1 < 2 ^ 32) :
    Backed (some { lock with holderCount := lock.holderCount + 1, lockType := lockSh }) held := by
  have more : (lock.holderCount + 1).toNat = lock.holderCount.toNat + 1 := by
    exact Nat.mod_eq_of_lt fits
  exact .shared rfl modes (by dsimp only; omega) (by dsimp only; omega)

/-- `LOCK_SH`: the record survives, and the request is refused only without changing it. -/
theorem Backed.share (backed : Backed (some lock) held) (fits : FitsRequest lock held pid lockSh) :
    Backed (requestOn lock pid lockSh).2
      (if (requestOn lock pid lockSh).1 ≠ 0 then held
        else ⟨pid, lock.fd, .shared⟩ :: byOthers held pid) := by
  rw [requestOn, if_neg (by decide), if_pos rfl]
  split
  · exact backed
  · rename_i notOther
    cases backed with
    | exclusive type one owner =>
      have mine : lock.exclusivePid = pid := by
        by_contra other
        exact notOther ⟨type, other⟩
      rw [mine] at owner
      rw [byOthers_owner owner]
      exact Backed.count (by simp) (by simp) (by rw [one]; decide)
    | shared type modes counted positive =>
      refine Backed.count ?_ ?_ (fits type)
      · rintro holding (_ | ⟨_, member⟩)
        · rfl
        · exact modes holding (mem_of_mem_byOthers member).1
      · exact Nat.succ_le_succ (Nat.le_trans (byOthers_length_le held) counted)
    | unused notSh notEx one =>
      exact Backed.count (by simp [byOthers]) (by simp [byOthers]) (by rw [one]; decide)

/-- `LOCK_EX`: the record survives. -/
theorem Backed.exclude (backed : Backed (some lock) held)
    (fits : FitsRequest lock held pid lockEx) :
    Backed (requestOn lock pid lockEx).2
      (if (requestOn lock pid lockEx).1 ≠ 0 then held
        else ⟨pid, lock.fd, .exclusive⟩ :: byOthers held pid) := by
  rw [requestOn, if_neg (by decide), if_neg (by decide), if_pos rfl]
  have alone : ∀ owned : FileLock, owned.lockType = lockEx → owned.holderCount = 1 →
      owned.exclusivePid = pid → byOthers held pid = [] →
      Backed (some owned) (⟨pid, lock.fd, .exclusive⟩ :: byOthers held pid) := by
    intro owned type one mine nobody
    rw [nobody]
    exact .exclusive type one (by simp [mine])
  split
  · rename_i owned
    cases backed with
    | exclusive type one owner =>
      exact alone lock type one owned.2 (byOthers_owner (owned.2 ▸ owner))
    | shared type => exact absurd (type.symm.trans owned.1) (by decide)
    | unused notSh notEx => exact absurd owned.1 notEx
  · rename_i notOwned
    split
    · exact backed
    · rename_i few
      refine alone _ rfl rfl rfl ?_
      cases backed with
      | exclusive type => exact absurd ⟨type, fits.1 type⟩ notOwned
      | shared type =>
        refine fits.2 type (UInt32.not_lt.mp fun more => few ⟨type, more⟩)
      | unused => rfl

/-- A call changes the lock of its descriptor and the holdings on it: the record of the other
descriptors stays as it was. -/
theorem Locks.Recorded.edited {s : Locks} (recorded : s.Recorded) {after : Option FileLock}
    {table : FlockTable} (edited : s.table.Edited fd after table)
    (here : Backed after (heldOn held fd))
    (elsewhere : ∀ other ≠ fd, heldOn held other = heldOn s.held other) :
    Locks.Recorded { table, held } where
  onePerFd := edited.onePerFd
  backed := by
    intro other
    by_cases same : other = fd
    · rw [same, edited.here]
      exact here
    · rw [edited.elsewhere other same, elsewhere other same]
      exact recorded.backed other

/-- The holdings on a descriptor after a request for it. -/
theorem heldOn_heldAfter {operation : UInt32} : heldOn (heldAfter held pid fd operation code) fd =
      if code ≠ 0 then heldOn held fd
      else if operation &&& ~~~lockNb = lockSh then
        ⟨pid, fd, .shared⟩ :: byOthers (heldOn held fd) pid
      else if operation &&& ~~~lockNb = lockEx then
        ⟨pid, fd, .exclusive⟩ :: byOthers (heldOn held fd) pid
      else if operation &&& ~~~lockNb = lockUn then byOthers (heldOn held fd) pid
      else heldOn held fd := by
  unfold heldAfter
  split_ifs
  · rfl
  · exact heldOn_grantLock held
  · exact heldOn_grantLock held
  · exact heldOn_dropLock held
  · rfl

theorem heldOn_heldAfter_other (ne : other ≠ fd) {operation : UInt32} :
    heldOn (heldAfter held pid fd operation code) other = heldOn held other := by
  unfold heldAfter
  split_ifs
  · rfl
  · exact heldOn_grantLock_other held ne
  · exact heldOn_grantLock_other held ne
  · exact heldOn_dropLock_other held ne
  · rfl

variable {operation : UInt32} {current : Option Pid}

theorem Locks.Recorded.request {s : Locks} (recorded : s.Recorded)
    (found : flockFind s.table fd = some lock)
    (fits : FitsRequest lock (heldOn s.held fd) pid (operation &&& ~~~lockNb)) :
    Backed (requestOn lock pid (operation &&& ~~~lockNb)).2
      (heldOn (heldAfter s.held pid fd operation
        (requestOn lock pid (operation &&& ~~~lockNb)).1) fd) := by
  have backed := recorded.backed fd
  rw [found] at backed
  have lockFd : lock.fd = fd := flockFind_fd found
  rw [heldOn_heldAfter]
  generalize operation &&& ~~~lockNb = lockType at fits
  by_cases isUn : lockType = lockUn
  · subst isUn
    have code : (requestOn lock pid lockUn).1 = 0 := by
      rw [requestOn, if_pos rfl]
      split_ifs <;> rfl
    rw [if_neg fun ne => ne code]
    exact backed.unlock fits
  rw [← lockFd] at backed fits ⊢
  by_cases isSh : lockType = lockSh
  · subst isSh
    exact backed.share fits
  by_cases isEx : lockType = lockEx
  · subst isEx
    exact backed.exclude fits
  · rw [requestOn, if_neg isUn, if_neg isSh, if_neg isEx]
    exact backed

theorem Backed.create {lockType : UInt32} : Backed (some (newLock fd pid lockType))
      (if lockType = lockSh then [⟨pid, fd, .shared⟩]
        else if lockType = lockEx then [⟨pid, fd, .exclusive⟩] else []) := by
  by_cases isSh : lockType = lockSh
  · rw [if_pos isSh]
    exact .shared isSh (by simp) Nat.one_pos Nat.one_pos
  by_cases isEx : lockType = lockEx
  · rw [if_neg isSh]
    exact .exclusive isEx rfl (by simp [newLock, isEx])
  · rw [if_neg isSh, if_neg isEx]
    exact .unused isSh isEx rfl

/-- `flock_release_fd`: the record of the descriptor survives. -/
theorem Backed.release {lock : Option FileLock} (backed : Backed lock held)
    (fits : ∀ l ∈ lock, FitsRelease l held current) :
    Backed (lock.bind fun l => releaseOn l (currentPid current)) (afterRelease held current) := by
  have among : ∀ holding ∈ afterRelease held current, holding ∈ held := by
    intro holding member
    cases current with
    | none => exact member
    | some pid => exact (mem_of_mem_byOthers member).1
  cases backed with
  | free =>
    rw [afterRelease_nil]
    exact .free
  | @exclusive lock held type one owner =>
    have fits := fits lock rfl
    rw [bind_some, releaseOn]
    split
    · exact .exclusive type one fun holding member => owner holding (among holding member)
    · rename_i notOther
      have mine : lock.exclusivePid = currentPid current := by
        by_contra other
        exact notOther ⟨type, other⟩
      rw [if_neg (by rw [type]; decide)]
      cases current with
      | none => exact absurd rfl (fits.2 type mine)
      | some pid =>
        have own : ∀ holding ∈ held, holding.pid = pid := fun holding member =>
          (owner holding member).trans mine
        rw [afterRelease, byOthers_owner own]
        exact .free
  | @shared lock held type modes counted positive =>
    have notEx : lock.lockType ≠ lockEx := by
      rw [type]
      decide
    have uncounted := Backed.uncount type modes positive among ((fits lock rfl).1 type)
    rwa [bind_some, releaseOn, if_neg fun both => notEx both.1, if_pos type]
  | @unused lock notSh notEx one =>
    rw [bind_some, releaseOn, if_neg fun both => notEx both.1, if_neg notSh, afterRelease_nil]
    exact .free

theorem Locks.Recorded.flock {s : Locks} (recorded : s.Recorded) {allocates : Bool}
    (fits : Fits s (.flock current allocates fd operation)) :
    (s.step (.flock current allocates fd operation)).Recorded := by
  cases current with
  | none => exact recorded
  | some pid =>
    have others (code : Int) (other : Int) (ne : other ≠ fd) :
        heldOn (heldAfter s.held pid fd operation code) other = heldOn s.held other :=
      heldOn_heldAfter_other ne
    rw [Locks.step, flockAcquire]
    cases found : flockFind s.table fd with
    | some lock =>
      have backed := recorded.request found (fits pid rfl lock found)
      refine recorded.edited (recorded.onePerFd.replace found ?_) backed (others _)
      intro after decided
      have isFd := flockFind_fd found
      unfold requestOn at decided
      split_ifs at decided <;> cases decided <;> exact isFd
    | none =>
      have nobody : heldOn s.held fd = [] := Backed.nobody (found ▸ recorded.backed fd)
      split_ifs with isUn full allocated
      · refine recorded.edited ⟨recorded.onePerFd, rfl, fun _ _ => rfl⟩ ?_ (others 0)
        rw [heldOn_heldAfter, nobody, found, isUn]
        exact .free
      · exact recorded
      · refine recorded.edited (recorded.onePerFd.add found) ?_ (others 0)
        show Backed _ (heldOn (heldAfter s.held pid fd operation 0) fd)
        rw [heldOn_heldAfter, nobody, if_neg isUn]
        exact Backed.create
      · exact recorded

/-- **A call that fits the record leaves a good record.** -/
theorem Locks.Recorded.step {s : Locks} (recorded : s.Recorded) {call : Call}
    (fits : Fits s call) : (s.step call).Recorded := by
  cases call with
  | flock current allocates fd operation => exact recorded.flock fits
  | release current fd =>
    have edited := recorded.onePerFd.release current fd
    cases current with
    | none =>
      refine recorded.edited edited ?_ fun _ _ => rfl
      exact (recorded.backed fd).release fits
    | some pid =>
      refine recorded.edited edited ?_ fun other ne => heldOn_dropLock_other s.held ne
      rw [heldOn_dropLock]
      exact (recorded.backed fd).release fits

/-- **Locks are exclusive in every run of fitting calls.** For any calls of any processes from
`flock_init` on, if every call fits the record of the locks then held, a process that holds
an exclusive lock on a descriptor is the only one that holds a lock on it. -/
theorem flock_excludes (calls : List Call) (fit : Meets Locks.step Fits Locks.start calls) :
    (calls.foldl Locks.step Locks.start).Exclusive :=
  Locks.Recorded.excludes
    (fit.invariant (P := Locks.Recorded) (fun _ _ recorded fits => recorded.step fits)
      Locks.start_recorded)

/-- Two readers, of which one leaves, and an upgrade of the other. -/
def upgradeOfLastReader : List Call :=
  [.flock (some 1) true 3 lockSh, .flock (some 2) true 3 lockSh, .flock (some 1) true 3 lockUn,
    .flock (some 2) true 3 lockEx]

theorem upgradeOfLastReader_excludes :
    (upgradeOfLastReader.foldl Locks.step Locks.start).Exclusive :=
  flock_excludes upgradeOfLastReader (by decide +kernel)

/-- A second process gets an exclusive lock that the first one holds. -/
theorem second_exclusive_is_granted :
    let first := Locks.step Locks.start (.flock (some 1) true 3 lockEx)
    (flockAcquire first.table (some 2) true 3 lockEx).1 = 0 ∧
      ¬(first.step (.flock (some 2) true 3 lockEx)).Exclusive := by
  decide +kernel

end FunsOS.Flock
