import FunsOS.Foundation.Runs

/-!
# Operations on semaphore sets

`ipc_semop` of `kernel/ipc_sem.c` tests every operation of a call alone, against the values before
the call, and then applies them all in 16 bits. So a semaphore that is named twice can get below
0, and a sum can wrap (`semop_allOrNothing_iff`).
-/

set_option autoImplicit false

namespace FunsOS.IpcSem

open Foundation Function Int16

/-- `sembuf_t`. -/
structure SemBuf where
  semNum : UInt16
  semOp : Int16
  semFlg : Int16

/-- `sem_set_t` with the values of its semaphores. -/
structure SemSet where
  inUse : Bool
  nsems : Nat
  value : UInt16 → Int16

/-- `sem_undo_t`. -/
structure SemUndo where
  pid : Int
  semid : Nat
  semNum : UInt16
  adjval : Int16

/-- `g_sem`. -/
structure GSem where
  sets : Nat → SemSet
  undo : List SemUndo

/-- `ipc_sem_find_internal`. -/
def GSem.find (g : GSem) (semid : Int) : Option Nat :=
  if semid < 0 ∨ 32 ≤ semid then none
  else if (g.sets semid.toNat).inUse then some semid.toNat else none

/-- `ipc_sem_undo_record`. -/
def undoRecord (undo : List SemUndo) (pid : Int) (semid : Nat) (semNum : UInt16) (op : Int16) :
    List SemUndo :=
  if op = 0 then undo
  else
    match undo.findIdx? fun r => r.pid = pid ∧ r.semid = semid ∧ r.semNum = semNum with
    | some i => undo.modify i fun r => { r with adjval := r.adjval - op }
    | none => if 64 ≤ undo.length then undo else undo ++ [⟨pid, semid, semNum, -op⟩]

/-- The operation alone can go ahead: 0 waits for the value 0, and the value, as an `int`, does
not get below 0. -/
def GoesAhead (value op : Int16) : Prop :=
  (op = 0 → value = 0) ∧ (op < 0 → 0 ≤ value.toInt + op.toInt)
deriving Decidable

/-- What comes out of the loop at `retry_check`. -/
inductive Verdict where
  | passed
  | error (code : Int)
  | waits

def check (s : SemSet) (nowait : Bool) : List SemBuf → Verdict
  | [] => .passed
  | sop :: sops =>
    if s.nsems ≤ sop.semNum.toNat then .error (-3)
    else if GoesAhead (s.value sop.semNum) sop.semOp then check s nowait sops
    else if nowait then .error (-1)
    else .waits

/-- One round of the loop that applies the operations. -/
def applyOp (pid : Int) (semid : Nat) (useUndo : Bool) (g : GSem) (sop : SemBuf) : GSem :=
  let s := g.sets semid
  { sets := update g.sets semid
      { s with value := update s.value sop.semNum (s.value sop.semNum + sop.semOp) }
    undo := if useUndo ∧ sop.semOp ≠ 0 then undoRecord g.undo pid semid sop.semNum sop.semOp
      else g.undo }

/-- Some operation has the flag, `SEM_NOWAIT` or `SEM_UNDO`. -/
def anyFlag (flag : Int16) (sops : List SemBuf) : Bool := sops.any fun sop => sop.semFlg &&& flag ≠ 0

/-- `ipc_semop` by a process. It has no result where the process waits. -/
def ipcSemop (g : GSem) (pid semid : Int) (sops : List SemBuf) : Option (Int × GSem) :=
  if sops.isEmpty then some (-1, g)
  else
    match g.find semid with
    | none => some (-2, g)
    | some id =>
      match check (g.sets id) (anyFlag 0x01 sops) sops with
      | .passed => some (0, sops.foldl (applyOp pid id (anyFlag 0x1000 sops)) g)
      | .error code => some (code, g)
      | .waits => none

/-! ## All or nothing -/

def GSem.value (g : GSem) (id : Nat) (n : UInt16) : Int := ((g.sets id).value n).toInt

/-- The operations one after the other in exact integers, if no value gets below 0. -/
def exactly (value : UInt16 → Int) : List SemBuf → Option (UInt16 → Int)
  | [] => some value
  | sop :: sops =>
    if value sop.semNum + sop.semOp.toInt < 0 then none
    else exactly (update value sop.semNum (value sop.semNum + sop.semOp.toInt)) sops

/-- The call returns. With 0 it did the operations, otherwise it changed no value. -/
def AllOrNothing (g : GSem) (pid semid : Int) (id : Nat) (sops : List SemBuf) : Prop :=
  Returns (ipcSemop g pid semid sops) fun result =>
    if result.1 = 0 then exactly (g.value id) sops = some (result.2.value id)
    else result.2.value = g.value

/-- The semaphore exists, and the operation alone can go ahead. -/
def Alone (s : SemSet) (sop : SemBuf) : Prop :=
  sop.semNum.toNat < s.nsems ∧ GoesAhead (s.value sop.semNum) sop.semOp

/-- The sum of the operations on a semaphore. -/
def total (n : UInt16) : List SemBuf → Int
  | [] => 0
  | sop :: sops => (if sop.semNum = n then sop.semOp.toInt else 0) + total n sops

variable {g : GSem} {pid semid : Int} {id : Nat} {sops : List SemBuf}

theorem exactly_eq_some {value last : UInt16 → Int} (nonneg : ∀ n, 0 ≤ value n) :
    exactly value sops = some last ↔
      (∀ n k, 0 ≤ value n + total n (sops.take k)) ∧ ∀ n, value n + total n sops = last n := by
  induction sops generalizing value with
  | nil => simp [exactly, total, nonneg, funext_iff]
  | cons sop sops ih =>
    have moved (n : UInt16) (rest : List SemBuf) :
        update value sop.semNum (value sop.semNum + sop.semOp.toInt) n + total n rest =
          value n + total n (sop :: rest) := by
      rw [total]
      by_cases here : n = sop.semNum
      · subst here
        simp [Int.add_assoc]
      · simp [here, Ne.symm here]
    rw [exactly]
    split
    case isTrue negative =>
      refine ⟨nofun, fun ⟨kept, _⟩ => absurd (kept sop.semNum 1) ?_⟩
      simpa [total] using negative
    case isFalse kept =>
      have nonneg' (n : UInt16) : 0 ≤ update value sop.semNum
          (value sop.semNum + sop.semOp.toInt) n := by
        by_cases here : n = sop.semNum
        · subst here
          simpa using kept
        · simpa [here] using nonneg n
      simp only [ih nonneg', moved]
      refine and_congr_left fun _ => forall_congr' fun n => ⟨fun later k => ?_, fun all k => all (k + 1)⟩
      cases k with
      | zero => simpa [total] using nonneg n
      | succ k => exact later k

/-- The operations are applied in 16 bits. -/
theorem value_foldl {n : UInt16} {useUndo : Bool} :
    ((sops.foldl (applyOp pid id useUndo) g).sets id).value n =
      (g.sets id).value n + ofInt (total n sops) := by
  induction sops generalizing g with
  | nil => simp [total]
  | cons sop sops ih =>
    rw [List.foldl_cons, ih, total, Int16.ofInt_add, ← Int16.add_assoc]
    congr 1
    by_cases here : n = sop.semNum
    · subst here
      simp [applyOp]
    · simp [applyOp, here, Ne.symm here]

theorem check_nowait {s : SemSet} : (check s true sops = .passed ∧ ∀ sop ∈ sops, Alone s sop) ∨
      (∃ code, check s true sops = .error code ∧ code ≠ 0) ∧ ¬∀ sop ∈ sops, Alone s sop := by
  induction sops with
  | nil => exact .inl ⟨rfl, by simp⟩
  | cons sop sops ih =>
    rw [check, List.forall_mem_cons]
    by_cases outside : s.nsems ≤ sop.semNum.toNat
    · exact .inr ⟨⟨-3, if_pos outside, by decide⟩, fun all => absurd all.1.1 (by omega)⟩
    · rw [if_neg outside]
      by_cases ahead : GoesAhead (s.value sop.semNum) sop.semOp
      · simpa [Alone, ahead, Nat.lt_of_not_le outside] using ih
      · exact .inr ⟨⟨-1, if_neg ahead, by decide⟩, fun all => ahead all.1.2⟩

/-- **A call with `SEM_NOWAIT` is all-or-nothing exactly if** one of its operations is refused
alone, or on every semaphore the sums of the operations never get below 0 and end at most at
32767. -/
theorem semop_allOrNothing_iff (found : g.find semid = some id) (nonneg : ∀ n, 0 ≤ g.value id n)
    (nowait : sops ≠ [] → anyFlag 0x01 sops) :
    AllOrNothing g pid semid id sops ↔
      ((∀ sop ∈ sops, Alone (g.sets id) sop) →
        ∀ n, (∀ k, 0 ≤ g.value id n + total n (sops.take k)) ∧
          g.value id n + total n sops ≤ 32767) := by
  by_cases empty : sops = []
  · subst empty
    refine iff_of_true ⟨_, rfl, rfl⟩ fun _ n => ⟨fun k => ?_, ?_⟩
    · simpa [total] using nonneg n
    · simpa [total, GSem.value] using Int.le_of_lt_add_one ((g.sets id).value n).toInt_lt
  have some_ : sops.isEmpty = false := List.isEmpty_eq_false_iff.mpr empty
  simp only [AllOrNothing, Returns, ipcSemop, some_, found, nowait empty, Bool.false_eq_true,
    if_false]
  obtain ⟨passed, alone⟩ | ⟨⟨code, failed, error⟩, refused⟩ := check_nowait
  · rw [passed, forall_prop_of_true alone, forall_and]
    simp only [Option.some.injEq, exists_eq_left', if_true, exactly_eq_some nonneg]
    refine and_congr_right fun kept => forall_congr' fun n => ?_
    have kept := kept n sops.length
    simp only [GSem.value, value_foldl, toInt_add, toInt_ofInt, Int16.size,
      List.take_length, Int.bmod_def] at kept ⊢
    omega
  · rw [failed]
    simp [error, refused]

/-- A set with one semaphore. -/
def oneSemaphore (value : Int16) : GSem := ⟨fun id => ⟨id == 0, 1, fun _ => value⟩, []⟩

/-- Two decrements with `SEM_NOWAIT`. -/
def twice : List SemBuf := [⟨0, -1, 1⟩, ⟨0, -1, 1⟩]

theorem twice_from_zero : AllOrNothing (oneSemaphore 0) 7 0 0 twice :=
  (semop_allOrNothing_iff rfl (show ∀ n, 0 ≤ (oneSemaphore 0).value 0 n from fun _ => Int.le_refl 0)
    fun _ => rfl).mpr fun alone => absurd (alone ⟨0, -1, 1⟩ (by simp [twice])).2 (by decide)

/-- From 1 both decrements succeed, and the value is -1. -/
theorem twice_from_one :
    ((ipcSemop (oneSemaphore 1) 7 0 twice).map fun result => (result.1, result.2.value 0 0)) =
        some (0, -1) ∧
      exactly ((oneSemaphore 1).value 0) twice = none := by
  decide

end FunsOS.IpcSem
