import FunsOS.Foundation.Placement
import FunsOS.SchedSmp.Calls

/-!
# The accounting of the run queues

Each run queue counts its tasks and sums up their weights, once in the CFS queue and once in the
SMP run queue (`Accounted`). The counters are right as long as

* a task is woken only when it is on no queue, on the CPU it belongs to, and while it is live;
* a task with two children in its tree is not dequeued;
* a task that is on no queue exits only when its CPU has no task;
* a task on a queue is not given another weight;
* the weights on a CPU stay below `2 ^ 31`.

`accounting_of_careful` says so for every run. The tasks on the queues are items in places, and
the counters are the loads of the places (`Counted`).
-/

set_option autoImplicit false

namespace FunsOS.SchedSmp

open Foundation SchedCfs Smp Nat
open Function (update update_eq_self update_idem update_of_ne update_self)

variable {s s' : Smp} {c : Cpu} {t : Task}

/-! ## The property -/

variable (s)

/-- The live tasks on the run queue of a CPU. -/
def Smp.tasksOn (c : Cpu) : Finset Task :=
  Finset.univ.filter fun t => s.pid t ≠ 0 ∧ s.onRq t ∧ s.cpu t = c

/-- The counters of every CPU are right, and its tasks are in its tree and in no other. -/
structure Accounted (s : Smp) : Prop where
  nrRunning : ∀ c, (s.queue c).nrRunning = (s.tasksOn c).card
  cfsNrRunning : ∀ c, (s.queue c).cfsNrRunning = (s.tasksOn c).card
  weightSum : ∀ c, (s.queue c).weightSum = ∑ t ∈ s.tasksOn c, s.weight t
  cfsWeightSum : ∀ c, (s.queue c).cfsWeightSum = ((∑ t ∈ s.tasksOn c, s.weight t : Nat) : Int)
  inTree : ∀ c, ∀ t ∈ s.tasksOn c, ∀ d, (s.cfsRq d).links.Reach t ↔ d = c

/-! ## The condition -/

/-- A weight can be added to the weights on a CPU without an overflow. -/
def Fits (c : Cpu) (weight : Nat) : Prop := (s.queue c).cfsWeightSum + weight < 2147483648
deriving Decidable

def CreatesCarefully (nice cpu : Int) : Prop :=
  s.freeSlot.isSome → Fits s ((s.cpuOf cpu).getD 0) (cfsCalcWeight nice)
deriving Decidable

/-- A task that is woken is live, on no queue, wakes on its own CPU and fits there. -/
def WakesCarefully (pid : Nat) : Prop :=
  ∀ t ∈ taskOf pid, s.state t ≠ .running → s.state t ≠ .ready →
    s.pid t ≠ 0 ∧ s.onRq t = false ∧ s.wakeupTarget t = s.cpu t ∧ Fits s (s.cpu t) (s.weight t)
deriving Decidable

/-- A task that is moved is on a queue, has at most one child and fits on the other CPU. -/
def BalancesCarefully : Prop :=
  ∀ pair ∈ s.balancePair, ∀ t ∈ s.balanceTask pair.1 pair.2,
    s.onRq t ∧ AtMostOneChild s t ∧ Fits s pair.2 (s.weight t)
deriving Decidable

/-- The calls that keep the accounting. -/
def Careful : Op → Prop
  | .createTask nice cpu => CreatesCarefully s nice cpu
  | .registerCpu cpu =>
    ∀ c ∈ s.cpuOf cpu, (s.queue c).idleTask = none → CreatesCarefully s 19 cpu
  | .wakeup pid => WakesCarefully s pid
  | .sleep pid _ => ∀ t ∈ taskOf pid, s.onRq t → AtMostOneChild s t
  | .exit pid =>
    ∀ t ∈ taskOf pid, (s.onRq t → AtMostOneChild s t) ∧
      (s.onRq t = false → (s.queue (s.cpu t)).nrRunning = 0)
  | .setAffinity _ _ => True
  | .setNice pid nice => ∀ t ∈ taskOf pid, s.onRq t → cfsCalcWeight nice = s.weight t
  | .runTick cpu delta => Ticks WakesCarefully BalancesCarefully s cpu delta
  | .loadBalance => BalancesCarefully s

variable {s} {pid : Nat} {nice cpu : Int}

instance (s : Smp) : ∀ op, Decidable (Careful s op)
  | .createTask nice cpu => inferInstanceAs (Decidable (CreatesCarefully s nice cpu))
  | .registerCpu cpu => inferInstanceAs (Decidable (∀ c ∈ s.cpuOf cpu, _ → _))
  | .wakeup pid => inferInstanceAs (Decidable (WakesCarefully s pid))
  | .sleep pid _ => inferInstanceAs (Decidable (∀ t ∈ taskOf pid, _ → _))
  | .exit pid => inferInstanceAs (Decidable (∀ t ∈ taskOf pid, _ ∧ _))
  | .setAffinity _ _ => inferInstanceAs (Decidable True)
  | .setNice pid _ => inferInstanceAs (Decidable (∀ t ∈ taskOf pid, _ → _))
  | .runTick cpu delta =>
    inferInstanceAs (Decidable (Ticks WakesCarefully BalancesCarefully s cpu delta))
  | .loadBalance => inferInstanceAs (Decidable (BalancesCarefully s))

/-! ## Tasks in places -/

/-- The CPU on whose run queue a live task is. -/
def Smp.place (s : Smp) (t : Task) : Option Cpu :=
  if s.pid t ≠ 0 ∧ s.onRq t then some (s.cpu t) else none

theorem tasksOn_eq : s.tasksOn c = occupants s.place c := by
  ext t
  by_cases here : s.pid t ≠ 0 ∧ s.onRq t
  · simp [tasksOn, place, here]
  · simp only [tasksOn, Finset.mem_filter, Finset.mem_univ, true_and, mem_occupants, place,
      if_neg here]
    simp only [reduceCtorEq, iff_false]
    exact fun all => here ⟨all.1, all.2.1⟩

theorem place_of_off (off : s.onRq t = false) : s.place t = none := by
  simp [place, off]

theorem place_of_on (live : s.pid t ≠ 0) (on : s.onRq t) : s.place t = some (s.cpu t) :=
  if_pos ⟨live, on⟩

/-- The counters are the loads of the CPUs, which have no overflow. -/
structure Counted (s : Smp) : Prop where
  nrRunning : ∀ c, (s.queue c).nrRunning = load s.place (fun _ => 1) c
  cfsNrRunning : ∀ c, (s.queue c).cfsNrRunning = load s.place (fun _ => 1) c
  weightSum : ∀ c, (s.queue c).weightSum = load s.place s.weight c
  cfsWeightSum : ∀ c, (s.queue c).cfsWeightSum = load s.place s.weight c
  bounded : ∀ c, load s.place s.weight c < 2147483648

/-- The trees are apart, and the counters are right. -/
structure Books (s : Smp) : Prop where
  trees : TreesApart s
  counted : Counted s

theorem Counted.congr (counted : Counted s) (place : s'.place = s.place)
    (weight : ∀ a, s.place a ≠ none → s'.weight a = s.weight a)
    (books : ∀ d, (s'.queue d).books = (s.queue d).books) : Counted s' := by
  have loads : ∀ d, load s.place s'.weight d = load s.place s.weight d := fun d =>
    load_congr weight
  refine ⟨fun d => ?_, fun d => ?_, fun d => ?_, fun d => ?_, fun d => ?_⟩
  · rw [place, ← counted.nrRunning d]
    exact congrArg (·.2.1) (books d)
  · rw [place, ← counted.cfsNrRunning d]
    exact congrArg (·.2.2.2.1) (books d)
  · rw [place, loads, ← counted.weightSum d]
    exact congrArg (·.2.2.1) (books d)
  · rw [place, loads, ← counted.cfsWeightSum d]
    exact congrArg (·.2.2.2.2) (books d)
  · rw [place, loads]
    exact counted.bounded d

theorem Books.congr (books : Books s) (same : SameBooks s s') : Books s' where
  trees := books.trees.congr same
  counted := by
    refine books.counted.congr ?_ (fun a _ => congrFun same.weight a) same.books
    funext a
    rw [place, place, same.pid, same.onRq, same.cpu]

/-- The fields of a task that is on no queue do not matter to the books. -/
theorem Books.except (books : Books s) (off : s.onRq t = false) (same : SameExcept s t s') :
    Books s' where
  trees := books.trees.except off same
  counted := by
    refine books.counted.congr ?_ (fun a placed => same.weight a ?_) same.books
    · funext a
      by_cases isTask : a = t
      · rw [isTask, place_of_off off, place_of_off (by rw [same.onRq, off])]
      · rw [place, place, same.pid a isTask, same.onRq, same.cpu a isTask]
    · rintro rfl
      exact placed (place_of_off off)

/-! ## Counting in and out -/

theorem int32_of_mem {x : Int} (low : -2147483648 ≤ x) (high : x < 2147483648) : int32 x = x := by
  rw [int32, Int.bmod]
  split
  · omega
  · omega

theorem place_admitted (admitted : Admitted s c t s') (live : s.pid t ≠ 0) (here : s.cpu t = c) :
    s'.place = update s.place t (some c) := by
  funext a
  by_cases isTask : a = t
  · subst isTask
    rw [update_self, place_of_on (by rwa [admitted.pid])
      (by rw [admitted.onRq, update_self]), admitted.cpu, here]
  · rw [update_of_ne isTask, place, place, admitted.pid, admitted.cpu, admitted.onRq,
      update_of_ne isTask]

theorem place_retired (retired : Retired s c t s') : s'.place = update s.place t none := by
  funext a
  by_cases isTask : a = t
  · subst isTask
    rw [update_self, place_of_off (by rw [retired.onRq, update_self])]
  · rw [update_of_ne isTask, place, place, retired.pid, retired.cpu, retired.onRq,
      update_of_ne isTask]

theorem load_one_le (s : Smp) (d : Cpu) : load s.place (fun _ => 1) d ≤ 1024 :=
  load_one_le_card.trans (Fintype.card_fin 1024).le

theorem Counted.admitted (counted : Counted s) (admitted : Admitted s c t s')
    (off : s.onRq t = false) (live : s.pid t ≠ 0) (here : s.cpu t = c)
    (fits : Fits s c (s.weight t)) : Counted s' := by
  have place := place_admitted admitted live here
  have nowhere := place_of_off off
  rw [Fits, counted.cfsWeightSum c] at fits
  have weight : int32 (s.weight t) = s.weight t := int32_of_mem (by omega) (by omega)
  refine ⟨fun d => ?_, fun d => ?_, fun d => ?_, fun d => ?_, fun d => ?_⟩
  · have few := load_one_le s d
    rw [admitted.nrRunning, place, load_put nowhere, counted.nrRunning d, wordLimit32]
    split <;> omega
  · have few := load_one_le s d
    rw [admitted.cfsNrRunning, place, load_put nowhere, counted.cfsNrRunning d,
      int32_of_mem (by omega) (by omega)]
    split
    · rw [cast_add, cast_one]
    · rw [add_zero]
  · rw [admitted.weightSum, admitted.weight, place, load_put nowhere, counted.weightSum d,
      wordLimit32]
    split
    · next isCpu =>
        subst isCpu
        omega
    · rw [add_zero]
  · rw [admitted.cfsWeightSum, admitted.weight, place, load_put nowhere, counted.cfsWeightSum d,
      weight]
    split
    · next isCpu =>
        subst isCpu
        rw [int32_of_mem (by omega) (by omega), cast_add]
    · rw [add_zero]
  · have bounded := counted.bounded d
    rw [admitted.weight, place, load_put nowhere]
    split
    · next isCpu =>
        subst isCpu
        omega
    · omega

/-- A task is counted out. -/
theorem Counted.retired (counted : Counted s) (retired : Retired s c t s')
    (here : s.place t = some c) : Counted s' := by
  have place := place_retired retired
  have heavy : s.weight t ≤ load s.place s.weight c := weight_le_load here
  have total := counted.bounded c
  have weight : int32 (s.weight t) = s.weight t := int32_of_mem (by omega) (by omega)
  have ones : ∀ d, load s'.place (fun _ => 1) d + (if d = c then 1 else 0) =
      load s.place (fun _ => 1) d := fun d => by
    rw [place]
    exact load_take here
  have weights : ∀ d, load s'.place s'.weight d + (if d = c then s.weight t else 0) =
      load s.place s.weight d := fun d => by
    rw [place, retired.weight]
    exact load_take here
  refine ⟨fun d => ?_, fun d => ?_, fun d => ?_, fun d => ?_, fun d => ?_⟩
  · have one := ones d
    rw [retired.nrRunning, counted.nrRunning d]
    split_ifs at one ⊢ <;> omega
  · have one := ones d
    have few := load_one_le s d
    rw [retired.cfsNrRunning, counted.cfsNrRunning d, int32_of_mem (by omega) (by omega)]
    split_ifs at one ⊢ <;> omega
  · have sum := weights d
    rw [retired.weightSum, counted.weightSum d]
    split_ifs at sum ⊢ <;> omega
  · have sum := weights d
    have bounded := counted.bounded d
    rw [retired.cfsWeightSum, counted.cfsWeightSum d, weight, int32_of_mem (by omega) (by omega)]
    split_ifs at sum ⊢ <;> omega
  · have sum := weights d
    have bounded := counted.bounded d
    omega

/-! ## One call -/

theorem cfsWeightSum_eq {d : Cpu} (same : SameBooks s s') :
    (s'.queue d).cfsWeightSum = (s.queue d).cfsWeightSum :=
  congrArg (·.2.2.2.2) (same.books d)

section

variable (books : Books s)
include books

theorem Books.createTask (careful : CreatesCarefully s nice cpu) :
    Returns (s.createTask nice cpu) fun result => Books result.2 := by
  refine (books.trees.createTask nice cpu).mono fun result made => ?_
  obtain rfl | ⟨t, timeSlice, s', free, rfl, trees, admitted⟩ := made
  · exact books
  have off := books.trees.off_of_pid (pid_of_freeSlot free)
  have cleared := books.except off (sameExcept_newTask off nice ((s.cpuOf cpu).getD 0) timeSlice)
  have fits : Fits (s.newTask t nice ((s.cpuOf cpu).getD 0) timeSlice)
      ((s.cpuOf cpu).getD 0) ((s.newTask t nice ((s.cpuOf cpu).getD 0) timeSlice).weight t) := by
    have enough := careful (by rw [free]; rfl)
    simpa [newTask, Fits] using enough
  have counted := cleared.counted.admitted admitted (by simp [newTask]) (by simp [newTask])
    (by simp [newTask]) fits
  exact (Books.mk trees counted).congr ⟨rfl, rfl, rfl, rfl, rfl, rfl, fun _ => rfl⟩

theorem Books.registerCpu (careful : ∀ c, s.cpuOf cpu = some c → (s.queue c).idleTask = none →
      CreatesCarefully s 19 cpu) : Returns (s.registerCpu cpu) fun result => Books result.2 := by
  cases isCpu : s.cpuOf cpu with
  | none => exact ⟨(-1, s), by simp only [Smp.registerCpu, isCpu], books⟩
  | some c =>
    have same : SameBooks s (s.setQueue c { s.queue c with active := true }) :=
      sameBooks_setQueue rfl
    have idle : ((s.setQueue c { s.queue c with active := true }).queue c).idleTask =
        (s.queue c).idleTask := by simp [setQueue]
    simp only [Smp.registerCpu, isCpu, idle]
    split
    · exact .of_some (books.congr same)
    next isNone =>
    have creates : CreatesCarefully (s.setQueue c { s.queue c with active := true }) 19 cpu := by
      intro free
      rw [Fits, cfsWeightSum_eq same]
      exact careful c isCpu (not_not.mp isNone) free
    refine ((books.congr same).createTask creates).map fun result made => ?_
    obtain ⟨created, s'⟩ := result
    cases created with
    | none => exact made
    | some t =>
      exact made.congr (sameBooks_state.trans (sameBooks_setQueue rfl))

theorem Books.wakeup (careful : WakesCarefully s pid) : Returns (s.wakeup pid) fun result =>
      Books result.2 ∧ result.2.pid = s.pid ∧ result.2.cpu = s.cpu := by
  have wakes := books.trees.wakeup fun t isTask notRunning notReady => by
    obtain ⟨live, -, target, -⟩ := careful t isTask notRunning notReady
    exact .inr ⟨live, target⟩
  refine wakes.mono fun result woken => ?_
  obtain same | ⟨t, isTask, notRunning, notReady, trees, counted⟩ := woken
  · rw [same]
    exact ⟨books, rfl, rfl⟩
  obtain ⟨live, off, -, fits⟩ := careful t isTask notRunning notReady
  obtain ⟨on, -⟩ | ⟨-, admitted⟩ := counted
  · exact absurd on (by simp [off])
  · exact ⟨⟨trees, books.counted.admitted admitted off live rfl fits⟩, admitted.pid, admitted.cpu⟩

theorem Books.place_of_on (on : s.onRq t) : s.place t = some (s.cpu t) := by
  obtain ⟨tree, planted⟩ := books.trees
  exact SchedSmp.place_of_on (planted.live t on) on

theorem Books.sleep {wakeupTime : Nat}
    (careful : ∀ t, taskOf pid = some t → s.onRq t → AtMostOneChild s t) :
    Returns (s.sleep pid wakeupTime) fun result => Books result.2 := by
  refine (books.trees.sleep careful).mono fun result slept => ?_
  obtain same | ⟨t, s', state, -, on, trees, retired, same⟩ := slept
  · rw [same]
    exact books
  rw [same]
  have counted := books.counted.retired retired (books.place_of_on on)
  exact (Books.mk trees counted).congr sameBooks_state

theorem Books.clearPid (off : s.onRq t = false) {state : Task → TaskState} {nrTasks : Int} :
    Books { s with state, pid := update s.pid t 0, nrTasks } :=
  books.except off ⟨fun _ isOther => update_of_ne isOther _ _, fun _ _ => rfl,
    fun _ _ => rfl, rfl, fun _ _ _ => rfl, fun _ _ => rfl, fun _ => rfl⟩

theorem Books.exit (careful : ∀ t, taskOf pid = some t → (s.onRq t → AtMostOneChild s t) ∧
      (s.onRq t = false → (s.queue (s.cpu t)).nrRunning = 0)) :
    Returns (s.exit pid) fun result => Books result.2 := by
  have exits := books.trees.exit fun t isTask => (careful t isTask).1
  refine exits.mono fun result ended => ?_
  obtain same | ⟨t, s', state, nrTasks, isTask, trees, counts, same⟩ := ended
  · rw [same]
    exact books
  rw [same]
  obtain ⟨on, retired⟩ | ⟨off, rfl⟩ := counts
  · have counted := books.counted.retired retired (books.place_of_on on)
    have off : s'.onRq t = false := by rw [retired.onRq, update_self]
    exact (Books.mk trees counted).clearPid off
  · have empty := (careful t isTask).2 off
    have unchanged : SameBooks s (s.countTaskOut (s.cpu t)) :=
      sameBooks_setQueue (by simp [Queue.books, empty])
    exact (books.congr unchanged).clearPid off

end

theorem clampNice_clampNice : clampNice (clampNice nice) = clampNice nice := by
  by_cases low : nice < -20
  · simp [clampNice, schedNiceMin, schedNiceMax, low]
  · by_cases high : 19 < nice
    · simp [clampNice, schedNiceMin, schedNiceMax, low, high]
    · simp [clampNice, schedNiceMin, schedNiceMax, low, high]

/-- A weight is taken off a sum and added again. -/
theorem Books.setNice (books : Books s)
    (careful : ∀ t, taskOf pid = some t → s.onRq t → cfsCalcWeight nice = s.weight t) :
    Books (s.setNice pid nice).2 := by
  cases isTask : taskOf pid with
  | none =>
    simp only [Smp.setNice, isTask]
    exact books
  | some t =>
    cases queued : s.onRq t with
    | false =>
      simp only [Smp.setNice, isTask, queued, Bool.false_eq_true, if_false]
      exact books.except queued ⟨fun _ _ => rfl, fun _ _ => rfl,
        fun _ isOther => update_of_ne isOther _ _, rfl, fun _ _ _ => rfl,
        fun _ _ => rfl, fun _ => rfl⟩
    | true =>
      have heavy : s.weight t ≤ (s.queue (s.cpu t)).weightSum := by
        rw [books.counted.weightSum]
        exact weight_le_load (books.place_of_on queued)
      have small : (s.queue (s.cpu t)).weightSum < 2147483648 := by
        rw [books.counted.weightSum]
        exact books.counted.bounded _
      have same : update s.weight t (cfsCalcWeight nice) = s.weight := by
        rw [careful t isTask queued, update_eq_self]
      have again : ((s.queue (s.cpu t)).weightSum - s.weight t + cfsCalcWeight nice) %
          wordLimit32 = (s.queue (s.cpu t)).weightSum := by
        rw [careful t isTask queued, wordLimit32]
        omega
      have clamped : cfsCalcWeight (clampNice nice) = cfsCalcWeight nice := by
        simp only [cfsCalcWeight, clampNice_clampNice]
      refine books.congr ?_
      simp only [Smp.setNice, isTask, queued, if_true, clamped, countWeightOut,
        setQueue, same, if_pos heavy, update_self, update_idem]
      exact sameBooks_setQueue (by simp [Queue.books, again])

/-! ### Balancing and what a tick needs -/

theorem Books.loadBalance (books : Books s) (careful : BalancesCarefully s) :
    Returns s.loadBalance fun result => Books result.2 := by
  obtain stays | ⟨busiest, lightest, t, pair, task, apart, live, isCpu, moves⟩ :=
    loadBalance_cases
  · rw [stays]
    exact .of_some books
  obtain ⟨on, single, fits⟩ := careful _ pair t task
  rw [moves]
  refine (books.trees.migrate live on isCpu single).map fun s' migrated => ?_
  obtain ⟨trees, first, vruntime, retired, admitted⟩ := migrated
  have off : first.onRq t = false := by rw [retired.onRq, update_self]
  have here : s.place t = some busiest := by rw [books.place_of_on on, isCpu]
  have counted := books.counted.retired retired here
  -- while the task is on no queue, its CPU is changed
  have moved : Counted { first with
      cpu := update first.cpu t lightest, vruntime } := by
    refine counted.congr ?_ (fun _ _ => rfl) fun _ => rfl
    funext a
    by_cases isTask : a = t
    · simp [isTask, place, off]
    · simp only [place, update_of_ne isTask]
  refine ⟨trees, moved.admitted admitted off ?_ (update_self _ _ _) ?_⟩
  · rwa [retired.pid]
  · show (first.queue lightest).cfsWeightSum + first.weight t < 2147483648
    rw [retired.cfsWeightSum, if_neg apart.symm, retired.weight]
    exact fits

theorem WakesCarefully.congr (careful : WakesCarefully s pid) (same : SameView s s') :
    WakesCarefully s' pid := by
  intro t isTask notRunning notReady
  rw [same.state] at notRunning notReady
  obtain ⟨live, off, target, fits⟩ := careful t isTask notRunning notReady
  refine ⟨by rwa [same.pid], by rwa [same.onRq], ?_, ?_⟩
  · rw [same.wakeupTarget, same.cpu, target]
  · rw [Fits, same.cpu, same.weight, cfsWeightSum_eq same.toSameBooks]
    exact fits

theorem books_tickRules : TickRules Books (fun _ _ _ => True) WakesCarefully BalancesCarefully where
  trees := fun books => books.trees
  quiet := fun books same => books.congr same.toSameBooks
  pickable := fun _ _ => trivial
  stays := fun _ _ _ => trivial
  picked := fun books _ => books.congr (sameBooks_state.trans (sameBooks_setQueue rfl))
  wakes := fun books careful => books.wakeup careful
  same := fun careful same => careful.congr same
  balances := fun books careful => books.loadBalance careful

/-! ## Runs -/

theorem Books.accounted (books : Books s) : Accounted s where
  nrRunning := fun c => by
    rw [books.counted.nrRunning, tasksOn_eq, load_one]
  cfsNrRunning := fun c => by
    rw [books.counted.cfsNrRunning, tasksOn_eq, load_one]
  weightSum := fun c => by
    rw [books.counted.weightSum, tasksOn_eq, load]
  cfsWeightSum := fun c => by
    rw [books.counted.cfsWeightSum, tasksOn_eq, load]
  inTree := by
    intro c t member d
    obtain ⟨tree, planted⟩ := books.trees
    obtain ⟨-, on, isCpu⟩ := (Finset.mem_filter.mp member).2
    rw [(planted.represents d).reach_iff, planted.member d t, isCpu]
    exact ⟨fun inTree => inTree.2.symm, fun same => ⟨on, same.symm⟩⟩

theorem Books.step {op : Op} (books : Books s) (careful : Careful s op) :
    Returns (step s op) Books := by
  cases op with
  | createTask nice cpu => exact (books.createTask careful).map fun _ kept => kept
  | registerCpu cpu => exact (books.registerCpu careful).map fun _ kept => kept
  | wakeup pid => exact (books.wakeup careful).map fun _ kept => kept.1
  | sleep pid wakeupTime => exact (books.sleep careful).map fun _ kept => kept
  | exit pid => exact (books.exit careful).map fun _ kept => kept
  | setAffinity pid cpumask => exact .of_some (books_tickRules.setAffinity books)
  | setNice pid nice => exact .of_some (books.setNice careful)
  | runTick cpu delta => exact (books_tickRules.runTick books careful).map fun _ kept => kept
  | loadBalance => exact (books.loadBalance careful).map fun _ kept => kept

theorem books_init {nrCpus : Int} : Books (init nrCpus) where
  trees := treesApart_init
  counted := by
    have nowhere : (init nrCpus).place = fun _ => none := by
      funext t
      simp [place, init]
    have empty : ∀ weight c, load (init nrCpus).place weight c = 0 := by
      intro weight c
      simp [nowhere, load, occupants]
    exact ⟨fun c => (empty _ c).symm, fun c => by rw [empty]; rfl, fun c => (empty _ c).symm,
      fun c => by rw [empty]; rfl, fun c => by rw [empty]; omega⟩

/-- **Run-queue accounting.** A run of careful calls returns, with the counters of every CPU
right and its tasks in its tree and in no other. -/
theorem accounting_of_careful (nrCpus : Int) (ops : List Op)
    (careful : MeetsPartial step Careful (init nrCpus) ops) :
    Returns (runPartial step (init nrCpus) ops) Accounted := by
  have kept := MeetsPartial.invariant (fun _ _ books here => books.step here) books_init careful
  exact kept.mono fun _ books => books.accounted

/-- A task that runs on CPU 0, sleeps, wakes and is moved to CPU 1. -/
def movedTask : List Op :=
  [.createTask 0 0, .registerCpu 0, .registerCpu 1, .runTick 0 1000, .sleep 1 0, .wakeup 1,
    .setAffinity 1 3, .loadBalance]

theorem movedTask_accounted :
    MeetsPartial step Careful (init 2) movedTask ∧
      Returns (runPartial step (init 2) movedTask) Accounted := by
  have careful : MeetsPartial step Careful (init 2) movedTask := by decide +kernel
  exact ⟨careful, accounting_of_careful 2 movedTask careful⟩

/-- `smp_sched_set_nice` of the idle task of CPU 0: one weight sum is 1024, the other still 1. -/
theorem reniced_weight_sums_differ :
    ∃ s, runPartial step (init 1) [.registerCpu 0, .setNice 1 0] = some s ∧
      (s.queue 0).weightSum = 1024 ∧ (s.queue 0).cfsWeightSum = 1 ∧ ¬ Accounted s := by
  refine Returns.of_map (f := fun s => ((s.queue 0).weightSum, (s.queue 0).cfsWeightSum))
    (v := (1024, 1)) (by decide +kernel) fun s both => ?_
  obtain ⟨smp, cfs⟩ := Prod.mk.inj both
  refine ⟨smp, cfs, fun accounted => ?_⟩
  have first := accounted.weightSum 0
  have second := accounted.cfsWeightSum 0
  rw [← first, smp, cfs] at second
  exact absurd second (by decide)

end FunsOS.SchedSmp
