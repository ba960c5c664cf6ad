import FunsOS.Sched.Ops

/-!
# The RT and MLFQ queues as lists

`QueuesOk s q` says that every queue `i` is a doubly linked list of the processes
`q i` with the right count, that a queued process is READY and sits in the queue its
policy, priority and level select, and that a process in no queue has no links. The
last part is what the membership guard of `queue_remove` rests on.

`queueAdd_ok` and `queueRemove_ok` are the two operations on it; `QueuesOk.change`
says that the fields of a process in no queue may change.
-/

set_option autoImplicit false

namespace FunsOS.Sched

open Foundation List SchedState
open Function (update update_eq_self update_of_ne update_self)

universe u

variable {α : Type u} {s s' : SchedState α} {q : QueueId → List α} {p x : α} {i j : QueueId}

/-- The kind of run queue `add_to_queue` uses for a policy. -/
inductive Route where
  | queue
  | cfs
  | deadline
  deriving DecidableEq, Repr

/-- The tests of `add_to_queue`. -/
def Policy.route (policy : Policy) : Route :=
  if policy.realTime then .queue
  else if policy.cfs then .cfs
  else if policy.deadline then .deadline
  else .queue

/-- The NORMAL flag comes without a flag that selects another kind of queue. -/
def Policy.Clean (policy : Policy) : Prop :=
  policy.normal → policy.realTime = false ∧ policy.cfs = false ∧ policy.deadline = false
deriving Decidable

/-- The queues hold the processes `q`. -/
structure QueuesOk (s : SchedState α) (q : QueueId → List α) : Prop where
  lists : ∀ i, Dll s.queueNext s.queuePrev (s.head i) (s.tail i) (q i)
  count : ∀ i, s.count i = (q i).length
  home : ∀ i, ∀ p ∈ q i, s.state p = .ready ∧ (s.policy p).route = .queue ∧ i = s.selected p
  unlinked : ∀ p ∉ q (s.selected p), s.queueNext p = none ∧ s.queuePrev p = none
  level : ∀ p, s.queueLevel p < 8
  clean : ∀ p, (s.policy p).Clean
  dlEmpty : s.dlHead = none

/-- The two states agree on the RT and MLFQ queues and the head of the deadline
queue. -/
structure SameQueues (s s' : SchedState α) : Prop where
  queueNext : s'.queueNext = s.queueNext
  queuePrev : s'.queuePrev = s.queuePrev
  head : s'.head = s.head
  tail : s'.tail = s.tail
  count : s'.count = s.count
  dlHead : s'.dlHead = s.dlHead

/-- The two states agree on what selects the queue of a process. -/
structure SameProcess (s s' : SchedState α) (p : α) : Prop where
  state : s'.state p = s.state p
  policy : s'.policy p = s.policy p
  priority : s'.priority p = s.priority p
  queueLevel : s'.queueLevel p = s.queueLevel p

/-- The process is queued in the same place in both states. -/
structure SamePlace (s s' : SchedState α) (p : α) : Prop where
  state : s'.state p = s.state p
  route : (s'.policy p).route = (s.policy p).route
  selected : s'.selected p = s.selected p

theorem SameProcess.place (same : SameProcess s s' p) : SamePlace s s' p where
  state := same.state
  route := by rw [same.policy]
  selected := by
    rw [selected, selected, same.policy, same.priority, same.queueLevel]

theorem mlfqAt_of_lt {level : Nat} (small : level < 8) :
    mlfqAt level = some (mlfqClamped level) := by
  rw [mlfqAt, dif_pos small]
  congr
  omega

/-- The lists after a process has been added to the queue it selects. -/
def enter (q : QueueId → List α) (i : QueueId) (p : α) : QueueId → List α :=
  update q i (q i ++ [p])

theorem mem_enter : x ∈ enter q i p j ↔ x ∈ q j ∨ (j = i ∧ x = p) := by
  by_cases here : j = i
  · subst here
    simp [enter]
  · simp [enter, here]

section

variable (ok : QueuesOk s q)
include ok

theorem QueuesOk.notMem (out : p ∉ q (s.selected p)) : p ∉ q i := by
  intro member
  obtain ⟨-, -, rfl⟩ := ok.home i p member
  exact out member

/-- What selects the queue of a queued process must stay; other fields may change. -/
theorem QueuesOk.change (queues : SameQueues s s') (same : ∀ i, ∀ x ∈ q i, SamePlace s s' x)
    (level : ∀ x, s'.queueLevel x < 8) (clean : ∀ x, (s'.policy x).Clean) : QueuesOk s' q := by
  constructor
  case lists =>
    intro i
    rw [queues.queueNext, queues.queuePrev, queues.head, queues.tail]
    exact ok.lists i
  case count => exact fun i => by rw [queues.count, ok.count i]
  case home =>
    intro i x member
    have kept := same i x member
    rw [kept.state, kept.route, kept.selected]
    exact ok.home i x member
  case unlinked =>
    intro x absent
    rw [queues.queueNext, queues.queuePrev]
    refine ok.unlinked x fun member => ?_
    rw [(same _ x member).selected] at absent
    exact absent member
  case level => exact level
  case clean => exact clean
  case dlEmpty => rw [queues.dlHead, ok.dlEmpty]

theorem QueuesOk.changeOne (out : ∀ i, p ∉ q i) (queues : SameQueues s s')
    (others : ∀ x ≠ p, SameProcess s s' x) (level : s'.queueLevel p < 8)
    (clean : (s'.policy p).Clean) : QueuesOk s' q := by
  refine ok.change queues (fun i x member => (others x ?_).place) (fun x => ?_) fun x => ?_
  · rintro rfl
    exact out i member
  · by_cases here : x = p
    · exact here ▸ level
    · exact (others x here).queueLevel ▸ ok.level x
  · by_cases here : x = p
    · exact here ▸ clean
    · exact (others x here).policy ▸ ok.clean x

theorem QueuesOk.around (member : p ∈ q i) : ∃ before after, q i = before ++ p :: after ∧
      Dll s.queueNext s.queuePrev (s.head i) (s.tail i) (before ++ p :: after) := by
  obtain ⟨before, after, split⟩ := append_of_mem member
  exact ⟨before, after, split, split ▸ ok.lists i⟩

/-- The membership guard of `queue_remove` lets a queued process pass. -/
theorem QueuesOk.passes (member : p ∈ q (s.selected p)) :
    ¬ (s.head (s.selected p) ≠ some p ∧ s.queuePrev p = none ∧ s.queueNext p = none) := by
  obtain ⟨before, after, split, dll⟩ := ok.around member
  rintro ⟨notHead, prevNone, -⟩
  rw [dll.links.2, List.getLast?_eq_none_iff] at prevNone
  rw [dll.head_eq, prevNone] at notHead
  exact notHead rfl

variable [DecidableEq α]

/-- The lists after a process has been taken from a queue. -/
def leave (q : QueueId → List α) (i : QueueId) (p : α) : QueueId → List α :=
  update q i ((q i).erase p)

omit ok in
theorem mem_leave (nodup : (q i).Nodup) : x ∈ leave q i p j ↔ x ∈ q j ∧ ¬ (j = i ∧ x = p) := by
  by_cases here : j = i
  · subst here
    simp [leave, nodup.mem_erase_iff, and_comm]
  · simp [leave, here]

/-! ## Adding and removing -/

theorem queueAdd_ok (out : ∀ i, p ∉ q i) (ready : s.state p = .ready)
    (queued : (s.policy p).route = .queue) :
    QueuesOk (queueAdd s (s.selected p) p) (enter q (s.selected p) p) := by
  have tailMem : ∀ i b, s.tail i = some b → b ∈ q i := fun i b last =>
    mem_of_getLast? ((ok.lists i).tail_eq ▸ last)
  have apart : ∀ i ≠ s.selected p, ∀ x ∈ q i, s.tail (s.selected p) ≠ some x := by
    intro i other x member last
    obtain ⟨-, -, here⟩ := ok.home i x member
    obtain ⟨-, -, there⟩ := ok.home _ x (tailMem _ x last)
    exact other (here.trans there.symm)
  constructor
  case lists =>
    intro i
    by_cases here : i = s.selected p
    · subst here
      simpa [queueAdd, enter] using (ok.lists (s.selected p)).pushBack (out _)
    · simp only [queueAdd, enter, update_of_ne here]
      refine (ok.lists i).congr (fun x member => ?_) fun x member => ?_
      · have other : x ≠ p := fun same => out i (same ▸ member)
        rw [redirect_of_ne (apart i here x member), update_of_ne other]
      · have other : x ≠ p := fun same => out i (same ▸ member)
        exact update_of_ne other _ _
  case count =>
    intro i
    by_cases here : i = s.selected p
    · subst here
      simp [queueAdd, enter, ok.count]
    · simp [queueAdd, enter, here, ok.count]
  case home =>
    intro i x member
    rcases mem_enter.mp member with old | ⟨rfl, rfl⟩
    · exact ok.home i x old
    · exact ⟨ready, queued, rfl⟩
  case unlinked =>
    intro x absent
    have notOld : x ∉ q (s.selected x) := fun member => absent (mem_enter.mpr (.inl member))
    have other : x ≠ p := by
      rintro rfl
      exact absent (mem_enter.mpr (.inr ⟨rfl, rfl⟩))
    obtain ⟨nextNone, prevNone⟩ := ok.unlinked x notOld
    have notTail : s.tail (s.selected p) ≠ some x := fun last =>
      ok.notMem notOld (tailMem _ x last)
    simp only [queueAdd]
    rw [redirect_of_ne notTail, update_of_ne other, update_of_ne other]
    exact ⟨nextNone, prevNone⟩
  case level => exact ok.level
  case clean => exact ok.clean
  case dlEmpty => exact ok.dlEmpty

/-- The membership guard of `queue_remove` recognises a process in no queue. -/
theorem queueRemove_of_notMem (absent : p ∉ q (s.selected p)) :
    queueRemove s (s.selected p) p = s := by
  obtain ⟨nextNone, prevNone⟩ := ok.unlinked p absent
  have notHead : s.head (s.selected p) ≠ some p := fun first =>
    absent (mem_of_head? ((ok.lists _).head_eq ▸ first))
  rw [queueRemove, if_pos ⟨notHead, prevNone, nextNone⟩]

/-- Only the links of the neighbours change, and they are in the same queue. -/
theorem QueuesOk.redirect_elsewhere (member : p ∈ q (s.selected p)) (other : x ≠ p)
    (outside : x ∉ q (s.selected p)) :
    update (redirect s.queueNext (s.queuePrev p) (s.queueNext p)) p none x = s.queueNext x ∧
      update (redirect s.queuePrev (s.queueNext p) (s.queuePrev p)) p none x = s.queuePrev x := by
  obtain ⟨before, after, split, dll⟩ := ok.around member
  obtain ⟨nextEq, prevEq⟩ := dll.links
  have notNext : s.queueNext p ≠ some x := by
    intro leads
    refine outside ?_
    rw [split]
    exact mem_append_right _ (mem_cons_of_mem _ (mem_of_head? (nextEq ▸ leads)))
  have notPrev : s.queuePrev p ≠ some x := by
    intro leads
    refine outside ?_
    rw [split]
    exact mem_append_left _ (mem_of_getLast? (prevEq ▸ leads))
  rw [update_of_ne other, update_of_ne other]
  exact ⟨redirect_of_ne notPrev, redirect_of_ne notNext⟩

/-- The queue of the process is what is left of it. -/
theorem QueuesOk.redirect_here (member : p ∈ q i) :
    Dll (update (redirect s.queueNext (s.queuePrev p) (s.queueNext p)) p none)
      (update (redirect s.queuePrev (s.queueNext p) (s.queuePrev p)) p none)
      (restart (s.head i) (s.queuePrev p) (s.queueNext p))
      (restart (s.tail i) (s.queueNext p) (s.queuePrev p)) ((q i).erase p) := by
  obtain ⟨before, after, split, dll⟩ := ok.around member
  have fresh : p ∉ before ++ after := (nodup_cons.mp (nodup_middle.mp dll.nodup)).1
  have other : ∀ x ∈ before ++ after, x ≠ p := fun x inRest same => fresh (same ▸ inRest)
  have erased : (q i).erase p = before ++ after := by
    rw [split, erase_append_right _ fun early => fresh (mem_append_left _ early), erase_cons_head]
  rw [erased]
  refine dll.remove.congr (fun x inRest => ?_) fun x inRest => ?_
  · exact update_of_ne (other x inRest) _ _
  · exact update_of_ne (other x inRest) _ _

/-- `queue_remove` from the queue a process selects takes it out, or does nothing
when it is in no queue. -/
theorem queueRemove_ok : QueuesOk (queueRemove s (s.selected p) p) (leave q (s.selected p) p) := by
  by_cases member : p ∈ q (s.selected p)
  swap
  · rw [queueRemove_of_notMem ok member, leave, erase_of_not_mem member, update_eq_self]
    exact ok
  rw [queueRemove, if_neg (ok.passes member)]
  constructor
  case lists =>
    intro i
    by_cases here : i = s.selected p
    · subst here
      simp only [leave, update_self]
      exact ok.redirect_here member
    · simp only [leave, update_of_ne here]
      have links := fun x (inOther : x ∈ q i) => by
        obtain ⟨-, -, home⟩ := ok.home i x inOther
        refine ok.redirect_elsewhere member (fun same => here (same ▸ home)) fun inThis => ?_
        obtain ⟨-, -, home'⟩ := ok.home _ x inThis
        exact here (home.trans home'.symm)
      exact (ok.lists i).congr (fun x inOther => (links x inOther).1) fun x inOther =>
        (links x inOther).2
  case count =>
    intro i
    by_cases here : i = s.selected p
    · subst here
      simp [leave, ok.count, length_erase_of_mem member]
    · simp [leave, here, ok.count]
  case home =>
    intro i x inLeft
    exact ok.home i x ((mem_leave (ok.lists _).nodup).mp inLeft).1
  case unlinked =>
    intro x absent
    rw [mem_leave (ok.lists _).nodup] at absent
    by_cases here : x = p
    · subst here
      exact ⟨update_self _ _ _, update_self _ _ _⟩
    · have notOld : x ∉ q (s.selected x) := fun inOld =>
        absent ⟨inOld, fun both => here both.2⟩
      obtain ⟨nexts, prevs⟩ := ok.redirect_elsewhere member here (ok.notMem notOld)
      dsimp only
      rw [nexts, prevs]
      exact ok.unlinked x notOld
  case level => exact ok.level
  case clean => exact ok.clean
  case dlEmpty => exact ok.dlEmpty

end

/-!
## The CFS queue as a set of waiting processes

`CfsOk limit s out` says that the CFS queue holds the READY processes of the CFS policy,
each once, except for a process `out` that an operation has in its hands. The queue's
pool of nodes is then large enough, and `enqueue_entity` (`CfsOk.enqueue`) and a
`sched_cfs_dequeue` that finds the wanted process first (`CfsOk.dequeue`) keep it so.

`Frame` lists what adding to a run queue and removing from one leave alone.
-/

variable [DecidableEq α] {out : Option α}

/-! ## What queueing leaves alone -/

/-- The fields that adding to a run queue and removing from one leave alone. -/
structure Frame (s s' : SchedState α) : Prop where
  state : s'.state = s.state
  policy : s'.policy = s.policy
  priority : s'.priority = s.priority
  queueLevel : s'.queueLevel = s.queueLevel
  blockedReason : s'.blockedReason = s.blockedReason
  next : s'.next = s.next
  prev : s'.prev = s.prev
  processList : s'.processList = s.processList
  current : s'.current = s.current
  idleTask : s'.idleTask = s.idleTask
  scheduled : s'.scheduled = s.scheduled

omit [DecidableEq α] in
theorem Frame.refl : Frame s s := by
  constructor <;> rfl

omit [DecidableEq α] in
theorem Frame.process (frame : Frame s s') (p : α) : SameProcess s s' p where
  state := congrFun frame.state p
  policy := congrFun frame.policy p
  priority := congrFun frame.priority p
  queueLevel := congrFun frame.queueLevel p

omit [DecidableEq α] in
theorem Frame.list (frame : Frame s s') :
    s'.next = s.next ∧ s'.prev = s.prev ∧ s'.processList = s.processList :=
  ⟨frame.next, frame.prev, frame.processList⟩

variable (s)

theorem frame_queueAdd (i : QueueId) (p : α) : Frame s (queueAdd s i p) := by
  constructor <;> rfl

theorem frame_queueRemove (i : QueueId) (p : α) : Frame s (queueRemove s i p) := by
  unfold queueRemove
  split
  · exact Frame.refl
  · constructor <;> rfl

theorem cfsPreempt_eq (p : α) : ∃ needResched, cfsPreempt s p = { s with needResched } := by
  unfold cfsPreempt
  split
  · exact ⟨s.needResched, rfl⟩
  · split
    · exact ⟨_, rfl⟩
    · exact ⟨s.needResched, rfl⟩

theorem enqueueEntity_of_free {p : α} (free : s.cfsNodes.length ≠ cfsMaxProcs) :
    ∃ needResched, enqueueEntity s p =
      { s with
        cfsNodes := cfsInsert (p, cfsKey s p) s.cfsNodes
        execStart := update s.execStart p s.tickCount
        cfsNrRunning := s.cfsNrRunning + 1
        needResched } := by
  rw [enqueueEntity, if_neg free]
  exact cfsPreempt_eq _ p

theorem enqueueEntity_frame (p : α) :
    Frame s (enqueueEntity s p) ∧ SameQueues s (enqueueEntity s p) := by
  by_cases full : s.cfsNodes.length = cfsMaxProcs
  · rw [enqueueEntity, if_pos full]
    exact ⟨.refl, by constructor <;> rfl⟩
  · obtain ⟨needResched, added⟩ := enqueueEntity_of_free s full
    rw [added]
    constructor <;> constructor <;> rfl

omit [DecidableEq α] in
theorem schedCfsDequeue_frame : Frame s (schedCfsDequeue s) ∧ SameQueues s (schedCfsDequeue s) := by
  unfold schedCfsDequeue
  split
  · constructor <;> constructor <;> rfl
  · split <;> constructor <;> constructor <;> rfl

/-! ## The CFS queue -/

/-- The process waits for the CFS queue. -/
def SchedState.inCfs (p : α) : Prop :=
  s.state p = .ready ∧ (s.policy p).route = .cfs
deriving Decidable

variable {s}

section Cfs

variable [Fintype α] {limit : Nat}

def cfsProcs (s : SchedState α) : Finset α := Finset.univ.filter fun p => (s.policy p).route = .cfs

/-- The CFS queue holds the waiting processes except `out`, each once. At most `limit`
processes have the policy, and there is a node for each. No process has the DEADLINE
policy. -/
structure CfsOk (limit : Nat) (s : SchedState α) (out : Option α) : Prop where
  once : ∀ p, (s.cfsNodes.map Prod.fst).count p = if out ≠ some p ∧ s.inCfs p then 1 else 0
  length : s.cfsNrRunning = s.cfsNodes.length
  bound : limit ≤ cfsMaxProcs
  room : (cfsProcs s).card ≤ limit
  noDeadline : ∀ p, (s.policy p).route ≠ .deadline

omit [DecidableEq α] [Fintype α] in
theorem cfsInsert_perm {node : α × Nat} {nodes : List (α × Nat)} :
    (cfsInsert node nodes).Perm (node :: nodes) := by
  induction nodes with
  | nil => exact .refl _
  | cons curr rest ih =>
    rw [cfsInsert]
    split
    · exact (ih.cons curr).trans (.swap node curr rest)
    · exact .refl _

/-- A process that does not wait may be taken as exempt, or no longer. -/
theorem CfsOk.shift {out' : Option α} (ok : CfsOk limit s out) (notWaiting : ¬ s.inCfs p)
    (outs : ∀ x ≠ p, (out ≠ some x ↔ out' ≠ some x)) : CfsOk limit s out' := by
  refine ⟨fun x => ?_, ok.length, ok.bound, ok.room, ok.noDeadline⟩
  rw [ok.once x]
  by_cases here : x = p
  · subst here
    simp [notWaiting]
  · simp only [outs x here]

/-- The nodes may change, and processes so long as they wait for the same queue. -/
theorem CfsOk.requeue {out' : Option α} (ok : CfsOk limit s out) (same : ∀ x, SamePlace s s' x)
    (once : ∀ x, (s'.cfsNodes.map Prod.fst).count x = if out' ≠ some x ∧ s.inCfs x then 1 else 0)
    (length : s'.cfsNrRunning = s'.cfsNodes.length) : CfsOk limit s' out' := by
  have waits : ∀ x, s'.inCfs x ↔ s.inCfs x := fun x => by
    rw [inCfs, inCfs, (same x).state, (same x).route]
  constructor
  case once =>
    intro x
    rw [once x]
    simp only [waits]
  case length => exact length
  case bound => exact ok.bound
  case room =>
    have procs : cfsProcs s' = cfsProcs s := by
      ext x
      simp [cfsProcs, (same x).route]
    rw [procs]
    exact ok.room
  case noDeadline => exact fun x => (same x).route ▸ ok.noDeadline x

theorem CfsOk.congr (ok : CfsOk limit s out) (nodes : s'.cfsNodes = s.cfsNodes)
    (running : s'.cfsNrRunning = s.cfsNrRunning) (same : ∀ x, SamePlace s s' x) :
    CfsOk limit s' out :=
  ok.requeue same (nodes ▸ ok.once) (by rw [running, nodes, ok.length])

section

variable (ok : CfsOk limit s (some p))
include ok

/-- The exempt process may change. -/
theorem CfsOk.change (nodes : s'.cfsNodes = s.cfsNodes)
    (running : s'.cfsNrRunning = s.cfsNrRunning) (others : ∀ x ≠ p, SamePlace s s' x)
    (notDeadline : (s'.policy p).route ≠ .deadline)
    (room : (s'.policy p).route = .cfs → ((cfsProcs s).erase p).card < limit) :
    CfsOk limit s' (some p) := by
  constructor
  case once =>
    intro x
    rw [nodes, ok.once x]
    by_cases here : x = p
    · subst here
      simp
    · have waits : s'.inCfs x ↔ s.inCfs x := by
        rw [inCfs, inCfs, (others x here).state, (others x here).route]
      simp only [waits]
  case length => rw [running, nodes, ok.length]
  case bound => exact ok.bound
  case room =>
    have procs : (cfsProcs s').erase p = (cfsProcs s).erase p := by
      ext x
      simp only [Finset.mem_erase, cfsProcs, Finset.mem_filter, Finset.mem_univ, true_and]
      exact and_congr_right fun other => by rw [(others x other).route]
    by_cases isCfs : (s'.policy p).route = .cfs
    · have member : p ∈ cfsProcs s' := by simp [cfsProcs, isCfs]
      have fewer := room isCfs
      rw [← procs, Finset.card_erase_of_mem member] at fewer
      omega
    · have absent : p ∉ cfsProcs s' := by simp [cfsProcs, isCfs]
      rw [← Finset.erase_eq_of_notMem absent, procs]
      exact (Finset.card_le_card (Finset.erase_subset p _)).trans ok.room
  case noDeadline =>
    intro x
    by_cases here : x = p
    · exact here ▸ notDeadline
    · exact (others x here).route ▸ ok.noDeadline x

variable (waiting : s.inCfs p)
include waiting

/-- There is a free node for a process that has just become ready. -/
theorem CfsOk.free : s.cfsNodes.length < cfsMaxProcs := by
  have nodup : (s.cfsNodes.map Prod.fst).Nodup := by
    rw [nodup_iff_count_le_one]
    intro x
    rw [ok.once x]
    split <;> omega
  have subset : (s.cfsNodes.map Prod.fst).toFinset ⊆ (cfsProcs s).erase p := by
    intro x member
    rw [mem_toFinset, ← count_pos_iff, ok.once x] at member
    split at member
    case isTrue held =>
      simp only [Finset.mem_erase, cfsProcs, Finset.mem_filter, Finset.mem_univ, true_and]
      exact ⟨fun here => held.1 (congrArg some here.symm), held.2.2⟩
    case isFalse => omega
  have isCfs : p ∈ cfsProcs s := by simp [cfsProcs, waiting.2]
  calc s.cfsNodes.length = (s.cfsNodes.map Prod.fst).toFinset.card := by
        rw [toFinset_card_of_nodup nodup, length_map]
    _ ≤ ((cfsProcs s).erase p).card := Finset.card_le_card subset
    _ < (cfsProcs s).card := Finset.card_erase_lt_of_mem isCfs
    _ ≤ limit := ok.room
    _ ≤ cfsMaxProcs := ok.bound

/-- `enqueue_entity` of the exempt process. -/
theorem CfsOk.enqueue : CfsOk limit (enqueueEntity s p) none := by
  obtain ⟨needResched, added⟩ := enqueueEntity_of_free s (Nat.ne_of_lt (ok.free waiting))
  refine ok.requeue (fun x => ((enqueueEntity_frame s p).1.process x).place) (fun x => ?_) ?_
  · rw [added, (cfsInsert_perm.map Prod.fst).count_eq, map_cons, count_cons, ok.once x]
    by_cases here : x = p
    · subst here
      simp [waiting]
    · simp [Ne.symm here]
  · rw [added, cfsInsert_perm.length_eq, ok.length]
    rfl

end

theorem CfsOk.dequeue (ok : CfsOk limit s none) (waiting : s.inCfs p)
    (first : s.cfsNodes.head?.map Prod.fst = some p) : CfsOk limit (schedCfsDequeue s) (some p) := by
  obtain ⟨node, rest, split, rfl⟩ : ∃ node rest, s.cfsNodes = node :: rest ∧ node.1 = p := by
    cases nodes : s.cfsNodes with
    | nil => simp [nodes] at first
    | cons node rest =>
      rw [nodes] at first
      exact ⟨node, rest, rfl, by simpa using first⟩
  have counted : s.cfsNrRunning = rest.length + 1 := by rw [ok.length, split]; rfl
  have nodes : (schedCfsDequeue s).cfsNodes = rest ∧
      (schedCfsDequeue s).cfsNrRunning = rest.length := by
    have positive : s.cfsNrRunning ≠ 0 := by omega
    rw [schedCfsDequeue, split]
    simp only [if_neg positive, true_and]
    omega
  refine ok.requeue (fun x => ((schedCfsDequeue_frame s).1.process x).place) (fun x => ?_)
    (by rw [nodes.1, nodes.2])
  have old := ok.once x
  rw [split, map_cons, count_cons] at old
  rw [nodes.1]
  by_cases here : x = node.1
  · subst here
    simp [waiting] at old
    simpa using old
  · simpa [Ne.symm here] using old

end Cfs

end FunsOS.Sched
