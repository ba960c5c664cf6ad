import FunsOS.Tcp.Receive
import Mathlib.Data.List.Sort
import Mathlib.Data.Nat.SuccPred
import Mathlib.Order.Interval.Set.Monotone

/-!
# Reassembly in any order

A range of the stream arrives as segments in some order. `ooo_insert` keeps the segments that
came early with the *greatest* sequence number first, and `tcp_deliver_data` looks at the first
one only. So one segment can wait for the others, but of two that wait the earlier one is never
delivered (`Blocked`). The range is reassembled exactly when no segment is overtaken by two later
ones (`reassembled_iff`).
-/

set_option autoImplicit false

namespace FunsOS.Tcp

open List Nat UInt32 Receiver

/-- Where a segment starts, when the segments have the given data. -/
def startOf (data : Nat → List UInt8) : Nat → Nat
  | 0 => 0
  | i + 1 => startOf data i + (data i).length

/-- The segments of a range that starts at the sequence number `isn`. -/
def segmentAt (data : Nat → List UInt8) (isn : UInt32) (i : Nat) : Segment :=
  ⟨isn + ofNat (startOf data i), data i⟩

/-- The sequence number behind a segment is that of the following one. -/
theorem seq_next {data : Nat → List UInt8} {isn : UInt32} {i : Nat} :
    isn + ofNat (startOf data i) + ofNat (data i).length = isn + ofNat (startOf data (i + 1)) := by
  rw [startOf, UInt32.ofNat_add, UInt32.add_assoc]

/-- One of the segments arrives; `kmalloc` finds its blocks. -/
def Receiver.arrive (data : Nat → List UInt8) (isn : UInt32) (sock : Receiver) (i : Nat) : Receiver :=
  sock.receiveData (segmentAt data isn i) true true

/-- No segment is overtaken by two later ones. -/
def OvertakenOnce (order : List Nat) : Prop :=
  ∀ a b i, [a, b, i].Sublist order → ¬ (i < a ∧ i < b)

theorem sub_toNat {isn : UInt32} {a b : Nat} (short : b ≤ 1024 * 1024) :
    (isn + UInt32.ofNat a - (isn + UInt32.ofNat b)).toNat = (2 ^ 32 - b + a) % 2 ^ 32 := by
  have moved : isn + ofNat a - (isn + ofNat b) = ofNat a - ofNat b := by grind
  rw [moved, UInt32.toNat_sub, UInt32.toNat_ofNat', UInt32.toNat_ofNat']
  omega

/-- The segments that have arrived are those before `next`, which are delivered, and those in
the queue. -/
structure At (data : Nat → List UInt8) (isn : UInt32) (before : List Nat) (sock : Receiver)
    (next : Nat) (queue : List Nat) : Prop where
  rcvNxt : sock.rcvNxt = isn + ofNat (startOf data next)
  ooo : sock.ooo = queue.map (segmentAt data isn)
  known : ∀ i, i ∈ before ↔ i < next ∨ i ∈ queue

/-- A segment that is not delivered yet waits behind a later one. -/
def Blocked (next : Nat) (queue : List Nat) : Prop :=
  ∃ first i rest, queue = first :: rest ∧ i ∈ rest ∧ i < first ∧ next ≤ i

section Range

variable {data : Nat → List UInt8} {isn : UInt32} {sock : Receiver} {k i next j : Nat}
  {before queue : List Nat}
  (nonempty : ∀ i < k, data i ≠ []) (short : startOf data k ≤ 1024 * 1024)

include nonempty

theorem startOf_strictMonoOn : StrictMonoOn (startOf data) (Set.Iic k) := by
  refine strictMonoOn_Iic_of_lt_succ fun i below => ?_
  exact Nat.lt_add_of_pos_right (length_pos_iff.mpr (nonempty i below))

include short

theorem startOf_le {i : Nat} (le : i ≤ k) : startOf data i ≤ 1024 * 1024 :=
  le_trans ((startOf_strictMonoOn nonempty).monotoneOn le (Set.mem_Iic.mpr le_rfl) le) short

/-- The sequence numbers order the segments. -/
theorem seqGt_startOf {i : Nat} (iLe : i ≤ k) (jLe : j ≤ k) :
    seqGt (isn + ofNat (startOf data i)) (isn + ofNat (startOf data j)) ↔ j < i := by
  have iShort := startOf_le nonempty short iLe
  have jShort := startOf_le nonempty short jLe
  rw [seqGt_iff_toNat, sub_toNat jShort, ← (startOf_strictMonoOn nonempty).lt_iff_lt jLe iLe]
  omega

/-- The sequence numbers tell the segments apart. -/
theorem seq_eq_iff {i : Nat} (iLe : i ≤ k) (jLe : j ≤ k) :
    isn + ofNat (startOf data i) = isn + ofNat (startOf data j) ↔ i = j := by
  refine ⟨fun same => ?_, fun same => by rw [same]⟩
  have iShort := startOf_le nonempty short iLe
  have jShort := startOf_le nonempty short jLe
  have distance := @sub_toNat isn (startOf data i) (startOf data j) jShort
  rw [same, UInt32.sub_self] at distance
  refine (startOf_strictMonoOn nonempty).injOn iLe jLe ?_
  change 0 = _ at distance
  omega

/-- A segment is queued as its number is: it is never joined with its neighbour, which has a
smaller number. -/
theorem oooInsert_segmentAt (within : ∀ j ∈ queue, j < k) (lt : i < k) :
    oooInsert true (segmentAt data isn i) (queue.map (segmentAt data isn)) =
      (queue.orderedInsert (· ≥ ·) i).map (segmentAt data isn) := by
  induction queue with
  | nil => rfl
  | cons n rest ih =>
    obtain ⟨first, others⟩ := forall_mem_cons.mp within
    have greater : seqGt (segmentAt data isn n).seq (segmentAt data isn i).seq ↔ i < n :=
      seqGt_startOf nonempty short (le_of_lt first) (le_of_lt lt)
    rw [map_cons, oooInsert, orderedInsert_cons]
    by_cases later : i < n
    · rw [if_pos (greater.mpr later), if_neg (Nat.not_le_of_lt later), ih others, map_cons]
    · have apart : ¬ (segmentAt data isn i).seq + ofNat (segmentAt data isn i).data.length =
          (segmentAt data isn n).seq := by
        intro joined
        have following := (seq_eq_iff nonempty short lt (le_of_lt first)).mp
          (seq_next.symm.trans joined)
        omega
      rw [if_neg (greater.not.mpr later), if_pos (Nat.le_of_not_lt later), coalesce,
        if_neg (fun both => apart both.2)]
      rfl

/-- The next segment is accepted. With it goes the first of the queue, if that comes right
after; nothing may wait behind it then. -/
theorem At.receive_next (at_ : At data isn before sock i queue) (lt : i < k)
    (within : ∀ j ∈ before, j < k) (alone : ∀ rest, queue = (i + 1) :: rest → rest = []) :
    At data isn (before ++ [i]) (sock.arrive data isn i)
      (if queue = [i + 1] then i + 2 else i + 1) (if queue = [i + 1] then [] else queue) := by
  have hasData : (segmentAt data isn i).data ≠ [] := nonempty i lt
  have isNext : (segmentAt data isn i).seq = sock.rcvNxt := at_.rcvNxt.symm
  have accepts (r : Receiver) (j : Nat) (here : r.rcvNxt = isn + ofNat (startOf data j)) :
      (r.accept (data j)).rcvNxt = isn + ofNat (startOf data (j + 1)) := by
    rw [← seq_next, ← here]
    rfl
  have accepted := accepts sock i at_.rcvNxt
  have member (x : Nat) : x ∈ before ++ [i] ↔ x < i + 1 ∨ x ∈ queue := by
    rw [mem_append, mem_singleton, at_.known, Nat.lt_succ_iff_lt_or_eq]
    exact or_right_comm
  rw [arrive, receiveData, if_neg hasData, if_pos isNext, at_.ooo]
  change At _ _ _ ((sock.accept (data i)).deliverData _) _ _
  cases queue with
  | nil => exact ⟨accepted, rfl, member⟩
  | cons first rest =>
    rw [map_cons, deliverData]
    by_cases follows : first = i + 1
    · obtain rfl := alone rest (by rw [follows])
      subst follows
      have following : (segmentAt data isn (i + 1)).seq = (sock.accept (data i)).rcvNxt :=
        accepted.symm
      rw [if_pos rfl, if_pos rfl, if_pos following]
      refine ⟨accepts _ (i + 1) accepted, rfl, fun x => ?_⟩
      rw [member, mem_singleton, or_iff_left not_mem_nil]
      omega
    · have other : first :: rest ≠ [i + 1] := fun same => follows (cons.inj same).1
      have firstLt : first < k := within first ((at_.known first).mpr (.inr mem_cons_self))
      have stays : ¬ (segmentAt data isn first).seq = (sock.accept (data i)).rcvNxt := by
        rw [accepted]
        exact (seq_eq_iff nonempty short (le_of_lt firstLt) lt).not.mpr follows
      rw [if_neg other, if_neg other, if_neg stays]
      exact ⟨accepted, rfl, member⟩

variable (at_ : At data isn before sock next queue) {after : List Nat}
include at_

/-- A later segment is queued. -/
theorem At.receive_early (lt : i < k) (within : ∀ j ∈ before, j < k) (early : next < i) :
    At data isn (before ++ [i]) (sock.arrive data isn i) next (queue.orderedInsert (· ≥ ·) i) := by
  have hasData : (segmentAt data isn i).data ≠ [] := nonempty i lt
  have greater : seqGt (segmentAt data isn i).seq sock.rcvNxt := by
    rw [at_.rcvNxt]
    exact (seqGt_startOf nonempty short (le_of_lt lt) (by omega)).mpr early
  have notNext : ¬ (segmentAt data isn i).seq = sock.rcvNxt := by
    rw [at_.rcvNxt]
    exact (seq_eq_iff nonempty short (le_of_lt lt) (by omega)).not.mpr (by omega)
  have waiting : ∀ j ∈ queue, j < k := fun j waits => within j ((at_.known j).mpr (.inr waits))
  rw [arrive, receiveData, if_neg hasData, if_neg notNext, if_pos greater,
    if_pos rfl, at_.ooo, oooInsert_segmentAt nonempty short waiting lt]
  refine ⟨at_.rcvNxt, rfl, fun x => ?_⟩
  rw [mem_append, mem_singleton, at_.known, mem_orderedInsert]
  tauto

/-- A blocked segment stays blocked. -/
theorem At.receive_blocked (lt : i < k) (within : ∀ j ∈ before, j < k) (new : i ∉ before)
    (blocked : Blocked next queue) :
    ∃ n q, At data isn (before ++ [i]) (sock.arrive data isn i) n q ∧ Blocked n q := by
  obtain ⟨first, second, rest, rfl, isIn, below, le⟩ := blocked
  have other : i ≠ second := by
    rintro rfl
    exact new ((at_.known i).mpr (.inr (mem_cons_of_mem _ isIn)))
  have notEarlier : ¬ i < next := fun earlier => new ((at_.known i).mpr (.inl earlier))
  by_cases isNext : i = next
  · subst isNext
    have received := at_.receive_next nonempty short lt within fun _ same =>
      absurd (cons.inj same).1 (by omega)
    have several : first :: rest ≠ [i + 1] := fun same =>
      absurd (cons.inj same).1 (by omega)
    rw [if_neg several, if_neg several] at received
    exact ⟨i + 1, first :: rest, received, first, second, rest, rfl, isIn, below, by omega⟩
  · refine ⟨next, _, at_.receive_early nonempty short lt within (by omega), ?_⟩
    rw [orderedInsert_cons]
    split
    · exact ⟨i, second, first :: rest, rfl, mem_cons_of_mem _ isIn, by omega, le⟩
    · exact ⟨first, second, _, rfl, (mem_orderedInsert _).mpr (.inr isIn), below, le⟩

/-- A segment that is blocked is in the queue at the end. -/
theorem At.ooo_ne_nil (blocked : Blocked next queue) (distinct : (before ++ after).Nodup)
    (within : ∀ j ∈ before ++ after, j < k) : (after.foldl (arrive data isn) sock).ooo ≠ [] := by
  induction after generalizing before sock next queue with
  | nil =>
    obtain ⟨first, second, rest, rfl, -⟩ := blocked
    rw [foldl_nil, at_.ooo]
    exact cons_ne_nil _ _
  | cons i after ih =>
    obtain ⟨withinBefore, withinAfter⟩ := forall_mem_append.mp within
    have new : i ∉ before := fun member =>
      disjoint_of_nodup_append distinct member mem_cons_self
    obtain ⟨n, q, received, still⟩ := at_.receive_blocked nonempty short
      (withinAfter i mem_cons_self) withinBefore new blocked
    rw [append_cons] at distinct within
    exact ih received still distinct within

omit nonempty short in
/-- When all segments have arrived and at most one waits, none waits. -/
theorem At.complete (ahead : ∀ j ∈ queue, next < j) (all : ∀ x, x ∈ before ↔ x < k) :
    next = k ∧ queue = [] := by
  have nextEq : next = k := by
    refine Nat.le_antisymm (Nat.le_of_not_lt fun past => ?_) (Nat.le_of_not_lt fun missing => ?_)
    · exact Nat.lt_irrefl k ((all k).mp ((at_.known k).mpr (.inl past)))
    · have waits := ((at_.known next).mp ((all next).mpr missing)).resolve_left (Nat.lt_irrefl _)
      exact lt_irrefl _ (ahead next waits)
  refine ⟨nextEq, eq_nil_iff_forall_not_mem.mpr fun j waits => ?_⟩
  have known := (all j).mp ((at_.known j).mpr (.inr waits))
  have later := ahead j waits
  omega

omit nonempty short in
/-- While at most one segment waits, a new one has been overtaken at most once. -/
theorem At.overtakenOnce (one : queue.length ≤ 1) (once : OvertakenOnce before)
    (distinct : before.Nodup) (le : next ≤ i) : OvertakenOnce (before ++ [i]) := by
  rintro a b c sublist ⟨overA, overB⟩
  obtain ⟨front, back, split, inBefore, inLast⟩ := sublist_append_iff.mp sublist
  rcases sublist_singleton.mp inLast with rfl | rfl
  · rw [append_nil] at split
    exact once a b c (split ▸ inBefore) ⟨overA, overB⟩
  · obtain ⟨rfl, last⟩ := @append_inj' _ [a, b] [c] _ _ split rfl
    obtain rfl := (cons.inj last).1
    have waits {x : Nat} (member : x ∈ before) (later : c < x) : x ∈ queue :=
      ((at_.known x).mp member).resolve_left (by omega)
    have aWaits := waits (inBefore.subset (by simp)) overA
    have bWaits := waits (inBefore.subset (by simp)) overB
    have different : a ≠ b := by simpa using distinct.sublist inBefore
    obtain ⟨w, rfl⟩ := length_eq_one_iff.mp (le_antisymm one (length_pos_of_mem aWaits))
    exact different ((mem_singleton.mp aWaits).trans (mem_singleton.mp bWaits).symm)

/-- From a state in which at most one segment waits, the rest of the segments lead to the end
of the range exactly when none of all is overtaken twice. -/
theorem At.arrive_all_iff (one : queue.length ≤ 1) (ahead : ∀ j ∈ queue, next < j)
    (once : OvertakenOnce before) (perm : (before ++ after).Perm (range k)) :
    (after.foldl (arrive data isn) sock).rcvNxt = isn + ofNat (startOf data k) ∧
        (after.foldl (arrive data isn) sock).ooo = [] ↔
      OvertakenOnce (before ++ after) := by
  have all {x : Nat} : x ∈ before ++ after ↔ x < k := perm.mem_iff.trans mem_range
  have distinct : (before ++ after).Nodup := perm.nodup_iff.mpr nodup_range
  induction after generalizing before sock next queue with
  | nil =>
    rw [append_nil] at all ⊢
    obtain ⟨rfl, rfl⟩ := at_.complete ahead fun x => all
    exact iff_of_true ⟨at_.rcvNxt, at_.ooo⟩ once
  | cons i after ih =>
    have new : i ∉ before := fun member =>
      disjoint_of_nodup_append distinct member mem_cons_self
    have lt : i < k := all.mp (mem_append_right _ mem_cons_self)
    have within : ∀ j ∈ before, j < k := fun j member => all.mp (mem_append_left _ member)
    have nextLe : next ≤ i :=
      Nat.le_of_not_lt fun earlier => new ((at_.known i).mpr (.inl earlier))
    have stillOnce := at_.overtakenOnce one once distinct.of_append_left nextLe
    rw [append_cons] at perm distinct all ⊢
    rw [foldl_cons]
    by_cases isNext : i = next
    · subst isNext
      have received := at_.receive_next nonempty short lt within ?_
      · by_cases follows : queue = [i + 1]
        · rw [if_pos follows, if_pos follows] at received
          exact ih received (zero_le _) (by simp) stillOnce perm all distinct
        · rw [if_neg follows, if_neg follows] at received
          refine ih received one (fun j waits => ?_) stillOnce perm all distinct
          have later := ahead j waits
          obtain ⟨w, rfl⟩ := length_eq_one_iff.mp (le_antisymm one (length_pos_of_mem waits))
          obtain rfl := mem_singleton.mp waits
          rw [cons.injEq, and_iff_left rfl] at follows
          omega
      · rintro rest rfl
        exact length_eq_zero_iff.mp (le_zero.mp (le_of_succ_le_succ one))
    · have early : next < i := by omega
      have received := at_.receive_early nonempty short lt within early
      cases queue with
      | nil => exact ih received (le_refl _) (by simpa using early) stillOnce perm all distinct
      | cons w rest =>
        obtain rfl : rest = [] :=
          length_eq_zero_iff.mp (le_zero.mp (le_of_succ_le_succ one))
        have wAhead := ahead w mem_cons_self
        have wKnown : w ∈ before := (at_.known w).mpr (.inr mem_cons_self)
        have other : i ≠ w := fun same => new (same ▸ wKnown)
        refine iff_of_false (fun finished => ?_) fun allOnce => ?_
        · refine received.ooo_ne_nil nonempty short ?_ distinct (fun j => all.mp) finished.2
          rw [orderedInsert_cons]
          split
          · exact ⟨i, w, [w], rfl, mem_cons_self, by omega, by omega⟩
          · exact ⟨w, i, [i], rfl, mem_cons_self, by omega, by omega⟩
        · have missing : next ∈ after := by
            refine (mem_append.mp (all.mpr (early.trans lt))).resolve_left fun known => ?_
            rw [mem_append, at_.known, mem_singleton, mem_singleton] at known
            omega
          refine allOnce w i next ?_ ⟨wAhead, early⟩
          rw [append_assoc]
          exact (singleton_sublist.mpr wKnown).append ((singleton_sublist.mpr missing).cons_cons i)

end Range

/-- **A range that arrives in segments is reassembled exactly when no segment is overtaken by two
later ones.** -/
theorem reassembled_iff {data : Nat → List UInt8} {k : Nat} {order : List Nat} {sock : Receiver}
    (nonempty : ∀ i < k, data i ≠ []) (perm : order.Perm (range k)) (fresh : sock.ooo = [])
    (fits : startOf data k < sock.recvBufSize - sock.recvBufLen) :
    (order.foldl (arrive data sock.rcvNxt) sock).rcvNxt = sock.rcvNxt + ofNat (startOf data k) ∧
        (order.foldl (arrive data sock.rcvNxt) sock).ooo = [] ↔
      OvertakenOnce order := by
  have start : At data sock.rcvNxt [] sock 0 [] :=
    ⟨(UInt32.add_zero _).symm, fresh, fun i => by simp⟩
  have once : OvertakenOnce [] := fun a b i sublist => by simp at sublist
  have small := sock.size_lt
  exact start.arrive_all_iff nonempty (by omega) (zero_le _) (by simp) once perm

theorem reassembled_iff_swapped :
    ([1, 0].foldl (arrive (fun _ => [7]) emptyReceiver.rcvNxt) emptyReceiver).rcvNxt =
          emptyReceiver.rcvNxt + ofNat (startOf (fun _ => [7]) 2) ∧
        ([1, 0].foldl (arrive (fun _ => [7]) emptyReceiver.rcvNxt) emptyReceiver).ooo = [] ↔
      OvertakenOnce [1, 0] :=
  reassembled_iff (fun _ _ => by decide) (by decide) rfl (by decide)

/-- Of three segments in reverse order the middle one is never delivered. -/
theorem not_reassembled_reversed :
    [2, 1, 0].Perm (range 3) ∧
      ([2, 1, 0].foldl (arrive (fun _ => [7]) 0) emptyReceiver).rcvNxt ≠ 3 ∧
      ([2, 1, 0].foldl (arrive (fun _ => [7]) 0) emptyReceiver).ooo ≠ [] := by
  decide

end FunsOS.Tcp
