import FunsOS.Foundation.Runs
import FunsOS.Foundation.SharedCache
import FunsOS.Route.Table

/-!
# When the route cache shows

`uncachedRoute` is what `route_lookup` computes when the cache has no entry for the
destination. A lookup that hits the cache returns instead what the variable of its entry
holds by then. So the cache does not show as long as it is coherent with `uncachedRoute`.

Two kinds of calls may change that. A call that edits the tables or the rules leaves the
cache alone, and so has to leave the routes of the cached destinations alone. A lookup
that misses overwrites `result` for every rule it tries and `cache_storage` when it goes
to the main table, and other entries may point there. `Undisturbed` says that a call does
neither, and `cache_transparent_iff` that the cache does not show in a run exactly if all
its calls are such.
-/

set_option autoImplicit false

namespace FunsOS.Route

open Foundation Function Option Coherent

/-! ## The route without the cache -/

def policyRoute (tables : UInt32 → List RouteEntry) (packet : Selector) (policy : RoutePolicy) :
    Option RouteEntry :=
  if policy.Matches packet then
    let route := routeLookupTable tables policy.tableId packet.dst
    if route.iface.isSome then some route else none
  else none

variable (s : RouteState)

def rulesRoute (dst : UInt32) : Option RouteEntry :=
  s.policies.findSome? (policyRoute s.tables (lookupPacket dst))

def mainRoute (dst : UInt32) : RouteEntry :=
  routeLookupTable s.tables routeTableMain dst

/-- The first matching rule whose table has a route decides, or else the main table. -/
def uncachedRoute (dst : UInt32) : RouteEntry :=
  (rulesRoute s dst).getD (mainRoute s dst)

/-! ## What a lookup writes -/

/-- The route a lookup that misses the cache leaves in a variable, if it writes it. -/
def written (dst : UInt32) : Static → Option RouteEntry
  | .result => (scanPolicies s.tables (lookupPacket dst) s.policies none).1
  | .cacheStorage =>
    if (rulesRoute s dst).isNone ∧ (mainRoute s dst).iface.isSome then some (mainRoute s dst)
    else none

/-- The variable a lookup that misses the cache makes the slot of the destination point to,
if it finds a route. -/
def filled (dst : UInt32) : Option Static :=
  if (rulesRoute s dst).isSome then some .result
  else if (mainRoute s dst).iface.isSome then some .cacheStorage
  else none

/-- The scan of the rules returns the route of the first rule that gives one. -/
theorem scanPolicies_spec (tables : UInt32 → List RouteEntry) (packet : Selector)
    (policies : List RoutePolicy) (stored : Option RouteEntry) :
    (∀ route, policies.findSome? (policyRoute tables packet) = some route →
      scanPolicies tables packet policies stored = (some route, true) ∧ route.iface.isSome) ∧
    (policies.findSome? (policyRoute tables packet) = none →
      (scanPolicies tables packet policies stored).2 = false) := by
  induction policies generalizing stored with
  | nil => exact ⟨fun route found => (nomatch found), fun _ => rfl⟩
  | cons policy rest ih =>
    rw [List.findSome?_cons, policyRoute, scanPolicies]
    by_cases applies : policy.Matches packet
    · by_cases routed : (routeLookupTable tables policy.tableId packet.dst).iface.isSome
      · simp only [applies, routed, if_true, reduceCtorEq, false_implies, and_true]
        rintro route ⟨⟩
        exact ⟨rfl, routed⟩
      · simp only [applies, routed, if_true]
        exact ih _
    · simp only [applies, if_false]
      exact ih _

/-- The variables after a lookup that misses the cache. -/
def staticsAfter (dst : UInt32) : Static → RouteEntry :=
  fun variable_ => (written s dst variable_).getD (s.statics variable_)

def afterMiss (dst : UInt32) : RouteState :=
  match filled s dst with
  | some variable_ => routeCacheInsert { s with statics := staticsAfter s dst } dst 0 variable_
  | none => { s with statics := staticsAfter s dst }

/-- The scan of the rules writes `result`, if anything. -/
theorem routeLookupPolicy_eq (dst : UInt32) :
    routeLookupPolicy s (lookupPacket dst) =
      ({ s with
          statics := update s.statics .result ((written s dst .result).getD (s.statics .result)) },
        (scanPolicies s.tables (lookupPacket dst) s.policies none).2) := by
  rw [routeLookupPolicy, written]
  cases scanPolicies s.tables (lookupPacket dst) s.policies none with
  | mk stored found =>
    cases stored with
    | none => simp
    | some route => rfl

variable {s : RouteState} {dst : UInt32} {variable_ : Static} {op : Op}

/-- **A lookup that misses the cache** returns the uncached route. -/
theorem routeLookup_of_miss (miss : routeCacheLookup s dst 0 = none) :
    routeLookup s dst = (afterMiss s dst, uncachedRoute s dst) := by
  rw [routeLookup, miss]
  rw [routeLookupPolicy_eq]
  have spec := scanPolicies_spec s.tables (lookupPacket dst) s.policies none
  cases rules : rulesRoute s dst with
  | some route =>
    obtain ⟨scanned, routed⟩ := spec.1 route rules
    have after : staticsAfter s dst = update s.statics .result route := by
      funext variable_
      cases variable_ <;> simp [staticsAfter, written, rules, scanned]
    simp [afterMiss, filled, uncachedRoute, rules, scanned, routed, written, after]
  | none =>
    have scanned := spec.2 rules
    by_cases routed : (mainRoute s dst).iface.isSome
    · have after : staticsAfter s dst = update (update s.statics .result
          ((written s dst .result).getD (s.statics .result))) .cacheStorage (mainRoute s dst) := by
        funext variable_
        cases variable_ <;> simp [staticsAfter, written, rules, routed]
      simp only [scanned, Bool.false_eq_true, false_and, if_false, afterMiss, filled, rules,
        isSome_none, routed, if_true, uncachedRoute, getD_none, after]
      rw [mainRoute] at routed
      simp only [routed, if_true, RouteState.assign, mainRoute]
    · have after : staticsAfter s dst = update s.statics .result
          ((written s dst .result).getD (s.statics .result)) := by
        funext variable_
        cases variable_ <;> simp [staticsAfter, written, rules, routed]
      simp only [scanned, Bool.false_eq_true, false_and, if_false, afterMiss, filled, rules,
        isSome_none, routed, uncachedRoute, getD_none, after]
      rw [mainRoute] at routed
      simp only [routed, if_false, mainRoute, Bool.false_eq_true]

/-! ## Coherence -/

/-- The destinations the cache holds, and the variables it points to for them. -/
def cached (s : RouteState) (i : Slot) : Option (UInt32 × Static) :=
  (s.cache i).map fun entry => (entry.dst, entry.route)

theorem cached_eq_some_iff {i : Slot} :
    cached s i = some (dst, variable_) ↔
      ∃ entry ∈ s.cache i, entry.dst = dst ∧ entry.route = variable_ := by
  rw [cached, map_eq_some_iff]
  simp only [Prod.mk.injEq, mem_def]

/-- Entries are in the slots of their destinations, and `route_lookup` makes them all for
the source address 0. -/
def WellPlaced (s : RouteState) : Prop :=
  ∀ i, ∀ entry ∈ s.cache i, entry.src = 0 ∧ routeCacheHash entry.dst 0 = i

theorem routeCacheLookup_eq_some_iff (placed : WellPlaced s) :
    routeCacheLookup s dst 0 = some variable_ ↔
      cached s (routeCacheHash dst 0) = some (dst, variable_) := by
  rw [cached_eq_some_iff, routeCacheLookup]
  cases holds : s.cache (routeCacheHash dst 0) with
  | none => simp
  | some entry =>
    have source := (placed _ entry holds).1
    simp [source]

def RouteState.Coherent (s : RouteState) : Prop :=
  Foundation.Coherent (cached s) s.statics (uncachedRoute s)

/-- The cache does not show in the state. -/
def Transparent (s : RouteState) : Prop := ∀ dst, (routeLookup s dst).2 = uncachedRoute s dst

/-- **The cache does not show exactly if it is coherent.** -/
theorem transparent_iff_coherent (placed : WellPlaced s) : Transparent s ↔ s.Coherent := by
  constructor
  · intro same i dst variable_ holds
    obtain ⟨entry, isEntry, rfl, rfl⟩ := cached_eq_some_iff.mp holds
    have here : routeCacheLookup s entry.dst 0 = some entry.route := by
      rw [routeCacheLookup_eq_some_iff placed, (placed i entry isEntry).2, holds]
    have looked := same entry.dst
    rwa [routeLookup, here] at looked
  · intro coherent dst
    cases looked : routeCacheLookup s dst 0 with
    | none => rw [routeLookup_of_miss looked]
    | some variable_ =>
      rw [routeLookup, looked]
      exact coherent _ dst variable_ ((routeCacheLookup_eq_some_iff placed).mp looked)

/-! ## One call -/

/-- A call does not disturb the cache: an edit leaves the route of every cached destination
as it was; a lookup that misses writes a variable only if what it writes is the route of
every other cached destination that points there. -/
def Undisturbed (s : RouteState) : Op → Prop
  | .lookup dst =>
    routeCacheLookup s dst 0 = none →
      ∀ i, ∀ entry ∈ s.cache i, (filled s dst).isNone ∨ i ≠ routeCacheHash dst 0 →
        ∀ new ∈ written s dst entry.route, new = uncachedRoute s entry.dst
  | .flush => True
  | op => ∀ i, ∀ entry ∈ s.cache i, uncachedRoute (step s op) entry.dst = uncachedRoute s entry.dst

instance (s : RouteState) (op : Op) : Decidable (Undisturbed s op) := by
  cases op <;> unfold Undisturbed <;> infer_instance

theorem routeInit_coherent : WellPlaced (routeInit s) ∧ (routeInit s).Coherent := by
  constructor
  · intro i entry holds
    cases holds
  · exact of_empty fun _ => rfl

/-- A call that edits the tables or the rules leaves the cache and the variables alone. -/
theorem step_cache_of_edit (notLookup : ∀ dst, op ≠ .lookup dst) (notFlush : op ≠ .flush) :
    (step s op).cache = s.cache ∧ (step s op).statics = s.statics := by
  cases op with
  | addToTable | deleteFromTable | addPolicy | delPolicy =>
    simp only [step, routeAddToTable, routeDeleteFromTable, routeAddPolicy, routeDelPolicy]
    repeat' split
    all_goals exact ⟨rfl, rfl⟩
  | purgeDynamic => exact ⟨rfl, rfl⟩
  | flush => exact absurd rfl notFlush
  | lookup dst => exact absurd rfl (notLookup dst)

/-- **An edit** keeps the cache coherent exactly if it leaves the routes of the cached
destinations alone. -/
theorem edit_coherent_iff {next : RouteState} (cache : next.cache = s.cache)
    (statics : next.statics = s.statics) (coherent : s.Coherent) :
    next.Coherent ↔
      ∀ i, ∀ entry ∈ s.cache i, uncachedRoute next entry.dst = uncachedRoute s entry.dst := by
  have sameCached : cached next = cached s := by
    funext i
    rw [cached, cached, cache]
  rw [RouteState.Coherent, sameCached, statics, respecify_iff coherent]
  constructor
  · intro same i entry holds
    exact same i entry.dst entry.route (cached_eq_some_iff.mpr ⟨entry, holds, rfl, rfl⟩)
  · intro same i dst variable_ holds
    obtain ⟨entry, isEntry, rfl, -⟩ := cached_eq_some_iff.mp holds
    exact same i entry isEntry

/-- The variable the slot of the destination is made to point to holds its route. -/
theorem staticsAfter_filled (points : filled s dst = some variable_) :
    staticsAfter s dst variable_ = uncachedRoute s dst := by
  rw [filled] at points
  cases rules : rulesRoute s dst with
  | some route =>
    obtain ⟨scanned, -⟩ := (scanPolicies_spec _ _ _ none).1 route rules
    rw [rules, isSome_some, if_pos rfl, some.injEq] at points
    subst points
    rw [staticsAfter, written, scanned, uncachedRoute, rules]
    rfl
  | none =>
    by_cases routed : (mainRoute s dst).iface.isSome
    · simp only [rules, isSome_none, Bool.false_eq_true, if_false, routed, if_true,
        some.injEq] at points
      subst points
      simp [staticsAfter, written, uncachedRoute, rules, routed]
    · simp only [rules, isSome_none, Bool.false_eq_true, if_false, routed, reduceCtorEq] at points

/-- What the condition on a lookup says of the cached destinations. -/
theorem written_iff {kept : Slot → Prop} :
    (∀ i, ∀ entry ∈ s.cache i, kept i →
        ∀ new ∈ written s dst entry.route, new = uncachedRoute s entry.dst) ↔
      ∀ i key variable_, kept i ∧ cached s i = some (key, variable_) →
        ∀ new, written s dst variable_ = some new → new = uncachedRoute s key := by
  constructor
  · rintro right i key variable_ ⟨isKept, holds⟩ new isWritten
    obtain ⟨entry, isEntry, rfl, rfl⟩ := cached_eq_some_iff.mp holds
    exact right i entry isEntry isKept new isWritten
  · intro right i entry isEntry isKept new isWritten
    exact right i entry.dst entry.route
      ⟨isKept, cached_eq_some_iff.mpr ⟨entry, isEntry, rfl, rfl⟩⟩ new isWritten

/-- **A lookup that misses** keeps the cache coherent exactly if it is undisturbed by what
the lookup writes. -/
theorem afterMiss_coherent_iff (coherent : s.Coherent) :
    (afterMiss s dst).Coherent ↔
      ∀ i, ∀ entry ∈ s.cache i, (filled s dst).isNone ∨ i ≠ routeCacheHash dst 0 →
        ∀ new ∈ written s dst entry.route, new = uncachedRoute s entry.dst := by
  rw [written_iff, afterMiss]
  cases points : filled s dst with
  | none =>
    simp only [isNone_none, true_or, true_and]
    exact overwrite_iff coherent fun _ => rfl
  | some variable_ =>
    simp only [isNone_some, Bool.false_eq_true, false_or]
    have after : cached (routeCacheInsert { s with statics := staticsAfter s dst } dst 0 variable_) =
        update (cached s) (routeCacheHash dst 0) (some (dst, variable_)) := by
      funext i
      by_cases here : i = routeCacheHash dst 0
      · subst here
        simp [cached, routeCacheInsert]
      · simp [cached, routeCacheInsert, here]
    rw [RouteState.Coherent, after]
    refine coherent_fill_iff.trans ((and_iff_right (staticsAfter_filled points)).trans ?_)
    refine (overwrite_iff coherent.clear fun _ => rfl).trans ?_
    simp only [clear_eq_some_iff]

theorem step_wellPlaced (placed : WellPlaced s) : WellPlaced (step s op) := by
  cases op with
  | lookup dst =>
    cases looked : routeCacheLookup s dst 0 with
    | some variable_ =>
      rw [step, routeLookup, looked]
      exact placed
    | none =>
      rw [step, routeLookup_of_miss looked, afterMiss]
      cases filled s dst with
      | none => exact placed
      | some variable_ =>
        intro i entry holds
        by_cases here : i = routeCacheHash dst 0
        · subst here
          simp only [routeCacheInsert, update_self, mem_def, some.injEq] at holds
          subst holds
          exact ⟨rfl, rfl⟩
        · simp only [routeCacheInsert, update_of_ne here] at holds
          exact placed i entry holds
  | flush =>
    intro i entry holds
    cases holds
  | _ =>
    intro i entry holds
    rw [(step_cache_of_edit (by simp) (by simp)).1] at holds
    exact placed i entry holds

/-- **One call** keeps the cache coherent exactly if it does not disturb it. -/
theorem step_coherent_iff (coherent : s.Coherent) : (step s op).Coherent ↔ Undisturbed s op := by
  cases op with
  | lookup dst =>
    cases looked : routeCacheLookup s dst 0 with
    | some variable_ =>
      rw [step, routeLookup, Undisturbed, looked]
      simpa using coherent
    | none =>
      rw [step, routeLookup_of_miss looked, Undisturbed, afterMiss_coherent_iff coherent]
      simp [looked]
  | flush => exact iff_of_true (of_empty fun _ => rfl) trivial
  | _ =>
    refine edit_coherent_iff ?_ ?_ coherent
    · exact (step_cache_of_edit (by simp) (by simp)).1
    · exact (step_cache_of_edit (by simp) (by simp)).2

/-! ## Whole runs -/

/-- **The route cache is transparent exactly in the runs whose calls leave it
undisturbed.** -/
theorem cache_transparent_iff (s : RouteState) (ops : List Op) :
    (∀ before, before <+: ops → ∀ dst,
        (routeLookup (before.foldl step (routeInit s)) dst).2 =
          uncachedRoute (before.foldl step (routeInit s)) dst) ↔
      Meets step Undisturbed (routeInit s) ops := by
  have exact_ : ∀ s op, WellPlaced s ∧ s.Coherent →
      (WellPlaced (step s op) ∧ (step s op).Coherent ↔ Undisturbed s op) := by
    rintro s op ⟨placed, coherent⟩
    rw [and_iff_right (step_wellPlaced placed), step_coherent_iff coherent]
  rw [meets_iff_invariant exact_ routeInit_coherent]
  have placed (before : List Op) : WellPlaced (before.foldl step (routeInit s)) :=
    foldl_invariant (P := WellPlaced) (fun _ op placed => step_wellPlaced placed)
      routeInit_coherent.1 before
  constructor
  · intro same before isPrefix
    exact ⟨placed before, (transparent_iff_coherent (placed before)).mp (same before isPrefix)⟩
  · intro coherent before isPrefix
    exact (transparent_iff_coherent (placed before)).mpr (coherent before isPrefix).2

/-- Two networks, each behind its own gateway. -/
def twoNetworks : List Op :=
  [.addToTable routeTableMain ⟨0x0A000000, 0xFF000000, 0x0A000001, some 0, 1, 4⟩,
    .addToTable routeTableMain ⟨0xC0A80000, 0xFFFF0000, 0xC0A80001, some 1, 1, 4⟩]

def bootState : RouteState := ⟨fun _ => [], [], fun _ => none, fun _ => zeroRoute⟩

/-- The destination that is cached may be looked up again, and a route added for others. -/
theorem one_destination_is_transparent :
    let ops := twoNetworks ++ [Op.lookup 0x0A000005, Op.lookup 0x0A000005,
      Op.addToTable routeTableMain ⟨0, 0, 0x0A0000FE, some 0, 9, 4⟩]
    ∀ before, before <+: ops → ∀ dst,
      (routeLookup (before.foldl step (routeInit bootState)) dst).2 =
        uncachedRoute (before.foldl step (routeInit bootState)) dst :=
  (cache_transparent_iff bootState _).mpr (by decide +kernel)

/-- After lookups of two destinations, the first one gets the route of the second. -/
theorem cached_route_is_overwritten :
    let s := (twoNetworks ++ [Op.lookup 0x0A000005, Op.lookup 0xC0A80005]).foldl step
      (routeInit bootState)
    (routeLookup s 0x0A000005).2.gateway = 0xC0A80001 ∧
      (uncachedRoute s 0x0A000005).gateway = 0x0A000001 := by
  decide +kernel

end FunsOS.Route
