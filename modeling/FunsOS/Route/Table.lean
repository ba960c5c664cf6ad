import Mathlib.Data.List.Basic

/-!
# Routing tables, policy rules and the route cache

A model of `net/route.c`: the routing tables, the list of policy rules, the cache of
lookups, and the calls that edit and consult them.

A slot of the cache does not hold a route but points to one. It is one of the two static
variables of the module, `result` in `route_lookup_policy` and `cache_storage` in
`route_lookup`: they are `Static.result` and `Static.cacheStorage` here. The mutex, the
counters behind `route_get_stats` and the time stamps of the cache, which nothing reads,
do not occur. An interface is a number, and the null pointer is `none`.
-/

set_option autoImplicit false

namespace FunsOS.Route

open Function (update)

def routeTableMax : Nat := 64
def routeFlagStatic : UInt32 := 0x01
def routeFlagUp : UInt32 := 0x04
def routeTableMaxId : UInt32 := 8
def routeTableMain : UInt32 := 0
def routePolicyMax : Nat := 32
def routeCacheSize : Nat := 256

/-- `net_interface_t *`. -/
abbrev Interface := Option Nat

structure RouteEntry where
  dest : UInt32
  mask : UInt32
  gateway : UInt32
  iface : Interface
  metric : UInt32
  flags : UInt32
  deriving DecidableEq

/-- An entry after `memset`. -/
def zeroRoute : RouteEntry := ⟨0, 0, 0, none, 0, 0⟩

structure RoutePolicy where
  priority : UInt32
  matchType : UInt32
  matchValue : UInt32
  matchMask : UInt32
  tableId : UInt32
  deriving DecidableEq

/-- The static variables that slots of the cache point to. -/
inductive Static where
  | result
  | cacheStorage
  deriving DecidableEq

/-- A valid slot of the cache. -/
structure RouteCacheEntry where
  dst : UInt32
  src : UInt32
  route : Static
  deriving DecidableEq

abbrev Slot := Fin routeCacheSize

/-- The module's static variables. A table is the list of its entries, and a slot of the
cache that is not valid is `none`. -/
structure RouteState where
  tables : UInt32 → List RouteEntry
  policies : List RoutePolicy
  cache : Slot → Option RouteCacheEntry
  statics : Static → RouteEntry

variable (s : RouteState)

/-- `route_init`. The two variables local to functions are not reset. -/
def routeInit : RouteState :=
  { s with tables := fun _ => [], policies := [], cache := fun _ => none }

/-! ## The cache -/

def routeCacheHash (dst src : UInt32) : Slot :=
  ⟨(dst ^^^ src ^^^ (dst >>> 16) ^^^ (src >>> 16)).toNat % routeCacheSize, Nat.mod_lt _ (by decide)⟩

/-- `route_cache_lookup`: the variable to read. -/
def routeCacheLookup (dst src : UInt32) : Option Static :=
  match s.cache (routeCacheHash dst src) with
  | some entry => if entry.dst = dst ∧ entry.src = src then some entry.route else none
  | none => none

def routeCacheInsert (dst src : UInt32) (route : Static) : RouteState :=
  { s with cache := update s.cache (routeCacheHash dst src) (some ⟨dst, src, route⟩) }

def routeCacheFlush : RouteState := { s with cache := fun _ => none }

/-! ## Tables -/

/-- The entry for this destination and mask gets new contents; the first such entry. -/
def replaceEntry (new : RouteEntry) : List RouteEntry → Option (List RouteEntry)
  | [] => none
  | entry :: rest =>
    if entry.dest = new.dest ∧ entry.mask = new.mask then some (new :: rest)
    else (replaceEntry new rest).map (entry :: ·)

def routeAddToTable (tableId : UInt32) (new : RouteEntry) : RouteState × Int :=
  if routeTableMaxId ≤ tableId then (s, -1)
  else
    match replaceEntry new (s.tables tableId) with
    | some table => ({ s with tables := update s.tables tableId table }, 0)
    | none =>
      if routeTableMax ≤ (s.tables tableId).length then (s, -1)
      else
        ({ s with tables := update s.tables tableId (s.tables tableId ++ [new]) }, 0)

def routeDeleteFromTable (tableId dest mask : UInt32) : RouteState × Int :=
  if routeTableMaxId ≤ tableId then (s, -1)
  else
    match (s.tables tableId).findIdx? fun entry => entry.dest = dest ∧ entry.mask = mask with
    | some i =>
      ({ s with tables := update s.tables tableId ((s.tables tableId).eraseIdx i) }, 0)
    | none => (s, -1)

def routeAdd (new : RouteEntry) : RouteState × Int :=
  routeAddToTable s routeTableMain new

def routeDelete (dest mask : UInt32) : RouteState × Int :=
  routeDeleteFromTable s routeTableMain dest mask

def routePurgeDynamic : RouteState :=
  { s with
    tables := update s.tables routeTableMain
      ((s.tables routeTableMain).filter fun entry => entry.flags &&& routeFlagStatic ≠ 0) }

/-- `while (m & 0x80000000U) { pref++; m <<= 1; }`; the mask is zero after 32 rounds. -/
def leadingOnes : Nat → UInt32 → Nat
  | 0, _ => 0
  | rounds + 1, m => if m &&& 0x80000000 ≠ 0 then leadingOnes rounds (m <<< 1) + 1 else 0

/-- The entry is up and its prefix is one of the destination. -/
def RouteEntry.Covers (entry : RouteEntry) (dst : UInt32) : Prop :=
  entry.flags &&& routeFlagUp ≠ 0 ∧ dst &&& entry.mask = entry.dest &&& entry.mask
deriving Decidable

/-- One round of the loop of `route_lookup_table`: the best entry so far, if there is one,
and the length of its prefix. -/
def betterRoute (dst : UInt32) (best : Option (RouteEntry × Nat)) (entry : RouteEntry) :
    Option (RouteEntry × Nat) :=
  if entry.Covers dst then
    let pref := leadingOnes 32 entry.mask
    match best with
    | none => some (entry, pref)
    | some (route, bestPref) =>
      if bestPref < pref ∨ (pref = bestPref ∧ entry.metric < route.metric) then
        some (entry, pref)
      else best
  else best

def routeLookupTable (tables : UInt32 → List RouteEntry) (tableId dst : UInt32) : RouteEntry :=
  if routeTableMaxId ≤ tableId then zeroRoute
  else
    match (tables tableId).foldl (betterRoute dst) none with
    | some (route, _) => route
    | none => zeroRoute

/-! ## Policy rules -/

/-- The rule with this priority gets new contents. -/
def replacePolicy (new : RoutePolicy) : List RoutePolicy → Option (List RoutePolicy)
  | [] => none
  | policy :: rest =>
    if policy.priority = new.priority then some (new :: rest)
    else (replacePolicy new rest).map (policy :: ·)

/-- The new rule goes before the first one whose priority is not smaller. -/
def insertPolicy (new : RoutePolicy) : List RoutePolicy → List RoutePolicy
  | [] => [new]
  | policy :: rest =>
    if policy.priority < new.priority then policy :: insertPolicy new rest
    else new :: policy :: rest

/-- `route_add_policy`; `memory` says whether `kmalloc` finds a block. -/
def routeAddPolicy (new : RoutePolicy) (memory : Bool) : RouteState × Int :=
  if routePolicyMax ≤ s.policies.length ∨ routeTableMaxId ≤ new.tableId then (s, -1)
  else
    match replacePolicy new s.policies with
    | some policies => ({ s with policies }, 0)
    | none =>
      if memory then ({ s with policies := insertPolicy new s.policies }, 0) else (s, -1)

def routeDelPolicy (priority : UInt32) : RouteState × Int :=
  match s.policies.findIdx? fun policy => policy.priority = priority with
  | some i => ({ s with policies := s.policies.eraseIdx i }, 0)
  | none => (s, -1)

/-- What a packet shows to the rules. -/
structure Selector where
  src : UInt32
  dst : UInt32
  tos : UInt32
  fwmark : UInt32

/-- The `switch` of `route_lookup_policy`, and the test of the table number after it. -/
def RoutePolicy.Matches (policy : RoutePolicy) (packet : Selector) : Prop :=
  policy.tableId < routeTableMaxId ∧
    if policy.matchType = 1 then
      packet.src &&& policy.matchMask = policy.matchValue &&& policy.matchMask
    else if policy.matchType = 2 then
      packet.dst &&& policy.matchMask = policy.matchValue &&& policy.matchMask
    else if policy.matchType = 3 then
      packet.tos &&& policy.matchMask = policy.matchValue &&& policy.matchMask
    else if policy.matchType = 4 then
      packet.fwmark &&& policy.matchMask = policy.matchValue &&& policy.matchMask
    else policy.matchType = 5 ∧ packet.src = policy.matchValue

instance (policy : RoutePolicy) (packet : Selector) : Decidable (policy.Matches packet) :=
  inferInstanceAs (Decidable (_ ∧ ite _ _ _))

/-- The loop of `route_lookup_policy`: the last route it stores in `result`, if it stores
one, and whether it returns it. -/
def scanPolicies (tables : UInt32 → List RouteEntry) (packet : Selector) :
    List RoutePolicy → Option RouteEntry → Option RouteEntry × Bool
  | [], stored => (stored, false)
  | policy :: rest, stored =>
    if policy.Matches packet then
      let route := routeLookupTable tables policy.tableId packet.dst
      if route.iface.isSome then (some route, true)
      else scanPolicies tables packet rest (some route)
    else scanPolicies tables packet rest stored

def RouteState.assign (variable_ : Static) (route : RouteEntry) : RouteState :=
  { s with statics := update s.statics variable_ route }

/-- `route_lookup_policy`: the flag says whether it returns the address of `result`. -/
def routeLookupPolicy (packet : Selector) : RouteState × Bool :=
  match scanPolicies s.tables packet s.policies none with
  | (some route, found) => (s.assign .result route, found)
  | (none, found) => (s, found)

/-! ## Lookups -/

/-- The packet `route_lookup` shows to the rules. -/
def lookupPacket (dst : UInt32) : Selector := ⟨0, dst, 0, 0⟩

def routeLookup (dst : UInt32) : RouteState × RouteEntry :=
  match routeCacheLookup s dst 0 with
  | some route => (s, s.statics route)
  | none =>
    let (s, found) := routeLookupPolicy s (lookupPacket dst)
    if found ∧ (s.statics .result).iface.isSome then
      (routeCacheInsert s dst 0 .result, s.statics .result)
    else
      let best := routeLookupTable s.tables routeTableMain dst
      if best.iface.isSome then
        (routeCacheInsert (s.assign .cacheStorage best) dst 0 .cacheStorage, best)
      else (s, best)

/-! ## Runs -/

/-- A call. Routes may be added to any table, and the cache may be flushed. -/
inductive Op where
  | addToTable (tableId : UInt32) (new : RouteEntry)
  | deleteFromTable (tableId dest mask : UInt32)
  | addPolicy (new : RoutePolicy) (memory : Bool)
  | delPolicy (priority : UInt32)
  | purgeDynamic
  | flush
  | lookup (dst : UInt32)

def step : Op → RouteState
  | .addToTable tableId new => (routeAddToTable s tableId new).1
  | .deleteFromTable tableId dest mask => (routeDeleteFromTable s tableId dest mask).1
  | .addPolicy new memory => (routeAddPolicy s new memory).1
  | .delPolicy priority => (routeDelPolicy s priority).1
  | .purgeDynamic => routePurgeDynamic s
  | .flush => routeCacheFlush s
  | .lookup dst => (routeLookup s dst).1

end FunsOS.Route
