import FosCoverage.Lib.SizedCache
import FosCoverage.Lib.Trace

/-!
# The cache of source indexes

The engine keeps the dependency indexes of the commits it compares in one ordered dictionary, with a
byte budget for all of them together.  An index grows while it is used and reports every change of
its size through a callback, so that a lookup in one index may push another one out.

* The two indexes of a comparison are a *pair*.  The keys of active pairs are pinned: eviction skips
  them, and a pair that does not fit is given up as a whole (`markIndexPairBudgetExhausted`).
* Giving up a pair sets a flag on both index objects, since a comparison may still hold them; a
  comparison with a flagged index refuses.
* A pair is active for the repository scopes that asked for it, and released with the last of them.

Index objects are numbered in the order of their creation (`objects`), so that an object that left
the cache is still there for whoever holds it, and still reports its growth.  A Python set is a list
here, in the order of insertion; the metrics are left out.
-/

set_option autoImplicit false

namespace FosCoverage

namespace SourceIndexCache

open Relational

/-! ## State -/

/-- `_source_index_key` -/
structure IndexKey where
  /-- `repo_path` -/
  repoPath : String
  /-- The commit. -/
  commit : String
  /-- `parser_version` -/
  parserVersion : String
  deriving DecidableEq, Repr

/-- The keys of the old and the new index of a comparison. -/
abbrev IndexPair := IndexKey × IndexKey

/-- The keys of a pair. -/
def pairKeys (pair : IndexPair) : List IndexKey := [pair.1, pair.2]

/-- An index object. -/
structure SourceIndex where
  /-- The key its callback reports. -/
  key : IndexKey
  /-- `total_index_bytes` -/
  totalIndexBytes : Nat
  /-- `dependency_index_memory_budget_exhausted` -/
  budgetExhausted : Bool := false
  deriving DecidableEq, Repr

/-- What the engine keeps of the indexes. -/
structure State where
  /-- `_source_index_cache`, the number of an object for each key -/
  indexes : Keyed IndexKey Nat := Keyed.empty
  /-- `_source_index_cache_sizes` -/
  sizes : Keyed IndexKey Nat := Keyed.empty
  /-- `_source_index_cache_bytes` -/
  bytes : Int := 0
  /-- `_source_index_cache_evictions` -/
  evictions : Nat := 0
  /-- `_active_index_pairs` -/
  activePairs : List IndexPair := []
  /-- `_active_pairs_by_scope` -/
  pairsByScope : Keyed String (List IndexPair) := Keyed.empty
  /-- `_active_source_index_keys` -/
  activeKeys : List IndexKey := []
  /-- `_failed_index_pairs` -/
  failedPairs : List IndexPair := []
  /-- All index objects ever made. -/
  objects : List SourceIndex := []

/-- The object has the flag that makes every comparison with it refuse. -/
def State.Flagged (s : State) (o : Nat) : Prop :=
  ∃ index, s.objects[o]? = some index ∧ index.budgetExhausted = true

/-! ## Operations -/

namespace State

/-- Set the flag of an object. -/
def flag (s : State) (o : Nat) : State :=
  { s with objects := s.objects.modify o fun index => { index with budgetExhausted := true } }

/-- Set the flag of what is cached under a key. -/
def flagKey (s : State) (key : IndexKey) : State :=
  match s.indexes.get? key with
  | some o => s.flag o
  | none => s

/-- `pop(key)` of both maps, with the bytes. -/
def pop (s : State) (key : IndexKey) : State :=
  { s with
    indexes := s.indexes.erase key
    sizes := s.sizes.erase key
    bytes := s.bytes - ((s.sizes.get? key).getD 0 : Nat) }

/-- Pop a key unless it is active. -/
def popInactive (s : State) (key : IndexKey) : State :=
  if key ∈ s.activeKeys then s else s.pop key

/-- Pop those of the keys that are not active. -/
def popAll (s : State) (keys : List IndexKey) : State :=
  let s := keys.foldl popInactive s
  { s with bytes := max 0 s.bytes }

/-- The active keys are recomputed from the active pairs. -/
def refreshKeys (s : State) : State :=
  { s with activeKeys := s.activePairs.flatMap pairKeys }

/-- The pair leaves its scopes; an empty scope goes with it. -/
def discardFromScopes (s : State) (pair : IndexPair) : State :=
  { s with pairsByScope :=
      (s.pairsByScope.updateWhere (fun _ _ => true) fun pairs =>
        pairs.filter fun p => p ≠ pair).deleteWhere fun _ pairs => pairs.isEmpty }

/-- `_mark_index_pair_budget_exhausted` -/
def markIndexPairBudgetExhausted (s : State) (pair : IndexPair) (drop : Bool) : State :=
  let s := { s with failedPairs := s.failedPairs.insert pair }
  let s := (pairKeys pair).foldl flagKey s
  if drop then
    let s := { s with activePairs := s.activePairs.filter fun p => p ≠ pair }
    ((s.discardFromScopes pair).refreshKeys).popAll (pairKeys pair)
  else s

/-- `_mark_active_pairs_over_budget` -/
def markActivePairsOverBudget (limit : Nat) (s : State) (key : IndexKey) : State :=
  if s.bytes ≤ limit then s
  else (s.activePairs.filter fun pair => key ∈ pairKeys pair).foldl
    (fun s pair => s.markIndexPairBudgetExhausted pair true) s

/-- The new size of an index is recorded, and the index is the most recently used one. -/
def record (s : State) (key : IndexKey) (current : Nat) : State :=
  { s with
    indexes := s.indexes.moveToEnd key
    sizes := s.sizes.put key current
    bytes := s.bytes + current - ((s.sizes.get? key).getD 0 : Nat) }

/-- One turn of the eviction loop: the oldest index that is neither active nor the one that
grew. -/
def evict (key : IndexKey) (s : State) : Option State :=
  (s.indexes.rows.find? fun r => r.1 ≠ key ∧ r.1 ∉ s.activeKeys).map fun r =>
    { s.pop r.1 with evictions := s.evictions + 1 }

/-- `_source_index_changed` -/
def sourceIndexChanged (limit : Nat) (s : State) (key : IndexKey) (o : Nat) : State :=
  if (s.indexes.get? key).isNone then s
  else
    let s := s.record key ((s.objects[o]?.map SourceIndex.totalIndexBytes).getD 0)
    let s := evictWhile (fun s => (limit : Int) < s.bytes) (evict key) s.indexes.rows.length s
    s.markActivePairsOverBudget limit key

/-- A new index object under a key. -/
def insert (s : State) (key : IndexKey) (size : Nat) : State :=
  { s with
    objects := s.objects ++ [{ key := key, totalIndexBytes := size }]
    indexes := s.indexes.put key s.objects.length
    sizes := s.sizes.put key size
    bytes := s.bytes + size }

/-- `_source_index`.  `load` is the size of a new index, or `none` when its files cannot be listed;
no number is returned when the method raises. -/
def sourceIndex (limit : Nat) (s : State) (key : IndexKey) (load : Option Nat) :
    Option Nat × State :=
  match s.indexes.get? key, load with
  | some o, _ =>
    let s := { s with indexes := s.indexes.moveToEnd key }.sourceIndexChanged limit key o
    (s.indexes.get? key, s)
  | none, none => (none, s)
  | none, some size =>
    (some s.objects.length, (s.insert key size).sourceIndexChanged limit key s.objects.length)

/-- A pair becomes active, in a scope if there is one. -/
def activate (s : State) (pair : IndexPair) (scope : Option String) : State :=
  { s with
    activePairs := s.activePairs.insert pair
    activeKeys := (s.activeKeys.insert pair.1).insert pair.2
    pairsByScope := match scope with
      | none => s.pairsByScope
      | some scope =>
        s.pairsByScope.put scope (((s.pairsByScope.get? scope).getD []).insert pair) }

/-- The recorded size of a pair. -/
def pairBytes (s : State) (pair : IndexPair) : Nat :=
  ((pairKeys pair).dedup.map fun key => (s.sizes.get? key).getD 0).sum

/-- `_source_index_pair`.  The answer is the two objects; there is none when the pair does not fit
or the method raises. -/
def sourceIndexPair (limit : Nat) (s : State) (pair : IndexPair) (scope : Option String)
    (load : IndexKey → Option Nat) : Option (Nat × Nat) × State :=
  if pair ∈ s.failedPairs then (none, s.markIndexPairBudgetExhausted pair true)
  else
    match (s.activate pair scope).sourceIndex limit pair.1 (load pair.1) with
    | (none, s) => (none, s)
    | (some old, s) =>
      match s.sourceIndex limit pair.2 (load pair.2) with
      | (none, s) => (none, s)
      | (some new, s) =>
        if pair ∈ s.failedPairs ∨ limit < s.pairBytes pair ∨ (limit : Int) < s.bytes then
          (none, s.markIndexPairBudgetExhausted pair true)
        else (some (old, new), s)

/-- `_release_index_pairs_for_scope` -/
def releaseIndexPairsForScope (s : State) (scope : String) : State :=
  let pairs := (s.pairsByScope.get? scope).getD []
  let s := { s with pairsByScope := s.pairsByScope.erase scope }
  if pairs = [] then s
  else
    let remaining := s.pairsByScope.rows.flatMap Prod.snd
    let releasable := pairs.filter fun pair => pair ∉ remaining
    let s := { s with activePairs := s.activePairs.filter fun pair => pair ∉ releasable }
    s.refreshKeys.popAll (releasable.flatMap pairKeys)

/-- An index object has another size now and reports it. -/
def grow (limit : Nat) (s : State) (o : Nat) (size : Nat) : State :=
  match s.objects[o]? with
  | none => s
  | some index =>
    { s with objects := s.objects.modify o fun index => { index with totalIndexBytes := size } }
      |>.sourceIndexChanged limit index.key o

end State

/-! ## Runs -/

/-- What happens to the cache. -/
inductive Op
  /-- `_source_index_pair` -/
  | pair (pair : IndexPair) (scope : Option String) (load : IndexKey → Option Nat)
  /-- The callback of an index object, cached or not. -/
  | grow (object : Nat) (size : Nat)
  /-- `_release_index_pairs_for_scope` -/
  | release (scope : String)
  /-- `_mark_index_pair_budget_exhausted` -/
  | mark (pair : IndexPair) (drop : Bool)

/-- One operation. -/
def step (limit : Nat) (s : State) : Op → State
  | .pair pair scope load => (s.sourceIndexPair limit pair scope load).2
  | .grow o size => s.grow limit o size
  | .release scope => s.releaseIndexPairsForScope scope
  | .mark pair drop => s.markIndexPairBudgetExhausted pair drop

end SourceIndexCache

end FosCoverage
