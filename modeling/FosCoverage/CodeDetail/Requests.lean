import Mathlib.Algebra.Ring.Int.Defs
import FosCoverage.Analysis.History
import FosCoverage.CodeDetail.Service

/-!
# Code detail requests in threads

`layout` and `lines_batch` as programs of threads that share the service and the database.  A thread
runs one section after the other: a section under the cache lock is one step, and so is a query.
Between two steps of a thread any number of steps of others may happen.

* `World.commits` is the history of the database, one action for each transaction; a query sees the
  database after some prefix of it (`Db.upTo`).  A thread never sees an older state than before
  (`Thread.since`); it may see an older one than the latest, as in a snapshot.
* What the outside decides is in the event of a step: the state a query sees, the report that passed
  the checks, what a sidecar store found in its files, and whether a call raises.
* A thread that finds the event of another one in `_identity_inflight` or `_overlay_inflight` goes
  on when that event is set, and then starts over.
-/

set_option autoImplicit false

namespace FosCoverage

namespace CodeDetail

open Relational

/-! ## Requests -/

/-- An entry of `ranges`. -/
structure RangeItem where
  /-- `start_line` -/
  startLine : Option Int
  /-- `end_line` -/
  endLine : Option Int
  deriving DecidableEq, Repr

/-- `item.get("start_line") or 1` and `item.get("end_line") or start_line`. -/
def RangeItem.range (item : RangeItem) : LineRange :=
  let startLine := (item.startLine.filter (· ≠ 0)).getD 1
  (startLine, (item.endLine.filter (· ≠ 0)).getD startLine)

/-- `MAX_BATCH_RANGES` -/
def maxBatchRanges : Nat := 1000

/-- `MAX_SINGLE_LINE_SPAN` -/
def maxSingleLineSpan : Int := 10000

/-- `MAX_BATCH_LOGICAL_LINES` -/
def maxBatchLogicalLines : Int := 20000

/-- A range `_normalize_batch_ranges` accepts. -/
def validRange (totalLines : Nat) (r : LineRange) : Bool :=
  1 ≤ r.1 ∧ r.1 ≤ r.2 ∧ r.2 - r.1 + 1 ≤ maxSingleLineSpan ∧
    (totalLines = 0 ∨ r.2 ≤ (totalLines : Int))

/-- `_normalize_batch_ranges` -/
def normalizeBatchRanges (totalLines : Nat) (ranges : List RangeItem) : Option (List LineRange) :=
  let normalized := ranges.map RangeItem.range
  if normalized.all (validRange totalLines) ∧
      (normalized.map fun r => r.2 - r.1 + 1).sum ≤ maxBatchLogicalLines then some normalized
  else none

/-- A request whose arguments have been validated. -/
structure Request where
  /-- The file. -/
  base : BaseKey
  /-- The ranges of `lines_batch`; `layout` has none. -/
  ranges : Option (List RangeItem)
  deriving DecidableEq, Repr

/-- The line is one of the requested ones. -/
def Request.covers (r : Request) (n : Nat) : Bool :=
  match r.ranges with
  | none => true
  | some items => items.any fun item => item.range.has (n : Int)

/-! ## Threads -/

/-- Where a thread stands. -/
inductive Pc
  /-- No request. -/
  | idle
  /-- At the top of the loop of `_identity`. -/
  | lookup
  /-- A cached identity was found; the version query is next. -/
  | query (fullKey : IdentityKey) (cached : Identity)
  /-- The version is the cached one. -/
  | recheck (fullKey : IdentityKey)
  /-- The cached identity was not returned. -/
  | drop (fullKey : IdentityKey)
  /-- Before the single-flight section. -/
  | enter
  /-- `event.wait()` in `_identity`. -/
  | waitIdentity (event : Nat)
  /-- The thread loads the identity. -/
  | load
  /-- Before the first section of `_sidecar_store`. -/
  | findStore (report : ReportRoot) (row : FileVersion)
  /-- Before the second one. -/
  | insertStore (report : ReportRoot) (row : FileVersion)
  /-- The identity is complete. -/
  | publish (identity : Identity)
  /-- `load_metadata`, without a lock. -/
  | metadata (identity : Identity)
  /-- At the top of the loop of `_overlay`. -/
  | enterOverlay (identity : Identity) (ranges : List LineRange)
  /-- `event.wait()` in `_overlay`. -/
  | waitOverlay (identity : Identity) (ranges : List LineRange) (event : Nat)
  /-- The thread loads the overlay. -/
  | readDomain (identity : Identity) (ranges : List LineRange)
  /-- The domain had no row; the legacy rows are next. -/
  | readLegacy (identity : Identity) (ranges : List LineRange)
  /-- The overlay was read. -/
  | publishOverlay (identity : Identity) (ranges : List LineRange) (overlay : Overlay)
  /-- `load_lines_ranges`, without a lock. -/
  | render (identity : Identity) (ranges : List LineRange) (overlay : Overlay)
  /-- The request was answered with the overlay. -/
  | done (identity : Identity) (ranges : List LineRange) (overlay : Overlay)
  /-- The request raised. -/
  | raised

/-- A thread. -/
structure Thread where
  /-- Its request. -/
  request : Request
  /-- How many commits its latest query has seen, or there were when it started. -/
  since : Nat
  /-- Where it stands. -/
  pc : Pc

/-- What the outside decides about a step. -/
inductive Event
  /-- The next section runs. -/
  | next
  /-- A query sees the database after so many commits. -/
  | read (seen : Nat)
  /-- The report passes the checks, and the file query sees the database after so many commits. -/
  | loaded (report : ReportRoot) (seen : Nat)
  /-- A section of the sidecar store of the identity. -/
  | sidecar (s : SidecarStore.Section)
  /-- The metadata is there, with the number of lines of the file. -/
  | prepared (totalLines : Nat)
  /-- The lines are there. -/
  | rendered
  /-- A call raises. -/
  | fail

/-- `cache_key` of `_overlay`. -/
def overlayKey (base : BaseKey) (identity : Identity) (ranges : List LineRange) : OverlayKey :=
  ⟨base.reportId, base.scanId, identity.fileRow.id, identity.fileRow.dataVersion,
    identity.report.assetIdentity, overlayRanges ranges⟩

namespace Thread

variable (env : Env) (cfg : Config) (dbAt : Nat → Db) (now : Nat)

/-- The thread goes on elsewhere. -/
def goto (t : Thread) (pc : Pc) : Thread := { t with pc := pc }

/-- The thread goes on after a query. -/
def saw (t : Thread) (seen : Nat) (pc : Pc) : Thread := { t with since := seen, pc := pc }

/-- A query may see the state. -/
def sees (t : Thread) (seen : Nat) : Bool := t.since ≤ seen ∧ seen ≤ now

/-- A call raises; a thread that loads sets its event. -/
def fail (s : Service) (t : Thread) : Service × Thread :=
  match t.pc with
  | .load | .findStore _ _ | .insertStore _ _ | .publish _ =>
    (s.failIdentity t.request.base, t.goto .raised)
  | .readDomain identity ranges | .readLegacy identity ranges
  | .publishOverlay identity ranges _ =>
    (s.failOverlay (overlayKey t.request.base identity ranges), t.goto .raised)
  | _ => (s, t.goto .raised)

/-- A step in `_identity`. -/
def stepIdentity (s : Service) (t : Thread) (e : Event) : Service × Thread :=
  let base := t.request.base
  match t.pc, e with
  | .lookup, .next =>
    match s.lookupIdentity base with
    | (s, some (fullKey, cached)) => (s, t.goto (.query fullKey cached))
    | (s, none) => (s, t.goto .enter)
  | .query fullKey cached, .read seen =>
    if t.sees now seen then
      let current := ((dbAt seen).stateOf cached.fileRow.projectId).dataVersion
      (s, t.saw seen (if current = cached.fileRow.dataVersion then .recheck fullKey
        else .drop fullKey))
    else (s, t)
  | .recheck fullKey, .next =>
    match s.recheckIdentity base fullKey with
    | (s, some identity) => (s, t.goto (.metadata identity))
    | (s, none) => (s, t.goto (.drop fullKey))
  | .drop fullKey, .next => (s.dropIdentity base fullKey, t.goto .enter)
  | .enter, .next =>
    match s.enterIdentity base with
    | (s, some event) => (s, t.goto (.waitIdentity event))
    | (s, none) => (s, t.goto .load)
  | .waitIdentity event, .next =>
    if s.identityInflight.get? base = some event then (s, t) else (s, t.goto .lookup)
  | .load, .loaded report seen =>
    if t.sees now seen then
      match findFile env (dbAt seen) base with
      | none => t.fail s
      | some row => (s, t.saw seen (.findStore report row))
    else (s, t)
  | .findStore report row, .next =>
    match s.findSidecarStore (report.reportRoot, report.assetIdentity) with
    | (s, some id) =>
      (s, t.goto (.publish ⟨report, row, cfg.calcSidecarFileKey base.filePath base.repositoryName,
        id⟩))
    | (s, none) => (s, t.goto (.insertStore report row))
  | .insertStore report row, .next =>
    let (s, id) := s.insertSidecarStore cfg (report.reportRoot, report.assetIdentity)
    (s, t.goto (.publish ⟨report, row, cfg.calcSidecarFileKey base.filePath base.repositoryName,
      id⟩))
  | .publish identity, .next => (s.publishIdentity cfg base identity, t.goto (.metadata identity))
  | _, _ => (s, t)

/-- A step between identity and overlay: the sidecar store reads and caches. -/
def stepSidecar (s : Service) (t : Thread) (e : Event) : Service × Thread :=
  match t.pc, e with
  | .metadata identity, .sidecar sec | .render identity _ _, .sidecar sec =>
    (s.withStore identity.sidecar fun a => SidecarStore.runSection cfg.storeLimits a sec, t)
  | .metadata identity, .prepared totalLines =>
    match t.request.ranges with
    | none => (s, t.goto (.enterOverlay identity []))
    | some items =>
      match normalizeBatchRanges totalLines items with
      | none => (s, t.goto .raised)
      | some ranges => (s, t.goto (.enterOverlay identity ranges))
  | .render identity ranges overlay, .rendered => (s, t.goto (.done identity ranges overlay))
  | _, _ => (s, t)

/-- A step in `_overlay`. -/
def stepOverlay (s : Service) (t : Thread) (e : Event) : Service × Thread :=
  let base := t.request.base
  match t.pc, e with
  | .enterOverlay identity ranges, .next =>
    match s.enterOverlay (overlayKey base identity ranges) with
    | (s, .hit overlay) => (s, t.goto (.render identity ranges overlay))
    | (s, .wait event) => (s, t.goto (.waitOverlay identity ranges event))
    | (s, .owner) => (s, t.goto (.readDomain identity ranges))
  | .waitOverlay identity ranges event, .next =>
    if s.overlayInflight.get? (overlayKey base identity ranges) = some event then (s, t)
    else (s, t.goto (.enterOverlay identity ranges))
  | .readDomain identity ranges, .read seen =>
    if t.sees now seen then
      match readFile (dbAt seen) base.scanId identity.fileRow.id (overlayRanges ranges) with
      | [] => (s, t.saw seen (.readLegacy identity ranges))
      | rows => (s, t.saw seen (.publishOverlay identity ranges
          (overlayOf (rows.map fun row => .domain (domainOverlayRow row)))))
    else (s, t)
  | .readLegacy identity ranges, .read seen =>
    if t.sees now seen then
      (s, t.saw seen (.publishOverlay identity ranges
        (overlayOf (legacyRows (dbAt seen) identity.fileRow.id (overlayRanges ranges)))))
    else (s, t)
  | .publishOverlay identity ranges overlay, .next =>
    let (s, overlay) := s.publishOverlay cfg (overlayKey base identity ranges) overlay
    (s, t.goto (.render identity ranges overlay))
  | _, _ => (s, t)

/-- A step of a thread. -/
def step (s : Service) (t : Thread) (e : Event) : Service × Thread :=
  match e with
  | .fail => t.fail s
  | e =>
    match t.pc with
    | .idle | .done _ _ _ | .raised => (s, t)
    | .metadata _ | .render _ _ _ => t.stepSidecar cfg s e
    | .enterOverlay _ _ | .waitOverlay _ _ _ | .readDomain _ _ | .readLegacy _ _
    | .publishOverlay _ _ _ => t.stepOverlay cfg dbAt now s e
    | _ => t.stepIdentity env cfg dbAt now s e

/-- A new request. `resolve_lines_batch` answers a request without ranges at once and refuses one
with too many. -/
def submit (r : Request) (t : Thread) : Thread :=
  match t.pc with
  | .idle | .done _ _ _ | .raised =>
    match r.ranges with
    | some [] => ⟨r, now, .idle⟩
    | some items => if maxBatchRanges < items.length then ⟨r, now, .raised⟩ else ⟨r, now, .lookup⟩
    | none => ⟨r, now, .lookup⟩
  | _ => t

end Thread

/-! ## The system -/

/-- The database, the service and its threads. -/
structure World where
  /-- The history of the database. -/
  commits : List Action
  /-- The service. -/
  service : Service
  /-- The threads. -/
  threads : Nat → Thread

/-- A step of the system. -/
inductive Step
  /-- A transaction of anybody. -/
  | commit (a : Action)
  /-- A thread gets a request. -/
  | submit (thread : Nat) (r : Request)
  /-- A thread makes a step. -/
  | run (thread : Nat) (e : Event)

namespace World

/-- The system at its start. -/
def init (cfg : Config) : World :=
  ⟨[], Service.init cfg, fun _ => ⟨⟨⟨0, "", "", ""⟩, none⟩, 0, .idle⟩⟩

/-- Replace a thread. -/
def setThread (w : World) (i : Nat) (t : Thread) : World :=
  { w with threads := fun j => if j = i then t else w.threads j }

/-- One step. -/
def exec (env : Env) (cfg : Config) (w : World) : Step → World
  | .commit a => { w with commits := w.commits ++ [a] }
  | .submit i r => w.setThread i ((w.threads i).submit w.commits.length r)
  | .run i e =>
    let r := (w.threads i).step env cfg (Db.upTo env w.commits) w.commits.length w.service e
    { w with service := r.1 }.setThread i r.2

end World

/-! ## A small run -/

namespace Sample

/-- The defaults of the service, with one sidecar store. -/
def config : Config where
  maxSidecarStores := 1
  maxIdentityEntries := 256
  maxOverlayEntries := 512
  maxIdentityBytes := 4 * 1024 * 1024
  maxOverlayBytes := 16 * 1024 * 1024
  maxCacheBytes := 64 * 1024 * 1024
  maxCacheEntryBytes := 4 * 1024 * 1024
  maxSidecarCacheBytes := 32 * 1024 * 1024
  maxSidecarEntryBytes := 4 * 1024 * 1024
  identityText := fun identity => identity.key
  overlayText := fun _ => "[]"
  calcSidecarFileKey := fun path repository => repository ++ "/" ++ path

/-- The layout of the file in a report. -/
def layout (report : String) : Request := ⟨⟨1, report, "core", "a.cpp"⟩, none⟩

/-- A load of the identity in the first thread, with a new store. -/
def loads (report : String) : List Step :=
  .submit 0 (layout report) :: [Event.next, .next, .loaded ⟨report, "/reports/" ++ report⟩ 2,
    .next, .next, .next].map (.run 0)

/-- The metadata of the file is read and cached. -/
def caches (report : String) : Step :=
  .run 0 (.sidecar (.loaded .metadata (.file "/cache" report "core/a.cpp")
    ⟨some ⟨1, 20⟩, "[2]"⟩))

/-- The rest of the request. -/
def answers : List Step :=
  [Event.prepared 2, .next, .read 2, .next, .rendered].map (.run 0)

/-- Two reviewed lines, and the layout of their file in a report. -/
def opened (report : String) : List Step :=
  FosCoverage.Sample.reviewed.map .commit ++ loads report ++ [caches report] ++ answers

end Sample

end CodeDetail

end FosCoverage
