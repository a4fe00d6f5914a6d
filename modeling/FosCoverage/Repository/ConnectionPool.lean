import Mathlib.Logic.Function.Basic

/-!
# The connection pool

`MySQLConnectionPool` with its threads: borrowers that take a connection, use it and return it, and
callers of `close_all`.  One step is a section under the lock with what leads to it, an operation of
the queue, a test of `_is_shutdown`, or a call of the driver.

* A connection is a wrapper with its session, under a number that is never used again.  `opened` are
  the ones that are not closed; the queue and the threads have numbers.
* A thread that borrows two connections at once is two borrowers here: nothing else is kept for a
  thread.
* A connection attempt, a ping and a rollback have the outcome that the step says, and a borrower does
  what it likes with its session.
* `Transition` lists what a step can do, and `exec_transition` says that it does nothing else.

The metrics, `_waiters` and the names of the server are not here.
-/

set_option autoImplicit false

namespace FosCoverage

namespace MySQLConnectionPool

open Function

/-! ## Connections -/

abbrev ConnId := Nat

/-- The arguments of the constructor, with times in ticks. -/
structure PoolConfig where
  minConnections : Nat
  maxConnections : Nat
  maxLifetime : Nat
  idlePingAfter : Nat
  rollbackOnReturn : Bool

/-- `max_connections` -/
def PoolConfig.capacity (cfg : PoolConfig) : Nat := max (max 1 cfg.minConnections) cfg.maxConnections

/-- `PooledConnectionWrapper`, and its session at the server. -/
structure Conn where
  createdAt : Nat
  lastReturnedAt : Nat
  readOnly : Bool
  /-- What `get_autocommit` answers. -/
  autocommit : Bool
  /-- The session has work that is neither committed nor rolled back. -/
  dirty : Bool
  deriving DecidableEq, Repr

/-- A new connection, with `autocommit=False`. -/
def Conn.new (now : Nat) : Conn where
  createdAt := now
  lastReturnedAt := now
  readOnly := false
  autocommit := false
  dirty := false

/-- What `ping(reconnect=True)` does. -/
inductive Ping
  | answers
  | reconnects
  | fails
  deriving DecidableEq, Repr

/-- What a borrower leaves behind. -/
structure Use where
  readOnly : Bool
  autocommit : Bool
  dirty : Bool
  deriving DecidableEq, Repr

/-! ## The pool -/

/-- Where a borrower is. -/
inductive ThreadPc
  /-- Without a connection, and not about to get one. -/
  | idle
  /-- In front of `get_nowait`. -/
  | polling
  /-- With a connection from the queue, in front of the test of its age and its liveness. -/
  | checking (id : ConnId)
  /-- In front of the section that reserves a connection. -/
  | reserving
  /-- In front of `_create_raw_connection`, with a reservation. -/
  | connecting
  /-- In front of `get` with a timeout. -/
  | waiting
  /-- With a connection. -/
  | holding (id : ConnId)
  /-- In `return_connection`, in front of `rollback_if_dirty`. -/
  | cleaning (id : ConnId)
  /-- In front of `put_nowait`. -/
  | putting (id : ConnId)
  /-- In front of `_discard_wrapper`. -/
  | discarding (id : ConnId)
  deriving DecidableEq, Repr

/-- Where a caller of `close_all` is. -/
inductive CloserPc
  /-- Outside of the call, or behind its loop. -/
  | idle
  /-- In front of `empty()`. -/
  | testing
  /-- In front of `get_nowait`. -/
  | getting
  /-- With a connection that is to be closed. -/
  | closing (id : ConnId)
  deriving DecidableEq, Repr

/-- What the threads share, and where they are. -/
structure State where
  /-- The wrappers. -/
  conn : ConnId → Conn
  /-- The number of the next one. -/
  next : ConnId
  /-- The connections that are open. -/
  opened : List ConnId
  /-- `_pool` -/
  pool : List ConnId
  /-- `_active_count` -/
  activeCount : Nat
  /-- `_connecting_count` -/
  connectingCount : Nat
  /-- `_is_shutdown` -/
  isShutdown : Bool
  /-- The borrowers. -/
  thread : Nat → ThreadPc
  /-- The callers of `close_all`. -/
  closer : Nat → CloserPc

/-- The pool that the constructor leaves. -/
def init : State where
  conn _ := .new 0
  next := 0
  opened := []
  pool := []
  activeCount := 0
  connectingCount := 0
  isShutdown := false
  thread _ := .idle
  closer _ := .idle

namespace State

/-- A borrower goes on. -/
def setThread (s : State) (t : Nat) (pc : ThreadPc) : State :=
  { s with thread := update s.thread t pc }

/-- A caller of `close_all` goes on. -/
def setCloser (s : State) (c : Nat) (pc : CloserPc) : State :=
  { s with closer := update s.closer c pc }

/-- Write a wrapper or its session. -/
def setConn (s : State) (id : ConnId) (conn : Conn) : State :=
  { s with conn := update s.conn id conn }

/-- `_discard_wrapper`, and what `close_all` does with a connection. -/
def discardWrapper (s : State) (id : ConnId) : State :=
  { s with
    opened := s.opened.filter fun x => decide (x ≠ id)
    activeCount := s.activeCount - 1 }

/-- A connection that is made after it was reserved. -/
def connected (s : State) (now : Nat) : State :=
  { s with
    conn := update s.conn s.next (.new now)
    next := s.next + 1
    opened := s.opened ++ [s.next]
    connectingCount := s.connectingCount - 1
    activeCount := s.activeCount + 1 }

end State

/-! ## The sections -/

/-- The ping is skipped while the connection was idle for a short time only. -/
def pingSkipped (cfg : PoolConfig) (conn : Conn) (now : Nat) : Bool :=
  decide (now < conn.lastReturnedAt + cfg.idlePingAfter)

/-- `is_alive` -/
def isAlive (cfg : PoolConfig) (s : State) (id : ConnId) (now : Nat) (ping : Ping) : Bool :=
  decide (id ∈ s.opened) && (pingSkipped cfg (s.conn id) now || decide (ping ≠ .fails))

/-- The session behind `is_alive`: a driver that reconnects starts a new one. -/
def pinged (cfg : PoolConfig) (conn : Conn) (now : Nat) (ping : Ping) : Conn :=
  if pingSkipped cfg conn now = false ∧ ping = .reconnects then
    { conn with autocommit := false, dirty := false }
  else conn

/-- The head of `borrow_connection`. -/
def borrow (s : State) (t : Nat) : State :=
  match s.thread t with
  | .idle => if s.isShutdown then s else s.setThread t .polling
  | _ => s

/-- `get_nowait` -/
def poll (s : State) (t : Nat) : State :=
  match s.thread t with
  | .polling =>
    match s.pool with
    | [] => s.setThread t .reserving
    | id :: rest => { s with pool := rest }.setThread t (.checking id)
  | _ => s

/-- The test of a connection from the queue. -/
def check (cfg : PoolConfig) (s : State) (t now : Nat) (ping : Ping) : State :=
  match s.thread t with
  | .checking id =>
    if (s.conn id).createdAt + cfg.maxLifetime < now ∨ isAlive cfg s id now ping = false then
      (s.discardWrapper id).setThread t .polling
    else
      (s.setConn id { pinged cfg (s.conn id) now ping with readOnly := false }).setThread t
        (.holding id)
  | _ => s

/-- The section that reserves a connection. -/
def reserve (cfg : PoolConfig) (s : State) (t : Nat) : State :=
  match s.thread t with
  | .reserving =>
    if s.activeCount + s.connectingCount < cfg.capacity then
      { s with connectingCount := s.connectingCount + 1 }.setThread t .connecting
    else s.setThread t .waiting
  | _ => s

/-- `_create_raw_connection`, and the section behind it. -/
def connect (s : State) (t now : Nat) (ok : Bool) : State :=
  match s.thread t with
  | .connecting =>
    if ok then (s.connected now).setThread t (.holding s.next)
    else { s with connectingCount := s.connectingCount - 1 }.setThread t .idle
  | _ => s

/-- The end of the loop: it gives up, gets a connection or goes on. -/
def wait (s : State) (t : Nat) (expired : Bool) : State :=
  match s.thread t with
  | .waiting =>
    if expired then s.setThread t .idle
    else match s.pool with
      | [] => s.setThread t .polling
      | id :: rest => { s with pool := rest }.setThread t (.checking id)
  | _ => s

/-- What a borrower does with its connection. -/
def use (s : State) (t : Nat) (u : Use) : State :=
  match s.thread t with
  | .holding id => s.setConn id
      { s.conn id with readOnly := u.readOnly, autocommit := u.autocommit, dirty := u.dirty }
  | _ => s

/-- The head of `return_connection`. -/
def giveBack (s : State) (t : Nat) : State :=
  match s.thread t with
  | .holding id =>
    if id ∉ s.opened then s.setThread t .idle
    else s.setThread t (if s.isShutdown then .discarding id else .cleaning id)
  | _ => s

/-- `rollback_if_dirty` skips the rollback. -/
def skipsRollback (cfg : PoolConfig) (conn : Conn) (answers : Bool) : Bool :=
  !cfg.rollbackOnReturn || (conn.readOnly && answers && conn.autocommit)

/-- `rollback_if_dirty`; `answers` says whether `get_autocommit` does. -/
def rollback (cfg : PoolConfig) (s : State) (t : Nat) (answers ok : Bool) : State :=
  match s.thread t with
  | .cleaning id =>
    if skipsRollback cfg (s.conn id) answers then s.setThread t (.putting id)
    else if ok then (s.setConn id { s.conn id with dirty := false }).setThread t (.putting id)
    else s.setThread t (.discarding id)
  | _ => s

/-- `put_nowait` -/
def put (cfg : PoolConfig) (s : State) (t now : Nat) : State :=
  match s.thread t with
  | .putting id =>
    let s := s.setConn id { s.conn id with lastReturnedAt := now }
    if cfg.capacity ≤ s.pool.length then s.setThread t (.discarding id)
    else { s with pool := s.pool ++ [id] }.setThread t .idle
  | _ => s

/-- `_discard_wrapper` at the end of `return_connection`. -/
def discard (s : State) (t : Nat) : State :=
  match s.thread t with
  | .discarding id => (s.discardWrapper id).setThread t .idle
  | _ => s

/-- The head of `close_all`. -/
def close (s : State) (c : Nat) : State :=
  match s.closer c with
  | .idle => { s with isShutdown := true }.setCloser c .testing
  | _ => s

/-- `empty()` -/
def testEmpty (s : State) (c : Nat) : State :=
  match s.closer c with
  | .testing => s.setCloser c (if s.pool = [] then .idle else .getting)
  | _ => s

/-- `get_nowait` of `close_all`. -/
def closeGet (s : State) (c : Nat) : State :=
  match s.closer c with
  | .getting =>
    match s.pool with
    | [] => s.setCloser c .idle
    | id :: rest => { s with pool := rest }.setCloser c (.closing id)
  | _ => s

/-- The rest of the body of the loop. -/
def dispose (s : State) (c : Nat) : State :=
  match s.closer c with
  | .closing id => (s.discardWrapper id).setCloser c .testing
  | _ => s

/-! ## Steps -/

/-- What a thread does next. -/
inductive Step
  /-- `borrow_connection` begins. -/
  | borrow (t : Nat)
  /-- It looks into the queue. -/
  | poll (t : Nat)
  /-- It tests the connection. -/
  | check (t now : Nat) (ping : Ping)
  /-- It asks for room. -/
  | reserve (t : Nat)
  /-- It connects. -/
  | connect (t now : Nat) (ok : Bool)
  /-- It waits for a connection. -/
  | wait (t : Nat) (expired : Bool)
  /-- The connection is used. -/
  | use (t : Nat) (u : Use)
  /-- `return_connection` begins. -/
  | giveBack (t : Nat)
  /-- It rolls back. -/
  | rollback (t : Nat) (answers ok : Bool)
  /-- It puts the connection into the queue. -/
  | put (t now : Nat)
  /-- It discards the connection. -/
  | discard (t : Nat)
  /-- `close_all` begins. -/
  | close (c : Nat)
  /-- It tests the queue. -/
  | testEmpty (c : Nat)
  /-- It takes a connection. -/
  | closeGet (c : Nat)
  /-- It closes the connection. -/
  | dispose (c : Nat)
  deriving DecidableEq, Repr

/-- One step. -/
def exec (cfg : PoolConfig) (s : State) : Step → State
  | .borrow t => borrow s t
  | .poll t => poll s t
  | .check t now ping => check cfg s t now ping
  | .reserve t => reserve cfg s t
  | .connect t now ok => connect s t now ok
  | .wait t expired => wait s t expired
  | .use t u => use s t u
  | .giveBack t => giveBack s t
  | .rollback t answers ok => rollback cfg s t answers ok
  | .put t now => put cfg s t now
  | .discard t => discard s t
  | .close c => close s c
  | .testEmpty c => testEmpty s c
  | .closeGet c => closeGet s c
  | .dispose c => dispose s c

/-! ## What a step can do -/

/-- The connection that a borrower has. -/
def ThreadPc.conn? : ThreadPc → Option ConnId
  | checking id | holding id | cleaning id | putting id | discarding id => some id
  | _ => none

/-- The connection that a caller of `close_all` has. -/
def CloserPc.conn? : CloserPc → Option ConnId
  | closing id => some id
  | _ => none

/-- A caller of `close_all` is in its loop. -/
def CloserPc.inLoop : CloserPc → Bool
  | idle => false
  | _ => true

/-- The connection that a borrower has and that must not have work of somebody else. -/
def ThreadPc.clean? : ThreadPc → Option ConnId
  | checking id | putting id => some id
  | _ => none

/-- **The transitions of the pool.** -/
inductive Transition (cfg : PoolConfig) (s : State) : Step → State → Prop
  | stay (step : Step) : Transition cfg s step s
  /-- A borrower goes on with the connection that it has, or without one. -/
  | move {step : Step} {t : Nat} {pc pc' : ThreadPc} (hpc : s.thread t = pc)
      (hconn : pc'.conn? = pc.conn?) (hfrom : pc ≠ .connecting) (hto : pc' ≠ .connecting)
      (hclean : pc'.clean? = none) (hholding : ∀ id, pc' ≠ .holding id) :
      Transition cfg s step (s.setThread t pc')
  | take {step : Step} {t : Nat} {pc : ThreadPc} {id : ConnId} {rest : List ConnId}
      (hpc : s.thread t = pc) (hconn : pc.conn? = none) (hfrom : pc ≠ .connecting)
      (hpool : s.pool = id :: rest) :
      Transition cfg s step ({ s with pool := rest }.setThread t (.checking id))
  | handOut {id : ConnId} (t now : Nat) (ping : Ping) (hpc : s.thread t = .checking id) :
      Transition cfg s (.check t now ping)
        ((s.setConn id { pinged cfg (s.conn id) now ping with readOnly := false }).setThread t
          (.holding id))
  | discard {step : Step} {t : Nat} {pc pc' : ThreadPc} {id : ConnId} (hpc : s.thread t = pc)
      (hconn : pc.conn? = some id) (hpc' : pc' = .polling ∨ pc' = .idle) :
      Transition cfg s step ((s.discardWrapper id).setThread t pc')
  | reserve (t : Nat) (hpc : s.thread t = .reserving)
      (hroom : s.activeCount + s.connectingCount < cfg.capacity) :
      Transition cfg s (.reserve t)
        ({ s with connectingCount := s.connectingCount + 1 }.setThread t .connecting)
  | connect (t now : Nat) (hpc : s.thread t = .connecting) :
      Transition cfg s (.connect t now true) ((s.connected now).setThread t (.holding s.next))
  | fail (t now : Nat) (hpc : s.thread t = .connecting) :
      Transition cfg s (.connect t now false)
        ({ s with connectingCount := s.connectingCount - 1 }.setThread t .idle)
  | use {id : ConnId} (t : Nat) (u : Use) (conn : Conn) (hpc : s.thread t = .holding id) :
      Transition cfg s (.use t u) (s.setConn id conn)
  /-- A closed connection is returned. -/
  | lost {id : ConnId} (t : Nat) (hpc : s.thread t = .holding id) (hclosed : id ∉ s.opened) :
      Transition cfg s (.giveBack t) (s.setThread t .idle)
  | skip {id : ConnId} (t : Nat) (answers ok : Bool) (hpc : s.thread t = .cleaning id)
      (hskip : skipsRollback cfg (s.conn id) answers = true) :
      Transition cfg s (.rollback t answers ok) (s.setThread t (.putting id))
  | rollback {id : ConnId} (t : Nat) (answers : Bool) (hpc : s.thread t = .cleaning id) :
      Transition cfg s (.rollback t answers true)
        ((s.setConn id { s.conn id with dirty := false }).setThread t (.putting id))
  | put {id : ConnId} (t now : Nat) (hpc : s.thread t = .putting id) :
      Transition cfg s (.put t now)
        ({ s.setConn id { s.conn id with lastReturnedAt := now } with
          pool := s.pool ++ [id] }.setThread t .idle)
  | full {id : ConnId} (t now : Nat) (hpc : s.thread t = .putting id) :
      Transition cfg s (.put t now)
        ((s.setConn id { s.conn id with lastReturnedAt := now }).setThread t (.discarding id))
  | close (c : Nat) (hpc : s.closer c = .idle) :
      Transition cfg s (.close c) ({ s with isShutdown := true }.setCloser c .testing)
  | goOn (c : Nat) (hpc : s.closer c = .testing) (hpool : s.pool ≠ []) :
      Transition cfg s (.testEmpty c) (s.setCloser c .getting)
  | stop {step : Step} {c : Nat} {pc : CloserPc} (hpc : s.closer c = pc) (hconn : pc.conn? = none)
      (hpool : s.pool = []) : Transition cfg s step (s.setCloser c .idle)
  | closeGet {id : ConnId} {rest : List ConnId} (c : Nat) (hpc : s.closer c = .getting)
      (hpool : s.pool = id :: rest) :
      Transition cfg s (.closeGet c) ({ s with pool := rest }.setCloser c (.closing id))
  | dispose {id : ConnId} (c : Nat) (hpc : s.closer c = .closing id) :
      Transition cfg s (.dispose c) ((s.discardWrapper id).setCloser c .testing)

section Exec

variable (cfg : PoolConfig) (s : State)

theorem check_transition (t now : Nat) (ping : Ping) :
    Transition cfg s (.check t now ping) (exec cfg s (.check t now ping)) := by
  show Transition cfg s _ (check cfg s t now ping)
  rw [check]
  split
  · next id hpc =>
    split
    · exact .discard hpc rfl (.inl rfl)
    · exact .handOut t now ping hpc
  · exact .stay _

theorem wait_transition (t : Nat) (expired : Bool) :
    Transition cfg s (.wait t expired) (exec cfg s (.wait t expired)) := by
  show Transition cfg s _ (wait s t expired)
  rw [wait]
  split
  · next hpc =>
    split
    · exact .move hpc rfl nofun nofun rfl nofun
    split
    · exact .move hpc rfl nofun nofun rfl nofun
    · exact .take hpc rfl nofun ‹_›
  · exact .stay _

theorem giveBack_transition (t : Nat) :
    Transition cfg s (.giveBack t) (exec cfg s (.giveBack t)) := by
  show Transition cfg s _ (giveBack s t)
  rw [giveBack]
  split
  · next id hpc =>
    split
    · exact .lost t hpc ‹_›
    split
    · exact .move hpc rfl nofun nofun rfl nofun
    · exact .move hpc rfl nofun nofun rfl nofun
  · exact .stay _

theorem rollback_transition (t : Nat) (answers ok : Bool) :
    Transition cfg s (.rollback t answers ok) (exec cfg s (.rollback t answers ok)) := by
  show Transition cfg s _ (MySQLConnectionPool.rollback cfg s t answers ok)
  rw [MySQLConnectionPool.rollback]
  split
  · next id hpc =>
    split
    · exact .skip t answers ok hpc ‹_›
    cases ok with
    | true => exact .rollback t answers hpc
    | false => exact .move hpc rfl nofun nofun rfl nofun
  · exact .stay _

/-- **Every step is a transition.** -/
theorem exec_transition (step : Step) : Transition cfg s step (exec cfg s step) := by
  cases step with
  | check t now ping => exact check_transition cfg s t now ping
  | wait t expired => exact wait_transition cfg s t expired
  | giveBack t => exact giveBack_transition cfg s t
  | rollback t answers ok => exact rollback_transition cfg s t answers ok
  | borrow t =>
    rw [exec, borrow]
    split
    · next hpc =>
      split
      · exact .stay _
      · exact .move hpc rfl nofun nofun rfl nofun
    · exact .stay _
  | poll t =>
    rw [exec, poll]
    split
    · next hpc =>
      split
      · exact .move hpc rfl nofun nofun rfl nofun
      · exact .take hpc rfl nofun ‹_›
    · exact .stay _
  | reserve t =>
    rw [exec, MySQLConnectionPool.reserve]
    split
    · next hpc =>
      split
      · exact .reserve t hpc ‹_›
      · exact .move hpc rfl nofun nofun rfl nofun
    · exact .stay _
  | connect t now ok =>
    rw [exec, MySQLConnectionPool.connect]
    split
    · next hpc =>
      cases ok with
      | true => exact .connect t now hpc
      | false => exact .fail t now hpc
    · exact .stay _
  | use t u =>
    rw [exec, MySQLConnectionPool.use]
    split
    · exact .use t u _ ‹_›
    · exact .stay _
  | put t now =>
    rw [exec, MySQLConnectionPool.put]
    split
    · next id hpc =>
      extract_lets s'
      split
      · exact .full t now hpc
      · exact .put t now hpc
    · exact .stay _
  | discard t =>
    rw [exec, MySQLConnectionPool.discard]
    split
    · exact .discard ‹_› rfl (.inr rfl)
    · exact .stay _
  | close c =>
    rw [exec, MySQLConnectionPool.close]
    split
    · exact .close c ‹_›
    · exact .stay _
  | testEmpty c =>
    rw [exec, testEmpty]
    split
    · next hpc =>
      split
      · exact .stop hpc rfl ‹_›
      · exact .goOn c hpc ‹_›
    · exact .stay _
  | closeGet c =>
    rw [exec, MySQLConnectionPool.closeGet]
    split
    · next hpc =>
      split
      · exact .stop hpc rfl ‹_›
      · exact .closeGet c hpc ‹_›
    · exact .stay _
  | dispose c =>
    rw [exec, MySQLConnectionPool.dispose]
    split
    · exact .dispose c ‹_›
    · exact .stay _

end Exec

end MySQLConnectionPool

end FosCoverage
