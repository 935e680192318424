import Mathlib.Algebra.Order.Group.Nat
import Mathlib.Data.List.Perm.Basic
import Naruto.Connection.ConnectionPool
import Naruto.Theory.Simulation

/-!
# Establishing a connection

`connect()` makes a socket and connects it, again as long as no local address is free, up
to ten times; then it makes it blocking and sets its timeouts. Until `::connect` has
succeeded the socket is in a local variable that no error path closes, and neither the
destructor nor the `swap` of `reconnect` closes what a connection has. So a descriptor is
lost for every attempt that does not connect, and for every connection that goes without a
`close`. A host that cannot be reached leaves no error at all. A connection can also be made
of a descriptor that `::accept` has returned; it is never connected again.
-/

namespace Naruto.Connection.Establish

open Naruto.Theory Naruto.Replication

/-- The values of `errno` that the code looks at. -/
inductive Errno
  | ehostunreach
  | einprogress
  | eaddrnotavail
  | etimedout
  | eagain
  | eisconn
  | ealready
  | other (errno : Nat)
deriving DecidableEq, Repr

/-- `CONNECT_ERROR_IO`. -/
def connectErrorIo : Int := 1

/-- `CONNECT_ERROR_OTHER`. -/
def connectErrorOther : Int := 2

/-- `CONNECT_RETRIES`. -/
def connectRetries : Nat := 10

/-- A `Connect`: `fd_`, `status_` (which `Connect(ConnectOptions)` leaves zero), `err_` and
`errmsg_`, and whether `addr_` is set. Its `flag_` is `BLOCK`. -/
structure Connect where
  fd : Option Nat
  status : Option ConnectStatus
  err : Int
  errmsg : String
  addr : Bool
deriving DecidableEq, Repr

/-- The process: `errno`, and the descriptors that are open. -/
structure Process where
  errno : Errno
  fds : List Nat
deriving DecidableEq, Repr

/-- What `poll` finds. -/
inductive Polled
  | failed (errno : Errno)
  | timeout
  | ready
deriving DecidableEq, Repr

/-- The results of the system calls of one `connect()`: `socket`; `::connect`, each time it is
called; `poll`, the other `::connect` and `getsockopt` in `_wait_ready`; `fcntl` twice and
`setsockopt` twice. -/
structure Results where
  socket : Except Errno Nat
  connect : Nat → Option Errno
  poll : Polled
  again : Option Errno
  sockError : Except Errno (Option Errno)
  getfl : Option Errno
  setfl : Option Errno
  rcvtimeo : Option Errno
  sndtimeo : Option Errno

-- The texts of the error numbers.
variable (strerror : Errno → String)

namespace Connect

/-- `Connect(ConnectOptions)`. -/
def new : Connect := ⟨none, none, 0, "", false⟩

/-- `Connect(int fd)`. -/
def ofFd (fd : Nat) : Connect := ⟨some fd, some .init, 0, "", false⟩

/-- `broken()`. -/
def broken (c : Connect) : Bool := c.err ≠ 0 ∨ c.status ≠ some .connected

/-- `_set_error`. -/
def setError (c : Connect) (p : Process) (type : Int) (pre : String) : Connect :=
  { c with err := type, errmsg := (if pre = "" then "" else pre ++ ":") ++ strerror p.errno }

/-- `close()`. -/
def close (c : Connect) (p : Process) : Connect × Process :=
  match c.fd with
  | some fd => ({ c with fd := none, status := some .close }, { p with fds := p.fds.erase fd })
  | none => ({ c with status := some .close }, p)

/-- `_check_connect_done`: whether it returns `CONNECT_RT_OK`, and `*completed`. -/
def checkConnectDone (r : Results) (p : Process) : Bool × Bool × Process :=
  match r.again with
  | none => (true, true, p)
  | some .eisconn => (true, true, { p with errno := .eisconn })
  | some .ealready => (true, false, { p with errno := .ealready })
  | some .einprogress => (true, false, { p with errno := .einprogress })
  | some .eagain => (true, false, { p with errno := .eagain })
  | some errno => (false, true, { p with errno := errno })

/-- `_check_socket_error`. Without a pending error it takes the `errno` that it has found. -/
def checkSocketError (r : Results) (c : Connect) (p : Process) : Connect × Process :=
  match r.sockError with
  | .error errno =>
    let p := { p with errno := errno }
    (c.setError strerror p connectErrorIo "getsockopt(SO_ERROR)", p)
  | .ok err =>
    let p := { p with errno := err.getD p.errno }
    (c.setError strerror p connectErrorIo "check_socket_error(errno)", p)

/-- `_wait_ready` behind an `EINPROGRESS`. What it returns is not looked at. A failing `poll`
and a timeout leave an error and close the socket; a socket that is ready is checked, and
whatever the check says the caller goes on as behind a failure. -/
def waitReady (r : Results) (c : Connect) (p : Process) : Connect × Process :=
  match r.poll with
  | .failed errno =>
    let p := { p with errno := errno }
    (c.setError strerror p connectErrorIo "poll(2)").close p
  | .timeout =>
    let p := { p with errno := .etimedout }
    (c.setError strerror p connectErrorIo "pool(2) timeout").close p
  | .ready =>
    let (ok, completed, p) := checkConnectDone r p
    if ok = false ∨ completed = false then checkSocketError strerror r c p else (c, p)

/-- The `retry` loop, which has called `::connect` `k` times and may go back `left` times:
whether the socket is connected. -/
def dial (r : Results) : Nat → Nat → Connect → Process → Bool × Connect × Process
  | left, k, c, p =>
    match r.connect k with
    | none => (true, c, p)
    | some .ehostunreach =>
      let (c, p) := c.close { p with errno := .ehostunreach }
      (false, c, p)
    | some .einprogress =>
      let (c, p) := c.waitReady strerror r { p with errno := .einprogress }
      (false, c.setError strerror p connectErrorOther "::connect", p)
    | some .eaddrnotavail =>
      let p := { p with errno := .eaddrnotavail }
      match left with
      | 0 => (false, c.setError strerror p connectErrorIo "retry max times", p)
      | left + 1 =>
        let (c, p) := c.close p
        dial r left (k + 1) c p
    | some errno =>
      let p := { p with errno := errno }
      (false, c.setError strerror p connectErrorOther "::connect", p)

/-- `_set_blocking(true)`. Reads the flags and writes them back without `O_NONBLOCK`; a failure
closes the socket. -/
def setBlocking (r : Results) (c : Connect) (p : Process) : Bool × Connect × Process :=
  match r.getfl, r.setfl with
  | some errno, _ =>
    let p := { p with errno := errno }
    let (c, p) := (c.setError strerror p connectErrorIo "fcntl(F_GETFL)").close p
    (false, c, p)
  | none, some errno =>
    let p := { p with errno := errno }
    let (c, p) := (c.setError strerror p connectErrorIo "fcntl(F_SETFL)").close p
    (false, c, p)
  | none, none => (true, c, p)

/-- `_set_connect_timeout`. Sets the timeouts of receiving and sending; a failure leaves an
error, and the socket open. -/
def setConnectTimeout (r : Results) (c : Connect) (p : Process) : Bool × Connect × Process :=
  match r.rcvtimeo, r.sndtimeo with
  | some errno, _ =>
    let p := { p with errno := errno }
    (false, c.setError strerror p connectErrorIo "setsockopt(SO_RCVTIMEO)", p)
  | none, some errno =>
    let p := { p with errno := errno }
    (false, c.setError strerror p connectErrorIo "setsockopt(SO_SNDTIMEO)", p)
  | none, none => (true, c, p)

/-- `connect()`: whether it returns `CONNECT_RT_OK`. Nothing when `socket` returns a
descriptor that is open. -/
def connect (r : Results) (c : Connect) (p : Process) : Option (Bool × Connect × Process) :=
  if c.status = some .connected then some (true, c, p)
  else match r.socket with
    | .error errno =>
      let p := { p with errno := errno }
      some (false, c.setError strerror p connectErrorOther "socket", p)
    | .ok clientFd =>
      if clientFd ∈ p.fds then none
      else match dial strerror r (connectRetries - 1) 0 c { p with fds := clientFd :: p.fds } with
        | (false, c, p) => some (false, c, p)
        | (true, c, p) =>
          match setBlocking strerror r { c with fd := some clientFd } p with
          | (false, c, p) => some (false, c.setError strerror p connectErrorOther "_set_blocking", p)
          | (true, c, p) => some (setConnectTimeout strerror r { c with status := some .connected, addr := true } p)

/-- `reconnect()`: what it throws. The connection whose place is taken is destroyed. Nothing
when `swap` copies an address to null. -/
def reconnect (r : Results) (c : Connect) (p : Process) : Option (Option Error × Connect × Process) :=
  match connect strerror r new p with
  | none => none
  | some (false, _, p) =>
    some (some (throwErr (p.errno = .eagain ∨ p.errno = .etimedout) c.err c.errmsg), c, p)
  | some (true, conn, p) =>
    if c.addr = false then none else some (none, { conn with err := 0, errmsg := "" }, p)

end Connect

/-- The first of the answers of `::connect`, from the `k`-th on, that is not `EADDRNOTAVAIL`:
one of the next `tries`. -/
def Results.answer (r : Results) (tries k : Nat) : Option (Option Errno) :=
  ((List.range' k tries).map r.connect).find? fun answer => answer ≠ some .eaddrnotavail

/-- The socket gets connected. -/
def Results.reaches (r : Results) : Bool := r.answer connectRetries 0 = some none

/-- The host cannot be reached. -/
def Results.unreachable (r : Results) : Bool := r.answer connectRetries 0 = some (some .ehostunreach)

/-- Any answer but `EADDRNOTAVAIL` ends the retries. -/
theorem Results.answer_stop (r : Results) (tries k : Nat) {answer : Option Errno} (found : r.connect k = answer)
    (other : answer ≠ some .eaddrnotavail) : r.answer (tries + 1) k = some answer := by
  simp [Results.answer, List.range'_succ, found, other]

/-- `EADDRNOTAVAIL` makes one retry. -/
theorem Results.answer_retry (r : Results) (tries k : Nat) (found : r.connect k = some .eaddrnotavail) :
    r.answer (tries + 1) k = r.answer tries (k + 1) := by
  simp [Results.answer, List.range'_succ, found]

namespace Connect

/-- What the loop leaves of a connection without a descriptor, when this is the first answer
that counts: no descriptor is touched, and an error is left but for a host that cannot be
reached. -/
structure Dialled (answer : Option (Option Errno)) (c : Connect) (p : Process) (result : Bool × Connect × Process) :
    Prop where
  ok : result.1 = true ↔ answer = some none
  fd : result.2.1.fd = none
  fds : result.2.2.fds = p.fds
  status : result.2.1.status = c.status ∨ result.2.1.status = some .close
  addr : result.2.1.addr = c.addr
  quiet : answer = some none ∨ answer = some (some .ehostunreach) →
    result.2.1.err = c.err ∧ result.2.1.errmsg = c.errmsg
  error : answer ≠ some none → answer ≠ some (some .ehostunreach) → result.2.1.err ≠ 0

/-- A connection without a descriptor only changes its status when it is closed. -/
theorem close_none {c : Connect} (p : Process) (closed : c.fd = none) :
    c.close p = ({ c with status := some .close }, p) := by
  simp [close, closed]

/-- `_wait_ready` leaves a connection without a descriptor without one. It may set an error and
the status, and touches no descriptor. -/
theorem waitReady_none (r : Results) {c : Connect} (p : Process) (closed : c.fd = none) :
    (c.waitReady strerror r p).1.fd = none ∧ (c.waitReady strerror r p).2.fds = p.fds ∧
      ((c.waitReady strerror r p).1.status = c.status ∨ (c.waitReady strerror r p).1.status = some .close) ∧
      (c.waitReady strerror r p).1.addr = c.addr := by
  cases polled : r.poll with
  | failed errno => simp [waitReady, polled, close, setError, closed]
  | timeout => simp [waitReady, polled, close, setError, closed]
  | ready =>
    have fds : (checkConnectDone r p).2.2.fds = p.fds := by
      rw [checkConnectDone]
      split <;> rfl
    by_cases done : (checkConnectDone r p).1 = false ∨ (checkConnectDone r p).2.1 = false
    · cases pending : r.sockError <;> simp [waitReady, polled, done, checkSocketError, pending, setError, closed, fds]
    · simp [waitReady, polled, done, closed, fds]

/-- The loop at an answer that ends it. One case for each `errno`: no error for a host that
cannot be reached, and `CONNECT_ERROR_OTHER` for the others. -/
theorem dial_stop (r : Results) (left k : Nat) {c : Connect} (p : Process) (closed : c.fd = none)
    {answer : Option Errno} (found : r.connect k = answer) (other : answer ≠ some .eaddrnotavail) :
    Dialled (some answer) c p (dial strerror r left k c p) := by
  have waits := waitReady_none strerror r (c := c) { p with errno := .einprogress } closed
  rw [dial.eq_def]
  cases answer with
  | none => exact ⟨by simp [found], by simp [found, closed], by simp [found], by simp [found], by simp [found],
      by simp [found], by simp⟩
  | some errno =>
    cases errno with
    | eaddrnotavail => exact absurd rfl other
    | ehostunreach =>
      simp only [found, close_none _ closed]
      exact ⟨by simp, closed, rfl, .inr rfl, rfl, by simp, by simp⟩
    | einprogress =>
      simp only [found]
      exact ⟨by simp, waits.1, waits.2.1, waits.2.2.1, waits.2.2.2, by simp, by simp [setError, connectErrorOther]⟩
    | etimedout | eagain | eisconn | ealready | other errno =>
      simp only [found]
      exact ⟨by simp, closed, rfl, .inl rfl, rfl, by simp, by simp [setError, connectErrorOther]⟩

/-- The loop, by induction on how often it may go back. Each `EADDRNOTAVAIL` closes the
connection and goes back; the first other answer decides, or the last `EADDRNOTAVAIL`. -/
theorem dial_dialled (r : Results) (left k : Nat) (c : Connect) (p : Process) (closed : c.fd = none) :
    Dialled (r.answer (left + 1) k) c p (dial strerror r left k c p) := by
  induction left generalizing k c p with
  | zero =>
    by_cases again : r.connect k = some .eaddrnotavail
    · have nothing : r.answer 1 k = none := by simp [Results.answer, again]
      rw [nothing, dial.eq_def]
      simp only [again]
      exact ⟨by simp, closed, rfl, .inl rfl, rfl, by simp, by simp [setError, connectErrorIo]⟩
    · rw [r.answer_stop 0 k rfl again]
      exact dial_stop strerror r 0 k p closed rfl again
  | succ left ih =>
    by_cases again : r.connect k = some .eaddrnotavail
    · rw [r.answer_retry (left + 1) k again, dial.eq_def]
      simp only [again, close_none _ closed]
      obtain ⟨ok, fd, fds, status, addr, quiet, error⟩ :=
        ih (k + 1) { c with status := some .close } { p with errno := .eaddrnotavail } closed
      exact ⟨ok, fd, fds, .inr (status.elim id id), addr, quiet, error⟩
    · rw [r.answer_stop (left + 1) k rfl again]
      exact dial_stop strerror r (left + 1) k p closed rfl again

variable {strerror}

/-- How a `connect()` can end for a connection without a descriptor: there is no socket; the
socket does not get connected, and is lost; it cannot be made blocking, and is closed; its
timeouts cannot be set; or all is well. -/
inductive Outcome (r : Results) (c : Connect) (p : Process) : Bool → Connect → Process → Prop
  | socket {c' p' errno} (unmade : r.socket = .error errno) (fd : c'.fd = none)
      (status : c'.status = c.status ∨ c'.status = some .close) (addr : c'.addr = c.addr) (error : c'.err ≠ 0)
      (fds : p'.fds = p.fds) : Outcome r c p false c' p'
  | dial {c' p'} (clientFd : Nat) (made : r.socket = .ok clientFd) (fresh : clientFd ∉ p.fds)
      (lost : r.reaches = false) (fd : c'.fd = none) (status : c'.status = c.status ∨ c'.status = some .close)
      (addr : c'.addr = c.addr) (quiet : r.unreachable = true → c'.err = c.err ∧ c'.errmsg = c.errmsg)
      (error : r.unreachable = false → c'.err ≠ 0) (fds : p'.fds = clientFd :: p.fds) : Outcome r c p false c' p'
  | blocking {c' p'} (clientFd : Nat) (made : r.socket = .ok clientFd) (fresh : clientFd ∉ p.fds)
      (reached : r.reaches = true) (failed : r.getfl ≠ none ∨ r.setfl ≠ none) (fd : c'.fd = none)
      (status : c'.status = c.status ∨ c'.status = some .close) (addr : c'.addr = c.addr) (error : c'.err ≠ 0)
      (fds : p'.fds = p.fds) : Outcome r c p false c' p'
  | timeouts {c' p'} (clientFd : Nat) (made : r.socket = .ok clientFd) (fresh : clientFd ∉ p.fds)
      (reached : r.reaches = true) (set : r.getfl = none ∧ r.setfl = none)
      (failed : r.rcvtimeo ≠ none ∨ r.sndtimeo ≠ none) (fd : c'.fd = some clientFd)
      (status : c'.status = some .connected) (addr : c'.addr = true) (error : c'.err ≠ 0)
      (fds : p'.fds = clientFd :: p.fds) : Outcome r c p false c' p'
  | connected {c' p'} (clientFd : Nat) (made : r.socket = .ok clientFd) (fresh : clientFd ∉ p.fds)
      (reached : r.reaches = true) (set : r.getfl = none ∧ r.setfl = none ∧ r.rcvtimeo = none ∧ r.sndtimeo = none)
      (fd : c'.fd = some clientFd) (status : c'.status = some .connected) (addr : c'.addr = true)
      (quiet : c'.err = c.err ∧ c'.errmsg = c.errmsg) (fds : p'.fds = clientFd :: p.fds) : Outcome r c p true c' p'

/-- What `_set_blocking(true)` leaves: everything as it is, or a closed socket. -/
theorem setBlocking_spec {r : Results} {c c' : Connect} {p p' : Process} {ok : Bool} {clientFd : Nat}
    (fd : c.fd = some clientFd) (ended : setBlocking strerror r c p = (ok, c', p')) :
    ok = true ∧ r.getfl = none ∧ r.setfl = none ∧ c' = c ∧ p' = p ∨
      ok = false ∧ (r.getfl ≠ none ∨ r.setfl ≠ none) ∧ c'.fd = none ∧ c'.status = some .close ∧
        c'.addr = c.addr ∧ p'.fds = p.fds.erase clientFd := by
  cases getfl : r.getfl with
  | some errno =>
    simp only [setBlocking, getfl, close, setError, fd, Prod.mk.injEq] at ended
    obtain ⟨rfl, rfl, rfl⟩ := ended
    exact Or.inr ⟨rfl, Or.inl (Option.some_ne_none errno), rfl, rfl, rfl, rfl⟩
  | none =>
    cases setfl : r.setfl with
    | some errno =>
      simp only [setBlocking, getfl, setfl, close, setError, fd, Prod.mk.injEq] at ended
      obtain ⟨rfl, rfl, rfl⟩ := ended
      exact Or.inr ⟨rfl, Or.inr (Option.some_ne_none errno), rfl, rfl, rfl, rfl⟩
    | none =>
      simp only [setBlocking, getfl, setfl, Prod.mk.injEq] at ended
      obtain ⟨rfl, rfl, rfl⟩ := ended
      exact Or.inl ⟨rfl, rfl, rfl, rfl, rfl⟩

/-- What `_set_connect_timeout` leaves: everything as it is, or an error. The socket stays open
either way. -/
theorem setConnectTimeout_spec {r : Results} {c c' : Connect} {p p' : Process} {ok : Bool}
    (ended : setConnectTimeout strerror r c p = (ok, c', p')) :
    c'.fd = c.fd ∧ c'.status = c.status ∧ c'.addr = c.addr ∧ p'.fds = p.fds ∧
      (ok = true ∧ r.rcvtimeo = none ∧ r.sndtimeo = none ∧ c' = c ∨
        ok = false ∧ (r.rcvtimeo ≠ none ∨ r.sndtimeo ≠ none) ∧ c'.err ≠ 0) := by
  cases rcvtimeo : r.rcvtimeo with
  | some errno =>
    simp only [setConnectTimeout, rcvtimeo, setError, Prod.mk.injEq] at ended
    obtain ⟨rfl, rfl, rfl⟩ := ended
    exact ⟨rfl, rfl, rfl, rfl, Or.inr ⟨rfl, Or.inl (Option.some_ne_none errno), by simp [connectErrorIo]⟩⟩
  | none =>
    cases sndtimeo : r.sndtimeo with
    | some errno =>
      simp only [setConnectTimeout, rcvtimeo, sndtimeo, setError, Prod.mk.injEq] at ended
      obtain ⟨rfl, rfl, rfl⟩ := ended
      exact ⟨rfl, rfl, rfl, rfl, Or.inr ⟨rfl, Or.inr (Option.some_ne_none errno), by simp [connectErrorIo]⟩⟩
    | none =>
      simp only [setConnectTimeout, rcvtimeo, sndtimeo, Prod.mk.injEq] at ended
      obtain ⟨rfl, rfl, rfl⟩ := ended
      exact ⟨rfl, rfl, rfl, rfl, Or.inl ⟨rfl, rfl, rfl, rfl⟩⟩

/-- How a `connect()` ends. By cases on the calls in their order: the first that fails decides
the outcome, and what the later ones would return does not matter. -/
theorem connect_outcome {r : Results} {c c' : Connect} {p p' : Process} {ok : Bool} (closed : c.fd = none)
    (unconnected : c.status ≠ some .connected) (ended : connect strerror r c p = some (ok, c', p')) :
    Outcome r c p ok c' p' := by
  rw [connect, if_neg unconnected] at ended
  cases made : r.socket with
  | error errno =>
    simp only [made, Option.some.injEq, Prod.mk.injEq] at ended
    obtain ⟨rfl, rfl, rfl⟩ := ended
    exact .socket made closed (.inl rfl) rfl (by simp [setError, connectErrorOther]) rfl
  | ok clientFd =>
    simp only [made] at ended
    by_cases used : clientFd ∈ p.fds
    · simp [used] at ended
    · have dialled : Dialled (r.answer connectRetries 0) c _ _ :=
        dial_dialled strerror r (connectRetries - 1) 0 c { p with fds := clientFd :: p.fds } closed
      rw [if_neg used] at ended
      generalize dial strerror r (connectRetries - 1) 0 c { p with fds := clientFd :: p.fds } = result at dialled ended
      obtain ⟨ok', c₁, p₁⟩ := result
      obtain ⟨reached, fd, fds, status, addr, quiet, error⟩ := dialled
      simp only at reached fd fds status addr quiet error
      cases ok' with
      | false =>
        simp only [Option.some.injEq, Prod.mk.injEq] at ended
        obtain ⟨rfl, rfl, rfl⟩ := ended
        have lost : r.answer connectRetries 0 ≠ some none := by simpa using reached
        refine .dial clientFd made used (by simpa [Results.reaches] using lost) fd status addr (fun unreachable => ?_)
          (fun reachable => ?_) fds
        · exact quiet (.inr (by simpa [Results.unreachable] using unreachable))
        · exact error lost (by simpa [Results.unreachable] using reachable)
      | true =>
        have answered : r.reaches = true := by simpa [Results.reaches] using reached
        have kept := quiet (.inl (reached.mp rfl))
        simp only at ended
        generalize blocked : setBlocking strerror r { c₁ with fd := some clientFd } p₁ = result at ended
        obtain ⟨ok₂, c₂, p₂⟩ := result
        rcases setBlocking_spec rfl blocked with
          ⟨rfl, getfl, setfl, rfl, rfl⟩ | ⟨rfl, failed, closed₂, status₂, addr₂, fds₂⟩
        · obtain ⟨fd', status', addr', fds', success | failure⟩ :=
            setConnectTimeout_spec (Option.some.inj ended)
          · obtain ⟨rfl, rcvtimeo, sndtimeo, rfl⟩ := success
            exact .connected clientFd made used answered ⟨getfl, setfl, rcvtimeo, sndtimeo⟩ fd' status' addr' kept
              (fds'.trans fds)
          · obtain ⟨rfl, failed, error'⟩ := failure
            exact .timeouts clientFd made used answered ⟨getfl, setfl⟩ failed fd' status' addr' error'
              (fds'.trans fds)
        · simp only [Option.some.injEq, Prod.mk.injEq] at ended
          obtain ⟨rfl, rfl, rfl⟩ := ended
          exact .blocking clientFd made used answered failed closed₂ (.inr status₂) (addr₂.trans addr)
            (by simp [setError, connectErrorOther]) (by simp [fds₂, fds])

/-- A socket that gets connected has not found its host unreachable. -/
theorem not_unreachable {r : Results} (reached : r.reaches = true) : r.unreachable = false := by
  have answer : r.answer connectRetries 0 = some none := by simpa [Results.reaches] using reached
  simp [Results.unreachable, answer]

/-- A new connection: `connect()` returns `CONNECT_RT_OK` exactly when every call has
succeeded, `::connect` within its retries, and exactly then the connection is not broken. When
it does not, an error is left unless the host could not be reached; then what `throw_err` is
given is no error code.

Proof: by cases on where the attempt has ended, at the socket, in the retries, at the blocking
mode, at the timeouts or behind them. Each leaves a status and an error of its own, and only
the unreachable host leaves none. -/
theorem connect_new {r : Results} {c : Connect} {p p' : Process} {ok : Bool}
    (ended : connect strerror r new p = some (ok, c, p')) :
    (ok = true ↔ (∃ fd, r.socket = .ok fd) ∧ r.reaches = true ∧ r.getfl = none ∧ r.setfl = none ∧
      r.rcvtimeo = none ∧ r.sndtimeo = none) ∧
    (ok = true ↔ c.broken = false) ∧
    (ok = false → (c.err = 0 ↔ (∃ fd, r.socket = .ok fd) ∧ r.unreachable = true)) ∧
    (ok = false → c.err = 0 → ∀ again, throwErr again c.err c.errmsg = ⟨.error, "unknown error code: "⟩) := by
  cases connect_outcome rfl (by simp [new]) ended with
  | socket unmade fd status addr error fds => simp [unmade, broken, error]
  | dial clientFd made fresh unreached fd status addr quiet error fds =>
    have unconnected : c.status ≠ some .connected := by
      rcases status with same | close
      · simp [same, new]
      · simp [close]
    refine ⟨by simp [unreached], by simp [broken, unconnected], fun _ => ?_, fun _ quietly again => ?_⟩
    · cases reachable : r.unreachable with
      | true => simp [made, (quiet reachable).1, new]
      | false => simp [error reachable]
    · cases reachable : r.unreachable with
      | true =>
        obtain ⟨err, errmsg⟩ := quiet reachable
        simp [err, errmsg, new, throwErr]
      | false => exact absurd quietly (error reachable)
  | blocking clientFd made fresh reached failed fd status addr error fds =>
    have reachable : r.unreachable = false := not_unreachable reached
    refine ⟨⟨(fun impossible => by cases impossible), fun all => ?_⟩, by simp [broken, error], ?_, by simp [error]⟩
    · exact (failed.elim (fun unset => unset all.2.2.1) fun unset => unset all.2.2.2.1).elim
    · simp [error, reachable]
  | timeouts clientFd made fresh reached set failed fd status addr error fds =>
    have reachable : r.unreachable = false := not_unreachable reached
    refine ⟨⟨(fun impossible => by cases impossible), fun all => ?_⟩, by simp [broken, error], ?_, by simp [error]⟩
    · exact (failed.elim (fun unset => unset all.2.2.2.2.1) fun unset => unset all.2.2.2.2.2).elim
    · simp [error, reachable]
  | connected clientFd made fresh reached set fd status addr quiet fds =>
    simp [made, reached, set, broken, status, quiet.1, new]

/-- Results of a `connect()` with this descriptor, whose `::connect` answers always so. -/
def answering (fd : Nat) (answer : Option Errno) : Results :=
  ⟨.ok fd, fun _ => answer, .timeout, none, .ok none, none, none, none, none⟩

/-- A host that cannot be reached. -/
theorem connect_new_unreachable :
    ∃ c p, connect (fun _ => "No route to host") (answering 4 (some .ehostunreach)) new ⟨.other 0, [3]⟩ =
        some (false, c, p) ∧ c.broken = true ∧ c.err = 0 ∧
      throwErr false c.err c.errmsg = ⟨.error, "unknown error code: "⟩ := by
  have ended : connect (fun _ => "No route to host") (answering 4 (some .ehostunreach)) new ⟨.other 0, [3]⟩ =
      some (false, ⟨none, some .close, 0, "", false⟩, ⟨.ehostunreach, [4, 3]⟩) := by decide +kernel
  obtain ⟨_, broken, quiet, thrown⟩ := connect_new ended
  have unset := (quiet rfl).mpr ⟨⟨4, rfl⟩, by decide +kernel⟩
  exact ⟨_, _, ended, by simpa using broken, unset, thrown rfl unset false⟩

end Connect

/-- The process and its connections. -/
structure Owner where
  conns : List Connect
  process : Process

/-- What happens: a connection is made from options, or of a descriptor that `::accept` has
returned; it is connected, closed, reset or connected anew; a `send` or `recv` on it leaves an
error; it is destroyed. -/
inductive Event
  | new
  | accept (fd : Nat)
  | connect (i : Nat) (r : Results)
  | close (i : Nat)
  | reset (i : Nat)
  | fails (i : Nat) (type : Int) (errmsg : String)
  | reconnect (i : Nat) (r : Results)
  | destroy (i : Nat)

namespace Owner

/-- One event. `::accept` returns a descriptor that was not open; what it is given to is not
connected while it has it. -/
def step (s : Owner) : Event → Option Owner
  | .new => some { s with conns := s.conns ++ [Connect.new] }
  | .accept fd =>
    if fd ∈ s.process.fds then none
    else some ⟨s.conns ++ [Connect.ofFd fd], { s.process with fds := fd :: s.process.fds }⟩
  | .connect i r => do
    let c ← s.conns[i]?
    if c.status = some .init then none
    else
      let (_, c, p) ← c.connect strerror r s.process
      some ⟨s.conns.set i c, p⟩
  | .close i => s.conns[i]?.map fun c => ⟨s.conns.set i (c.close s.process).1, (c.close s.process).2⟩
  | .reset i => s.conns[i]?.map fun c => { s with conns := s.conns.set i { c with err := 0, errmsg := "" } }
  | .fails i type errmsg =>
    s.conns[i]?.map fun c => { s with conns := s.conns.set i { c with err := type, errmsg := errmsg } }
  | .reconnect i r => do
    let c ← s.conns[i]?
    let (_, c, p) ← c.reconnect strerror r s.process
    some ⟨s.conns.set i c, p⟩
  | .destroy i => s.conns[i]?.map fun _ => { s with conns := s.conns.eraseIdx i }

/-- The descriptors that the connections have. -/
def held (s : Owner) : List Nat := s.conns.flatMap fun c => c.fd.toList

/-- The descriptors that an event loses: the socket of a `connect()` that does not get
connected; in a `reconnect()` also one without its timeouts, and otherwise what the connection
had before; and what a destroyed connection has. -/
def lost (s : Owner) : Event → List Nat
  | .connect i r =>
    match s.conns[i]?, r.socket with
    | some c, .ok fd => if c.status = some .connected ∨ r.reaches then [] else [fd]
    | _, _ => []
  | .reconnect i r =>
    match s.conns[i]?, r.socket with
    | some c, .ok fd =>
      if ¬ r.reaches then [fd]
      else if r.getfl ≠ none ∨ r.setfl ≠ none then []
      else if r.rcvtimeo ≠ none ∨ r.sndtimeo ≠ none then [fd]
      else c.fd.toList
    | _, _ => []
  | .destroy i => s.conns[i]?.elim [] fun c => c.fd.toList
  | _ => []

/-- A connection has a descriptor exactly when it is `CONNECTED`, and then an address, or when
it was made of one that it has not closed. -/
def Sound (c : Connect) : Prop :=
  (c.fd ≠ none ↔ c.status = some .connected ∨ c.status = some .init) ∧ (c.status = some .connected → c.addr = true)

/-- A `connect()` that leaves a connection without a descriptor leaves it sound. -/
theorem sound_without {c c' : Connect} (sound : Sound c) (closed : c.fd = none) (fd : c'.fd = none)
    (status : c'.status = c.status ∨ c'.status = some .close) : Sound c' := by
  rcases status with same | close
  · have idle : ¬ (c.status = some .connected ∨ c.status = some .init) := fun opened => sound.1.mpr opened closed
    rw [Sound, same, fd]
    exact ⟨⟨fun impossible => absurd rfl impossible, fun opened => absurd opened idle⟩,
      fun connected => absurd (.inl connected) idle⟩
  · simp [Sound, fd, close]

/-- What holds of the descriptors, with those that are neither held nor free. -/
structure Accounts (others : List Nat) (s : Owner) : Prop where
  sound : ∀ c ∈ s.conns, Sound c
  fds : s.process.fds.Perm (s.held ++ others)
  nodup : s.process.fds.Nodup

variable {strerror} {s s' : Owner} {others : List Nat}

/-- What the connections besides one have. -/
def besides (s : Owner) (i : Nat) : List Nat := (s.conns.eraseIdx i).flatMap fun c => c.fd.toList

/-- What is held by one connection and by the others. -/
theorem held_at {i : Nat} {c : Connect} (there : s.conns[i]? = some c) :
    s.held.Perm (c.fd.toList ++ s.besides i) := by
  obtain ⟨inside, rfl⟩ := List.getElem?_eq_some_iff.mp there
  have split := (List.getElem_cons_eraseIdx_perm (l := s.conns) inside).flatMap_right fun c => c.fd.toList
  simpa [held, besides] using split.symm

/-- The same when one connection has become another. -/
theorem held_set {i : Nat} {c : Connect} (there : s.conns[i]? = some c) (c' : Connect) (p : Process) :
    held ⟨s.conns.set i c', p⟩ |>.Perm (c'.fd.toList ++ s.besides i) := by
  obtain ⟨inside, _⟩ := List.getElem?_eq_some_iff.mp there
  have split := (List.set_perm_cons_eraseIdx (l := s.conns) inside c').flatMap_right fun c => c.fd.toList
  simpa [held, besides] using split

/-- One connection becomes another, and the open descriptors change as its own do. What the
other connections have stays where it is. -/
theorem Accounts.set (accounts : Accounts others s) {i : Nat} {c c' : Connect} (there : s.conns[i]? = some c)
    (sound : Sound c') {p : Process} {others' : List Nat} (nodup : p.fds.Nodup)
    (moves : ∀ rest, s.process.fds.Perm (c.fd.toList ++ (rest ++ others)) →
      p.fds.Perm (c'.fd.toList ++ (rest ++ others'))) : Accounts others' ⟨s.conns.set i c', p⟩ where
  sound := fun d among => by
    rcases List.mem_or_eq_of_mem_set among with old | rfl
    · exact accounts.sound d old
    · exact sound
  fds := by
    have before := accounts.fds.trans ((held_at there).append_right others)
    rw [List.append_assoc] at before
    have after := (held_set there c' p).symm.append_right others'
    rw [List.append_assoc] at after
    exact (moves _ before).trans after
  nodup := nodup

/-- A connection that is set to one with the same descriptor and status. -/
theorem Accounts.same (accounts : Accounts others s) {i : Nat} {c c' : Connect} (there : s.conns[i]? = some c)
    (fd : c'.fd = c.fd) (status : c'.status = c.status) (addr : c'.addr = c.addr) :
    Accounts others { s with conns := s.conns.set i c' } := by
  have sound := accounts.sound c (List.mem_of_getElem? there)
  refine accounts.set there ?_ accounts.nodup fun rest before => ?_
  · rw [Sound, fd, status, addr]
    exact sound
  · rw [fd]
    exact before

/-- A `close()`. The descriptor, if there is one, goes back to the system. -/
theorem Accounts.close (accounts : Accounts others s) {i : Nat} {c : Connect} (there : s.conns[i]? = some c) :
    Accounts others ⟨s.conns.set i (c.close s.process).1, (c.close s.process).2⟩ := by
  cases found : c.fd with
  | none =>
    rw [Connect.close_none s.process found]
    refine accounts.set there (by simp [Sound, found]) accounts.nodup fun rest before => ?_
    simpa [found] using before
  | some fd =>
    have closes : c.close s.process =
        ({ c with fd := none, status := some .close }, { s.process with fds := s.process.fds.erase fd }) := by
      simp [Connect.close, found]
    rw [closes]
    refine accounts.set there (by simp [Sound]) (accounts.nodup.erase fd) fun rest before => ?_
    have erased := before.erase fd
    simpa [found] using erased

/-- A new descriptor that is lost at once. -/
theorem perm_lost {fds own rest others : List Nat} (before : fds.Perm (own ++ (rest ++ others))) (fd : Nat) :
    (fd :: fds).Perm (own ++ (rest ++ ([fd] ++ others))) := by
  have middle : (fd :: ((own ++ rest) ++ others)).Perm ((own ++ rest) ++ fd :: others) := List.perm_middle.symm
  simpa using (before.cons fd).trans (by simpa using middle)

/-- A `connect()`: what it loses is behind the others. A socket that does not get connected is
lost, and a connection that is connected already makes none. -/
theorem Accounts.connect (accounts : Accounts others s) {i : Nat} {c c' : Connect} {r : Results} {ok : Bool}
    {p : Process} (there : s.conns[i]? = some c) (made : c.status ≠ some .init)
    (ended : c.connect strerror r s.process = some (ok, c', p)) :
    Accounts (s.lost (.connect i r) ++ others) ⟨s.conns.set i c', p⟩ := by
  have sound := accounts.sound c (List.mem_of_getElem? there)
  by_cases connected : c.status = some .connected
  · rw [Connect.connect, if_pos connected] at ended
    simp only [Option.some.injEq, Prod.mk.injEq] at ended
    obtain ⟨_, rfl, rfl⟩ := ended
    have nothing : s.lost (.connect i r) = [] := by
      cases made : r.socket <;> simp [lost, there, connected, made]
    rw [nothing, List.nil_append]
    exact accounts.same there rfl rfl rfl
  · have closed : c.fd = none := by
      by_contra opened
      exact (sound.1.mp opened).elim connected made
    cases Connect.connect_outcome closed connected ended with
    | socket unmade fd status addr error fds =>
      have nothing : s.lost (.connect i r) = [] := by simp [lost, there, unmade]
      refine accounts.set there (sound_without sound closed fd status) (fds ▸ accounts.nodup) fun rest before => ?_
      simpa [nothing, fd, fds, closed] using before
    | dial clientFd made fresh unreached fd status addr quiet error fds =>
      have loses : s.lost (.connect i r) = [clientFd] := by simp [lost, there, made, connected, unreached]
      refine accounts.set there (sound_without sound closed fd status) ?_ fun rest before => ?_
      · rw [fds]
        exact List.nodup_cons.mpr ⟨fresh, accounts.nodup⟩
      · rw [loses, fd, fds, ← closed]
        exact perm_lost before clientFd
    | blocking clientFd made fresh reached failed fd status addr error fds =>
      have nothing : s.lost (.connect i r) = [] := by simp [lost, there, made, reached]
      refine accounts.set there (sound_without sound closed fd status) (fds ▸ accounts.nodup) fun rest before => ?_
      simpa [nothing, fd, fds, closed] using before
    | timeouts clientFd made fresh reached set failed fd status addr error fds =>
      have nothing : s.lost (.connect i r) = [] := by simp [lost, there, made, reached]
      refine accounts.set there (by simp [Sound, fd, status, addr]) ?_ fun rest before => ?_
      · rw [fds]
        exact List.nodup_cons.mpr ⟨fresh, accounts.nodup⟩
      · simpa [nothing, fd, fds, closed] using before
    | connected clientFd made fresh reached set fd status addr quiet fds =>
      have nothing : s.lost (.connect i r) = [] := by simp [lost, there, made, reached]
      refine accounts.set there (by simp [Sound, fd, status, addr]) ?_ fun rest before => ?_
      · rw [fds]
        exact List.nodup_cons.mpr ⟨fresh, accounts.nodup⟩
      · simpa [nothing, fd, fds, closed] using before

/-- A `reconnect()`: what it loses is behind the others. By cases on how its `connect()` ends:
its socket is lost when it does not get connected or its timeouts, is closed when it is not
made blocking, and else takes the place of the old descriptor, which is lost. -/
theorem Accounts.reconnect (accounts : Accounts others s) {i : Nat} {c c' : Connect} {r : Results}
    {error : Option Error} {p : Process} (there : s.conns[i]? = some c)
    (ended : c.reconnect strerror r s.process = some (error, c', p)) :
    Accounts (s.lost (.reconnect i r) ++ others) ⟨s.conns.set i c', p⟩ := by
  have sound := accounts.sound c (List.mem_of_getElem? there)
  cases made' : Connect.connect strerror r Connect.new s.process with
  | none => simp [Connect.reconnect, made'] at ended
  | some result =>
    obtain ⟨ok, conn, p'⟩ := result
    have outcome := Connect.connect_outcome rfl (by simp [Connect.new]) made'
    have nodup : ∀ fd, fd ∉ s.process.fds → (fd :: s.process.fds).Nodup :=
      fun fd fresh => List.nodup_cons.mpr ⟨fresh, accounts.nodup⟩
    simp only [Connect.reconnect, made'] at ended
    cases outcome with
    | socket unmade _ _ _ _ fds =>
      simp only [Option.some.injEq, Prod.mk.injEq] at ended
      obtain ⟨_, rfl, rfl⟩ := ended
      have nothing : s.lost (.reconnect i r) = [] := by simp [lost, there, unmade]
      refine accounts.set there sound (fds ▸ accounts.nodup) fun rest before => ?_
      simpa [nothing, fds] using before
    | dial clientFd made fresh unreached _ _ _ _ _ fds =>
      simp only [Option.some.injEq, Prod.mk.injEq] at ended
      obtain ⟨_, rfl, rfl⟩ := ended
      have loses : s.lost (.reconnect i r) = [clientFd] := by simp [lost, there, made, unreached]
      refine accounts.set there sound (fds ▸ nodup clientFd fresh) fun rest before => ?_
      rw [loses, fds]
      exact perm_lost before clientFd
    | blocking clientFd made fresh reached failed _ _ _ _ fds =>
      simp only [Option.some.injEq, Prod.mk.injEq] at ended
      obtain ⟨_, rfl, rfl⟩ := ended
      have nothing : s.lost (.reconnect i r) = [] := by simp [lost, there, made, reached, failed]
      refine accounts.set there sound (fds ▸ accounts.nodup) fun rest before => ?_
      simpa [nothing, fds] using before
    | timeouts clientFd made fresh reached set failed _ _ _ _ fds =>
      simp only [Option.some.injEq, Prod.mk.injEq] at ended
      obtain ⟨_, rfl, rfl⟩ := ended
      have loses : s.lost (.reconnect i r) = [clientFd] := by simp [lost, there, made, reached, set, failed]
      refine accounts.set there sound (fds ▸ nodup clientFd fresh) fun rest before => ?_
      rw [loses, fds]
      exact perm_lost before clientFd
    | connected clientFd made fresh reached set fd status addr _ fds =>
      have loses : s.lost (.reconnect i r) = c.fd.toList := by simp [lost, there, made, reached, set]
      simp only at ended
      obtain ⟨_, rest⟩ := Option.ite_none_left_eq_some.mp ended
      simp only [Option.some.injEq, Prod.mk.injEq] at rest
      obtain ⟨_, rfl, rfl⟩ := rest
      refine accounts.set there (by simp [Sound, fd, status, addr]) (fds ▸ nodup clientFd fresh) fun rest before => ?_
      simp only [fd, fds, loses, Option.toList_some, List.singleton_append]
      exact (before.trans (List.perm_append_comm_assoc _ _ _)).cons clientFd

/-- Every event keeps the accounts, with what it loses. The descriptor goes from the connection
to the lost ones, back to the system, or the other way round. -/
theorem Accounts.step {event : Event} (accounts : Accounts others s) (stepped : s.step strerror event = some s') :
    Accounts (s.lost event ++ others) s' := by
  cases event with
  | new =>
    obtain rfl := Option.some.inj stepped
    refine ⟨fun c among => ?_, ?_, accounts.nodup⟩
    · rcases List.mem_append.mp among with old | new
      · exact accounts.sound c old
      · rw [List.mem_singleton.mp new]
        simp [Sound, Connect.new]
    · simpa [held, lost, Connect.new] using accounts.fds
  | accept fd =>
    obtain ⟨fresh, rest⟩ := Option.ite_none_left_eq_some.mp stepped
    obtain rfl := Option.some.inj rest
    refine ⟨fun c among => ?_, ?_, List.nodup_cons.mpr ⟨fresh, accounts.nodup⟩⟩
    · rcases List.mem_append.mp among with old | new
      · exact accounts.sound c old
      · rw [List.mem_singleton.mp new]
        simp [Sound, Connect.ofFd]
    · have middle : (fd :: (s.held ++ others)).Perm (s.held ++ fd :: others) := List.perm_middle.symm
      simpa [held, lost, Connect.ofFd] using (accounts.fds.cons fd).trans middle
  | connect i r =>
    obtain ⟨c, there, rest⟩ := Option.bind_eq_some_iff.mp stepped
    obtain ⟨made, rest⟩ := Option.ite_none_left_eq_some.mp rest
    obtain ⟨⟨ok, c', p⟩, ended, rest⟩ := Option.bind_eq_some_iff.mp rest
    obtain rfl := Option.some.inj rest
    exact accounts.connect there made ended
  | close i =>
    obtain ⟨c, there, rfl⟩ := Option.map_eq_some_iff.mp stepped
    exact accounts.close there
  | reset i =>
    obtain ⟨c, there, rfl⟩ := Option.map_eq_some_iff.mp stepped
    exact accounts.same there rfl rfl rfl
  | fails i type errmsg =>
    obtain ⟨c, there, rfl⟩ := Option.map_eq_some_iff.mp stepped
    exact accounts.same there rfl rfl rfl
  | reconnect i r =>
    obtain ⟨c, there, rest⟩ := Option.bind_eq_some_iff.mp stepped
    obtain ⟨⟨error, c', p⟩, ended, rest⟩ := Option.bind_eq_some_iff.mp rest
    obtain rfl := Option.some.inj rest
    exact accounts.reconnect there ended
  | destroy i =>
    obtain ⟨c, there, rfl⟩ := Option.map_eq_some_iff.mp stepped
    refine ⟨fun d among => accounts.sound d (List.mem_of_mem_eraseIdx among), ?_, accounts.nodup⟩
    have before := accounts.fds.trans ((held_at there).append_right others)
    have loses : s.lost (.destroy i) = c.fd.toList := by simp [lost, there]
    rw [loses]
    rw [List.append_assoc] at before
    refine before.trans ?_
    rw [← List.append_assoc]
    exact (List.perm_append_comm.append_right others).trans (by rw [List.append_assoc]; rfl)

/-- The accounts after a run, by induction on its events. -/
theorem Accounts.run {events : List Event} (accounts : Accounts others s)
    (ran : Theory.run (Owner.step strerror) s events = some s') :
    Accounts (traced (Owner.step strerror) lost s events ++ others) s' := by
  induction events generalizing s others with
  | nil =>
    obtain rfl := Option.some.inj ran
    simpa using accounts
  | cons event events ih =>
    obtain ⟨next, stepped, rest⟩ := Option.bind_eq_some_iff.mp ran
    have later := ih (accounts.step stepped) rest
    rw [traced_cons stepped, List.append_assoc]
    exact ⟨later.sound, later.fds.trans ((List.perm_append_comm_assoc _ _ _).append_left s'.held), later.nodup⟩

/-- In every run the open descriptors are, each once, those that a connection has, those that
were lost, and those that the process had; and a connection has one exactly when it is
`CONNECTED`, or was made of one and is `INIT` still.

Proof: every event moves descriptors between these three and opens or closes one at most; what
it loses is read off the state before it. The outcome of a `connect` says which of its calls
failed and where the descriptor went. -/
theorem descriptors_of_run (process : Process) (distinct : process.fds.Nodup) (events : List Event) (s : Owner)
    (ran : run (step strerror) ⟨[], process⟩ events = some s) :
    s.process.fds.Perm (s.held ++ (traced (step strerror) lost ⟨[], process⟩ events ++ process.fds)) ∧
      s.process.fds.Nodup ∧
      ∀ c ∈ s.conns, c.fd ≠ none ↔ c.status = some .connected ∨ c.status = some .init := by
  have start : Accounts process.fds ⟨[], process⟩ := ⟨by simp, by simp [held], distinct⟩
  have accounts := start.run ran
  exact ⟨accounts.fds, accounts.nodup, fun c among => (accounts.sound c among).1⟩

/-- A host that cannot be reached, no free address, a connection, and two that are accepted, of
which one is closed. -/
def threeAttempts : List Event :=
  [.new, .connect 0 (Connect.answering 4 (some .ehostunreach)), .close 0, .destroy 0, .new,
    .connect 0 (Connect.answering 5 (some .eaddrnotavail)), .close 0, .destroy 0, .new,
    .connect 0 (Connect.answering 6 none), .accept 7, .accept 8, .close 1]

/-- Three descriptors are lost or were there before; two connections have theirs. -/
theorem descriptors_of_run_three :
    ∃ s, run (step fun _ => "") ⟨[], ⟨.other 0, [3]⟩⟩ threeAttempts = some s ∧ s.held = [6, 8] ∧
      s.process.fds.Perm ([6, 8] ++ ([4, 5] ++ [3])) := by
  have ends : (run (step fun _ => "") ⟨[], ⟨.other 0, [3]⟩⟩ threeAttempts).map held = some [6, 8] := by decide +kernel
  have loses : traced (step fun _ => "") lost ⟨[], ⟨.other 0, [3]⟩⟩ threeAttempts = [4, 5] := by decide +kernel
  obtain ⟨s, ran, holds⟩ := Option.map_eq_some_iff.mp ends
  have accounts := (descriptors_of_run ⟨.other 0, [3]⟩ (by decide) threeAttempts s ran).1
  rw [loses, holds] at accounts
  exact ⟨s, ran, holds, accounts⟩

end Owner

end Naruto.Connection.Establish
