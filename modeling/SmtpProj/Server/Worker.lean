import Mathlib.Data.Finset.Basic
import Mathlib.Logic.Function.Basic
import SmtpProj.Server.Protocol

/-!
The event loop of a server worker (`conn.c`): `conn_update` and
`protocol_update` in turn, over the table of connections.

What the kernel answers during one call of `conn_update` is a value of
`Kernel`; the worker itself is deterministic. The table entry of a descriptor
is a null pointer, a pointer to a connection, or a pointer to one that was
freed: nothing in the program sets an entry back to null.

`Link` is the same loop seen from one connection: its entry in the table and
its membership in the two sets of watched descriptors.
-/

namespace SmtpProj.Server

open Lib

def connSize : ℕ := 1024

def bufSize : ℕ := 1024

/-! ### Kernel answers -/

/-- The result of `send`: the number of bytes accepted, or -1 with `EAGAIN` or
another error. -/
inductive SendResult
  | sent (n : ℕ)
  | again
  | failed
  deriving DecidableEq, Repr

def SendResult.accepted (res : SendResult) (text : CStr) : CStr :=
  match res with
  | .sent n => text.take n
  | .again => []
  | .failed => []

/-- The result of `recv`: 1 to 1024 bytes, 0 at the end of the stream, or -1. -/
inductive RecvResult
  | bytes (b : List Char)
  | closed
  | failed
  deriving DecidableEq, Repr

structure Kernel where
  /-- The ready subsets, or -1. -/
  select : Option (Finset ℕ × Finset ℕ)
  accept : Option ℕ
  recv : ℕ → RecvResult
  /-- `send` to a writable descriptor, in the first loop. -/
  resend : ℕ → SendResult
  /-- `send` of a fresh reply, in the second loop. -/
  send : ℕ → SendResult
  now : Timeval

def sampleEnv : Env := ⟨⟨0, 0⟩, 1, "maildir/local".toList, fun _ => true⟩

def sampleKernel : Kernel where
  select := some (∅, ∅)
  accept := none
  recv := fun _ => .failed
  resend := fun _ => .sent bufSize
  send := fun _ => .sent bufSize
  now := ⟨0, 0⟩

/-! ### One connection -/

namespace Session

def receive (text : CStr) (s : Session) : Session := { s with recvBuf := text }

/-- `send` in the first loop; the reply stays in `send_buf`. -/
def resend (res : SendResult) (s : Session) : Session :=
  { s with wire := s.wire ++ res.accepted s.sendBuf }

/-- `send` in the second loop, which clears `send_buf` on every outcome. -/
def flush (res : SendResult) (s : Session) : Session :=
  if s.sendBuf ≠ [] then
    { s with wire := s.wire ++ res.accepted s.sendBuf, sendBuf := [] }
  else s

end Session

/-! ### The worker -/

inductive Slot
  | none
  | live (s : Session)
  | freed
  deriving DecidableEq

inductive WorkerStop
  /-- In the handling of one connection. -/
  | halted (h : Halt)
  /-- A null entry of the table is dereferenced. -/
  | nullConn
  /-- A connection that was freed is read or freed. -/
  | freedConn
  /-- `strcpy` runs past the end of `buf`. -/
  | bufOverrun
  deriving DecidableEq, Repr

structure Worker where
  listener : ℕ
  maxFd : ℕ
  activeRead : Finset ℕ
  activeWrite : Finset ℕ
  readFds : Finset ℕ
  writeFds : Finset ℕ
  buf : List Char
  connections : ℕ → Slot
  /-- The accepted sockets that the process has not closed. -/
  openFds : Finset ℕ

def boot (listener : ℕ) : Worker where
  listener := listener
  maxFd := listener
  activeRead := {listener}
  activeWrite := ∅
  readFds := ∅
  writeFds := ∅
  buf := clear bufSize
  connections := fun _ => .none
  openFds := ∅

namespace Worker

def setSlot (i : ℕ) (slot : Slot) (w : Worker) : Worker :=
  { w with connections := Function.update w.connections i slot }

@[simp] theorem setSlot_same (i : ℕ) (slot : Slot) (w : Worker) :
    (w.setSlot i slot).connections i = slot := by
  simp [setSlot]

theorem setSlot_other {i j : ℕ} (h : j ≠ i) (slot : Slot) (w : Worker) :
    (w.setSlot i slot).connections j = w.connections j := by
  simp [setSlot, h]

def acceptConn (k : Kernel) (w : Worker) : Worker :=
  match k.accept with
  | none => w
  | some fd =>
      { w.setSlot fd (.live (connCreate k.now)) with
        maxFd := max w.maxFd fd
        activeRead := insert fd w.activeRead
        openFds := insert fd w.openFds }

/-- What `recv` does to the buffer and the descriptor. The comparison of its
result with 0 is unsigned, so an error passes for data. -/
def recvInto (res : RecvResult) (i : ℕ) (w : Worker) : Worker :=
  match res with
  | .bytes b => { w with buf := overlay b w.buf }
  | .closed => { w with readFds := w.readFds.erase i, openFds := w.openFds.erase i }
  | .failed => w

def copyBuf (i : ℕ) (s : Session) (w : Worker) : Except WorkerStop Worker :=
  match cstr w.buf with
  | none => .error .bufOverrun
  | some text => .ok { w.setSlot i (.live (s.receive text)) with buf := wipe text.length w.buf }

def recvFrom (res : RecvResult) (i : ℕ) (w : Worker) : Except WorkerStop Worker :=
  let w := w.recvInto res i
  match w.connections i with
  | .none => .error .nullConn
  | .freed => .error .freedConn
  | .live s => w.copyBuf i s

def resendTo (res : SendResult) (i : ℕ) (w : Worker) : Except WorkerStop Worker :=
  match w.connections i with
  | .none => .ok w
  | .freed => .error .freedConn
  | .live s =>
      let w := w.setSlot i (.live (s.resend res))
      match res with
      | .sent _ =>
          .ok { w with
            activeWrite := w.activeWrite.erase i
            activeRead := insert i w.activeRead }
      | .again => .ok w
      | .failed => .ok w

def serveReady (k : Kernel) (w : Worker) (i : ℕ) : Except WorkerStop Worker :=
  if i ∈ w.readFds then
    if i = w.listener then .ok (w.acceptConn k) else w.recvFrom (k.recv i) i
  else if i ∈ w.writeFds then w.resendTo (k.resend i) i
  else .ok w

/-- `EAGAIN` in the second loop moves the descriptor to the write set. -/
def awaitWrite (res : SendResult) (i : ℕ) (w : Worker) : Worker :=
  match res with
  | .again =>
      { w with activeRead := w.activeRead.erase i, activeWrite := insert i w.activeWrite }
  | .sent _ => w
  | .failed => w

/-- `conn_free` and what goes with it. The table keeps the pointer. -/
def closeConn (i : ℕ) (w : Worker) : Worker :=
  { w.setSlot i .freed with
    activeRead := w.activeRead.erase i
    activeWrite := w.activeWrite.erase i
    openFds := w.openFds.erase i }

def sendReply (k : Kernel) (w : Worker) (i : ℕ) : Except WorkerStop Worker :=
  match w.connections i with
  | .none => .ok w
  | .freed => .error .freedConn
  | .live s =>
      let w := if s.sendBuf ≠ [] then w.awaitWrite (k.send i) i else w
      let w := w.setSlot i (.live (s.flush (k.send i)))
      if s.state = .disconnected then .ok (w.closeConn i) else .ok w

/-- `for (int i = 0; i <= max_fd; ++i)`. The bound is read again at every turn;
it only grows, and stays below `CONN_SIZE`. -/
def forFds (body : Worker → ℕ → Except WorkerStop Worker) (w : Worker) :
    Except WorkerStop Worker :=
  run (fun w i => if i ≤ w.maxFd then body w i else .ok w) w (List.range connSize)

def connUpdate (k : Kernel) (w : Worker) : Except WorkerStop Worker :=
  match k.select with
  | none => .ok { w with readFds := w.activeRead, writeFds := w.activeWrite }
  | some (readReady, writeReady) => do
      let w ← forFds (serveReady k) { w with readFds := readReady, writeFds := writeReady }
      forFds (sendReply k) w

def updateConn (e : Env) (w : Worker) (i : ℕ) : Except WorkerStop Worker :=
  match w.connections i with
  | .none => .ok w
  | .freed => .error .freedConn
  | .live s =>
      match protocolUpdate e s with
      | .ok s' => .ok (w.setSlot i (.live s'))
      | .error h => .error (.halted h)

theorem updateConn_of_ok {e : Env} {w : Worker} {i : ℕ} {s s' : Session}
    (hs : w.connections i = .live s) (h : Server.protocolUpdate e s = .ok s') :
    w.updateConn e i = .ok (w.setSlot i (.live s')) := by
  simp [updateConn, hs, h]

theorem updateConn_of_error {e : Env} {w : Worker} {i : ℕ} {s : Session} {stop : Halt}
    (hs : w.connections i = .live s) (h : Server.protocolUpdate e s = .error stop) :
    w.updateConn e i = .error (.halted stop) := by
  simp [updateConn, hs, h]

/-! What the body of each loop did, if it completed. -/

section Bodies

variable {w w' : Worker} {i : ℕ}

@[simp] theorem recvInto_connections (res : RecvResult) (i : ℕ) (w : Worker) :
    (w.recvInto res i).connections = w.connections := by
  cases res <;> rfl

theorem recvFrom_ok {res : RecvResult} (h : w.recvFrom res i = .ok w') :
    ∃ s text, w.connections i = .live s ∧ cstr (w.recvInto res i).buf = some text ∧
      w' = { (w.recvInto res i).setSlot i (.live (s.receive text)) with
        buf := wipe text.length (w.recvInto res i).buf } := by
  simp only [recvFrom, recvInto_connections] at h
  cases hs : w.connections i with
  | none => simp [hs] at h
  | freed => simp [hs] at h
  | live s =>
      rw [hs] at h
      cases htext : cstr (w.recvInto res i).buf with
      | none => simp [copyBuf, htext] at h
      | some text =>
          simp only [copyBuf, htext] at h
          cases h
          exact ⟨s, text, rfl, rfl, rfl⟩

theorem resendTo_ok {res : SendResult} (h : w.resendTo res i = .ok w') :
    (w.connections i = .none ∧ w' = w) ∨ ∃ s, w.connections i = .live s ∧
      ((∃ n, res = .sent n) ∧ w' = { w.setSlot i (.live (s.resend res)) with
          activeWrite := w.activeWrite.erase i
          activeRead := insert i w.activeRead } ∨
        (∀ n, res ≠ .sent n) ∧ w' = w.setSlot i (.live (s.resend res))) := by
  unfold resendTo at h
  cases hs : w.connections i with
  | none =>
      rw [hs] at h
      cases h
      exact .inl ⟨rfl, rfl⟩
  | freed => simp [hs] at h
  | live s =>
      rw [hs] at h
      refine .inr ⟨s, rfl, ?_⟩
      cases res with
      | sent n =>
          cases h
          exact .inl ⟨⟨n, rfl⟩, rfl⟩
      | again | failed =>
          cases h
          exact .inr ⟨by simp, rfl⟩

theorem sendReply_ok {k : Kernel} (h : w.sendReply k i = .ok w') :
    (w.connections i = .none ∧ w' = w) ∨ ∃ s, w.connections i = .live s ∧
      let w₁ := (if s.sendBuf ≠ [] then w.awaitWrite (k.send i) i else w).setSlot i
        (.live (s.flush (k.send i)))
      (s.state = .disconnected ∧ w' = w₁.closeConn i) ∨
        (s.state ≠ .disconnected ∧ w' = w₁) := by
  unfold sendReply at h
  cases hs : w.connections i with
  | none =>
      rw [hs] at h
      cases h
      exact .inl ⟨rfl, rfl⟩
  | freed => simp [hs] at h
  | live s =>
      rw [hs] at h
      dsimp only at h
      refine .inr ⟨s, rfl, ?_⟩
      by_cases hstate : s.state = .disconnected
      · rw [if_pos hstate] at h
        cases h
        exact .inl ⟨hstate, rfl⟩
      · rw [if_neg hstate] at h
        cases h
        exact .inr ⟨hstate, rfl⟩

theorem updateConn_cases {e : Env} (h : w.updateConn e i = .ok w') :
    (w.connections i = .none ∧ w' = w) ∨ ∃ s s', w.connections i = .live s ∧
      Server.protocolUpdate e s = .ok s' ∧ w' = w.setSlot i (.live s') := by
  cases hs : w.connections i with
  | none =>
      rw [updateConn, hs] at h
      cases h
      exact .inl ⟨rfl, rfl⟩
  | freed => simp [updateConn, hs] at h
  | live s =>
      refine .inr ⟨s, ?_⟩
      cases hpass : Server.protocolUpdate e s with
      | error stop => cases (updateConn_of_error hs hpass).symm.trans h
      | ok s' =>
          cases (updateConn_of_ok hs hpass).symm.trans h
          exact ⟨s', rfl, rfl, rfl⟩

theorem updateConn_ok {e : Env} {s : Session} (hs : w.connections i = .live s)
    (h : w.updateConn e i = .ok w') :
    ∃ s', Server.protocolUpdate e s = .ok s' ∧ w' = w.setSlot i (.live s') := by
  rcases updateConn_cases h with ⟨hnone, -⟩ | ⟨s₁, s', hs₁, hpass, hw'⟩
  · cases hnone.symm.trans hs
  · cases hs₁.symm.trans hs
    exact ⟨s', hpass, hw'⟩

end Bodies

def protocolUpdate (e : Env) (w : Worker) : Except WorkerStop Worker :=
  run (updateConn e) w (List.range connSize)

def turn (w : Worker) (k : Kernel × Env) : Except WorkerStop Worker := do
  let w ← w.connUpdate k.1
  w.protocolUpdate k.2

end Worker

/-! ### The loop seen from one connection -/

structure Link where
  session : Session
  inRead : Bool
  inWrite : Bool
  deriving DecidableEq

inductive Ready
  /-- `select` fails and the call returns. -/
  | selectFailed
  | idle
  /-- Readable; the text that ends up in `recv_buf`. -/
  | readable (text : CStr)
  | writable (res : SendResult)
  deriving DecidableEq

structure Round where
  ready : Ready
  send : SendResult
  env : Env

inductive LinkEnd
  /-- The connection is disconnected; `conn_update` closes it. -/
  | closed
  | halted (h : Halt)
  deriving DecidableEq, Repr

namespace Link

def accepted (now : Timeval) : Link := ⟨connCreate now, true, false⟩

/-- The first loop; a descriptor is only ready for what it is watched for. -/
def serve (ready : Ready) (l : Link) : Link :=
  match ready with
  | .readable text => if l.inRead then { l with session := l.session.receive text } else l
  | .writable res =>
      if l.inWrite then
        let l := { l with session := l.session.resend res }
        match res with
        | .sent _ => { l with inRead := true, inWrite := false }
        | .again => l
        | .failed => l
      else l
  | .selectFailed => l
  | .idle => l

def flush (res : SendResult) (l : Link) : Link :=
  let l' := { l with session := l.session.flush res }
  if l.session.sendBuf ≠ [] ∧ res = .again then { l' with inRead := false, inWrite := true }
  else l'

def connUpdate (r : Round) (l : Link) : Link :=
  if r.ready = .selectFailed then l else (l.serve r.ready).flush r.send

def protocolUpdate (r : Round) (l : Link) : Except LinkEnd Link :=
  match Server.protocolUpdate r.env l.session with
  | .ok s => .ok { l with session := s }
  | .error h => .error (.halted h)

def round (l : Link) (r : Round) : Except LinkEnd Link :=
  if l.session.state = .disconnected ∧ r.ready ≠ .selectFailed then .error .closed
  else (l.connUpdate r).protocolUpdate r

/-! `conn_update` moves bytes only. -/

@[simp] theorem connUpdate_state (r : Round) (l : Link) :
    (l.connUpdate r).session.state = l.session.state := by
  unfold connUpdate flush serve Session.flush
  grind [Session.receive, Session.resend]

@[simp] theorem connUpdate_letter (r : Round) (l : Link) :
    (l.connUpdate r).session.letter = l.session.letter := by
  unfold connUpdate flush serve Session.flush
  grind [Session.receive, Session.resend]

@[simp] theorem connUpdate_files (r : Round) (l : Link) :
    (l.connUpdate r).session.files = l.session.files := by
  unfold connUpdate flush serve Session.flush
  grind [Session.receive, Session.resend]

@[simp] theorem connUpdate_replies (r : Round) (l : Link) :
    (l.connUpdate r).session.replies = l.session.replies := by
  unfold connUpdate flush serve Session.flush
  grind [Session.receive, Session.resend]

end Link

end SmtpProj.Server
