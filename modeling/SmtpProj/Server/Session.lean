import SmtpProj.Lib.CString
import SmtpProj.Lib.Run
import SmtpProj.Server.Fsm

/-!
The data of one server connection: the letter it is receiving, its buffers and
state, its stopwatch, and what it has produced.

Character buffers are C strings without a size limit, as nothing in the program
limits what it copies into them. A session is the connection as long as its
strings fit their fields; what becomes of one that does not is up to the
machine, see `Outside`. A pointer to a letter is `none` until the first
`letter_create`, and keeps pointing at the letter after it is freed, as
`conn->letter` does. Using a letter that is not allocated, reading outside a
buffer, calling through a null pointer and stepping the automaton where it has
no transition all end what a session can say.
-/

namespace SmtpProj.Server

open Lib

inductive Halt
  /-- `server_step` calls `exit` on an undefined pair. -/
  | badTransition
  /-- A null pointer is read or called. -/
  | nullRead
  /-- A read before the start of a buffer. The process may survive it. -/
  | outOfBounds
  /-- A letter is used or freed that is not allocated. -/
  | badLetter
  deriving DecidableEq, Repr

/-! ### Letters -/

/-- `letter_t`, while its strings fit their fields: 255 bytes each, and 20 MiB for
the body. The field `file` is never used. -/
structure Letter where
  mailFrom : CStr
  rcptTo : CStr
  rcptUsername : CStr
  rcptDomain : CStr
  body : CStr
  deriving DecidableEq

def letterCreate : Letter := ⟨[], [], [], [], []⟩

inductive LetterPtr
  | none
  | live (letter : Letter)
  | freed
  deriving DecidableEq

def letterFree : LetterPtr → Except Halt LetterPtr
  | .live _ => .ok .freed
  | .none => .error .badLetter
  | .freed => .error .badLetter

def LetterPtr.deref : LetterPtr → Except Halt Letter
  | .live letter => .ok letter
  | .none => .error .badLetter
  | .freed => .error .badLetter

/-! ### The clock -/

structure Timeval where
  sec : ℤ
  usec : ℤ
  deriving DecidableEq

def toInt (n : ℤ) : ℤ := n.bmod 0x100000000

def stopwatchWatch (tv2 tv1 : Timeval) : ℤ :=
  let sec := tv2.sec - tv1.sec
  let usec := tv2.usec - tv1.usec
  if usec < 0 then toInt ((sec - 1) * 1000 + (usec + 1000000).tdiv 1000)
  else toInt (sec * 1000 + usec.tdiv 1000)

def connTimeout : ℤ := 30 * 1000

/-! ### Connections -/

/-- `conn_t`. The watch holds the time it was started at. -/
structure Conn where
  sendBuf : CStr
  recvBuf : CStr
  state : ServerState
  oldState : ServerState
  letter : LetterPtr
  watch : Timeval
  deriving DecidableEq

/-- A connection together with what it has done so far: the replies put into
`send_buf`, the directories asked for and the files appended to, and the bytes
its socket has accepted. The program does not read these fields. -/
structure Session extends Conn where
  replies : List CStr
  dirs : List CStr
  files : List (CStr × CStr)
  wire : CStr
  deriving DecidableEq

/-- `conn_create`, with the state and the watch that `conn_update` sets.
`old_state` is not initialised; it is written before it is ever read. -/
def connCreate (now : Timeval) : Session where
  sendBuf := []
  recvBuf := []
  state := .init
  oldState := .init
  letter := .none
  watch := now
  replies := []
  dirs := []
  files := []
  wire := []

namespace Session

def step (ev : ServerEvent) (s : Session) : Except Halt Session :=
  match serverStep s.state ev with
  | some st => .ok { s with state := st }
  | none => .error .badTransition

def reply (text : CStr) (s : Session) : Session :=
  { s with sendBuf := text, replies := s.replies ++ [text] }

theorem step_of_some {s : Session} {ev : ServerEvent} (st : ServerState)
    (h : serverStep s.state ev = some st) : s.step ev = .ok { s with state := st } := by
  simp [step, h]

theorem step_of_none {s : Session} {ev : ServerEvent} (h : serverStep s.state ev = none) :
    s.step ev = .error .badTransition := by
  simp [step, h]

@[simp] theorem reply_state (text : CStr) (s : Session) : (s.reply text).state = s.state := rfl

@[simp] theorem reply_letter (text : CStr) (s : Session) : (s.reply text).letter = s.letter := rfl

@[simp] theorem reply_sendBuf (text : CStr) (s : Session) : (s.reply text).sendBuf = text := rfl

@[simp] theorem reply_replies (text : CStr) (s : Session) :
    (s.reply text).replies = s.replies ++ [text] := rfl

@[simp] theorem reply_wire (text : CStr) (s : Session) : (s.reply text).wire = s.wire := rfl

@[simp] theorem reply_files (text : CStr) (s : Session) : (s.reply text).files = s.files := rfl

@[simp] theorem reply_watch (text : CStr) (s : Session) : (s.reply text).watch = s.watch := rfl

end Session

end SmtpProj.Server
