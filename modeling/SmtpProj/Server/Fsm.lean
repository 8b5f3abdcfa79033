import Mathlib.Data.List.Basic

/-!
The automaton of the SMTP dialogue.

`server_step` is generated from the transition list of `smtp.tpl` and is not
part of the sources, so the table here is that list, line by line. The
generated stepper behaves as the client's one does: a pair without a
transition ends the process, and stepping a finished automaton starts it
again.
-/

namespace SmtpProj.Server

inductive ServerState
  | init | connected | disconnected | ready
  | processHelo | processEhlo | processQuit | processVrfy | processRset | processTimeout
  | expectMail | processMail
  | expectRcpt | processRcpt
  | expectData | processData
  | expectDataRecv | processDataRecv | processDataEnd
  | invalid | done
  deriving DecidableEq, Repr

inductive ServerEvent
  | connect | timeout | ok | err
  | quit | rset | vrfy | helo | ehlo | mail | rcpt | data | dataRecv | dataEnd
  deriving DecidableEq, Repr

def serverStep : ServerState → ServerEvent → Option ServerState
  -- the generated stepper resets a finished automaton
  | .invalid, _ => some .init
  | .done, _ => some .init
  | .init, .connect => some .connected
  | .connected, .ok => some .ready
  | .disconnected, .ok => some .done
  -- QUIT
  | .connected, .quit => some .processQuit
  | .ready, .quit => some .processQuit
  | .expectMail, .quit => some .processQuit
  | .expectRcpt, .quit => some .processQuit
  | .expectData, .quit => some .processQuit
  | .processQuit, .ok => some .disconnected
  -- TIMEOUT
  | .ready, .timeout => some .processTimeout
  | .expectMail, .timeout => some .processTimeout
  | .expectRcpt, .timeout => some .processTimeout
  | .expectData, .timeout => some .processTimeout
  | .processTimeout, .ok => some .disconnected
  -- RSET
  | .ready, .rset => some .processRset
  | .expectMail, .rset => some .processRset
  | .expectRcpt, .rset => some .processRset
  | .expectData, .rset => some .processRset
  | .processRset, .ok => some .ready
  -- VRFY; the way back is commented out in the definition file
  | .ready, .vrfy => some .processVrfy
  | .expectMail, .vrfy => some .processVrfy
  | .expectRcpt, .vrfy => some .processVrfy
  | .expectData, .vrfy => some .processVrfy
  -- HELO
  | .ready, .helo => some .processHelo
  | .processHelo, .err => some .ready
  | .processHelo, .ok => some .expectMail
  -- EHLO
  | .ready, .ehlo => some .processEhlo
  | .processEhlo, .err => some .ready
  | .processEhlo, .ok => some .expectMail
  -- MAIL
  | .expectMail, .mail => some .processMail
  | .processMail, .err => some .expectMail
  | .processMail, .ok => some .expectRcpt
  -- RCPT
  | .expectRcpt, .rcpt => some .processRcpt
  | .processRcpt, .err => some .expectRcpt
  | .processRcpt, .ok => some .expectData
  -- DATA
  | .expectData, .data => some .processData
  | .processData, .err => some .expectData
  | .processData, .ok => some .expectDataRecv
  -- DATA RECV
  | .expectDataRecv, .dataRecv => some .processDataRecv
  | .expectDataRecv, .dataEnd => some .processDataEnd
  | .processDataRecv, .err => some .expectDataRecv
  | .processDataRecv, .ok => some .expectDataRecv
  -- DATA END
  | .processDataEnd, .ok => some .expectMail
  | _, _ => none

def ServerEvent.isCommand : ServerEvent → Bool
  | .connect | .timeout | .ok | .err => false
  | _ => true

def ServerState.isWaiting : ServerState → Bool
  | .ready | .expectMail | .expectRcpt | .expectData | .expectDataRecv => true
  | _ => false

def ServerState.inMail : ServerState → Bool
  | .expectRcpt | .processRcpt | .expectData | .processData
  | .expectDataRecv | .processDataRecv | .processDataEnd => true
  | _ => false

/-- A received line never opens a mail transaction by itself. -/
theorem serverStep_inMail {st st' : ServerState} {ev : ServerEvent}
    (hev : ev.isCommand = true) (h : serverStep st ev = some st') (hin : st'.inMail = true) :
    st.inMail = true := by
  cases st <;> cases ev <;> simp [ServerEvent.isCommand] at hev <;>
    simp [serverStep] at h <;> subst h <;> first | rfl | cases hin

end SmtpProj.Server
