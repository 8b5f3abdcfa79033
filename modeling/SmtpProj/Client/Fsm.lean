import Mathlib.Data.List.Basic

/-!
The automaton of a client session (`client-fsm.c`).

The table is generated, and its hooks are empty: a step only looks the pair up.
A pair that the table leaves out ends the process. A finished or invalid
automaton goes back to its start whatever the event is.
-/

namespace SmtpProj.Client

inductive Halt
  /-- `client_fsm_step` calls `exit` on a pair without a transition. -/
  | badTransition
  /-- `read_msg_file` calls `exit` on a file it cannot read whole. -/
  | readFailed
  /-- An assertion of `str_split`. -/
  | assertFailed
  /-- A null pointer is read. -/
  | nullRead
  /-- A pointer that was never set is read or freed. -/
  | badPointer
  /-- An array is indexed outside its bounds. -/
  | outOfBounds
  deriving DecidableEq, Repr

inductive ClientState
  | init | sendHelo | sendMailFrom | sendRcptTo | sendData | sendBody | sendQuit | connect
  | invalid | done
  deriving DecidableEq, Repr

inductive ClientEvent
  | ok | error | unsentData | timeout | rtimeExpired | commandNotImplemented
  | multipleRcpts | multipleEmails | invalid
  deriving DecidableEq, Repr

/-- `client_fsm_trans_table`; `none` where the transition is `INVALID`. -/
def clientFsmTransTable : ClientState → ClientEvent → Option ClientState
  | .init, .ok => some .connect
  | .init, .error => some .done
  | .init, .timeout => some .done
  | .sendHelo, .ok => some .sendMailFrom
  | .sendHelo, .error => some .done
  | .sendHelo, .timeout => some .done
  | .sendHelo, .rtimeExpired => some .done
  | .sendMailFrom, .ok => some .sendRcptTo
  | .sendMailFrom, .error => some .done
  | .sendMailFrom, .timeout => some .done
  | .sendRcptTo, .ok => some .sendData
  | .sendRcptTo, .error => some .done
  | .sendRcptTo, .timeout => some .done
  | .sendRcptTo, .multipleRcpts => some .sendRcptTo
  | .sendData, .ok => some .sendBody
  | .sendData, .error => some .done
  | .sendData, .timeout => some .done
  | .sendBody, .ok => some .sendQuit
  | .sendBody, .error => some .done
  | .sendBody, .timeout => some .done
  | .sendBody, .multipleEmails => some .sendMailFrom
  | .sendQuit, .ok => some .init
  | .sendQuit, .error => some .done
  | .sendQuit, .timeout => some .done
  | .connect, .ok => some .sendHelo
  | .connect, .error => some .done
  | .connect, .timeout => some .done
  | _, _ => none

def clientFsmStep : ClientState → ClientEvent → Except Halt ClientState
  | .invalid, _ => .ok .init
  | .done, _ => .ok .init
  | st, ev =>
      match clientFsmTransTable st ev with
      | some st' => .ok st'
      | none => .error .badTransition

end SmtpProj.Client
