import Mathlib.Data.Finset.Basic
import Mathlib.Logic.Function.Basic
import SmtpProj.Lib.Run
import SmtpProj.Client.Strings

/-!
A client process (`domain_proc.c`, `smtp_client.c`): the descriptors of the
mail domains it serves, and the three calls its loop makes on them.

The process has one place of `strtok`, one pair of watched sets and one table
of descriptors; a descriptor has the letters of its domain and the session that
sends them. What a call does to the outside is recorded in `log`, and what the
kernel answers during a call comes with the operation. A socket is known by its
descriptor number, and `sockets` says for whom an open number was opened.

The slots beyond `readyDomainsCount` are memory that was never written. After a
registration, and after a letter is freed, `strtok` goes on in freed memory; what
it finds there comes with the operation as well.
-/

namespace SmtpProj.Client

open Lib

/-! ### Data -/

/-- The values of the configuration file that the modelled functions read, and
the name of the host. -/
structure Conf where
  mailDir : CStr
  hostName : CStr
  totalSendTime : ℤ
  retryTime : ℤ

/-- `mail_domain_dscrptr`. `request_buf` is the text handed to `send_data`, and
has no field of its own. -/
structure Dscrptr where
  domain : CStr
  socketFd : ℤ
  mailsList : List (Option CStr)
  state : ClientState
  buffer : Option CStr
  retryTime : ℤ
  totalSendTime : ℤ
  numberOfAttempts : ℤ
  lastAttemptTime : ℤ
  canBeSend : ℤ
  currRcptsIndex : ℤ
  /-- Whether the text that was read last is freed; the program does not know. -/
  textFreed : Bool
  deriving DecidableEq

inductive Event
  /-- A connection was opened for slot `j`. -/
  | connected (j : ℕ)
  /-- The session of slot `j` read the letter at `path`. -/
  | took (j : ℕ) (path : CStr) (text : Option CStr)
  /-- A file was renamed. -/
  | moved (path target : CStr)
  /-- A socket opened for slot `k` accepted `bytes`. -/
  | sent (k : ℕ) (bytes : CStr)
  /-- The session of slot `j`, in `state`, read a reply. -/
  | answered (j : ℕ) (state : ClientState) (reply : CStr)
  deriving DecidableEq

def maxMailDomainNum : ℕ := 50

structure Child where
  conf : Conf
  dscrptrs : ℕ → Dscrptr
  readyDomainsCount : ℕ
  readFds : Finset ℤ
  writeFds : Finset ℤ
  exceptFds : Finset ℤ
  maxFd : ℤ
  /-- Where `strtok` goes on; null before its first call. -/
  place : Option CStr
  /-- The slot that `strtok` was last called for. -/
  placeUser : Option ℕ
  /-- The slot whose letter `strtok` goes on in; none when it was last called for
  a path, whose text is freed. -/
  placeOwner : Option ℕ
  files : CStr → Option (List Char)
  sockets : ℤ → Option ℕ
  log : List Event

def bootChild (conf : Conf) (files : CStr → Option (List Char)) (memory : ℕ → Dscrptr) : Child where
  conf := conf
  dscrptrs := memory
  readyDomainsCount := 0
  readFds := ∅
  writeFds := ∅
  exceptFds := ∅
  maxFd := 0
  place := none
  placeUser := none
  placeOwner := none
  files := files
  sockets := fun _ => none
  log := []

/-! ### The texts of a session -/

def sendHelo (hostName : CStr) : CStr := "HELO ".toList ++ hostName ++ "\n".toList

/-- `send_mail_from`, up to the call of `send_data`. The token is used
unchecked. -/
def sendMailFrom (place msg : Option CStr) : Except Halt (CStr × CStr) := do
  match ← strtok place msg with
  | (none, _) => .error .nullRead
  | (some token, place) => .ok ("MAIL FROM: <".toList ++ token ++ ">\n".toList, place)

/-- `send_rcpt_to`. The parameter `msg` is not used. -/
def sendRcptTo (place _msg : Option CStr) : Except Halt (CStr × CStr) := do
  match ← strtok place none with
  | (none, _) => .error .nullRead
  | (some token, place) => .ok ("RCPT TO:<".toList ++ token ++ ">\n".toList, place)

def sendDataMsg : CStr := "DATA\n".toList

def endOfBody : CStr := "\r\n.\r\n".toList

/-- `send_msg_body`: the tokens that are left, one text each, and the end
mark. -/
def sendMsgBody (place : Option CStr) : Except Halt (List CStr × CStr) :=
  match place with
  | none => .error .nullRead
  | some text => .ok ((tokens '\n' text).map (· ++ "\n".toList) ++ [endOfBody], [])

def sendQuit : CStr := "QUIT\n".toList

/-! ### Sending -/

/-- What `send_msg_to_server` returns: 0, -1, -2 and -3. -/
inductive SendCode
  | sent
  | failed
  | waiting
  | expired
  deriving DecidableEq, Repr

structure Sending where
  dscrptr : Dscrptr
  /-- Where `strtok` goes on, if it was called. -/
  place : Option CStr
  /-- The letter that is read and renamed. -/
  taken : Option CStr
  /-- The texts handed to `send_data`, in order. -/
  data : List CStr
  /-- The return value, if it comes before the switch. -/
  early : Option SendCode

namespace Dscrptr

def retry (now : ℤ) (d : Dscrptr) : Dscrptr × Option SendCode :=
  if d.lastAttemptTime ≠ 0 then
    if now - d.lastAttemptTime ≥ d.retryTime ∧ d.totalSendTime ≤ d.totalSendTime then
      ({ d with canBeSend := 1 }, none)
    else if d.totalSendTime > d.totalSendTime then ({ d with canBeSend := -1 }, some .expired)
    else (d, some .waiting)
  else (d, none)

def sendCommand (hostName : CStr) (files : CStr → Option (List Char)) (place : Option CStr)
    (d : Dscrptr) : Except Halt Sending :=
  match d.state with
  | .sendHelo => .ok ⟨d, none, none, [sendHelo hostName], none⟩
  | .sendMailFrom =>
      match d.mailsList with
      | [] => .error .nullRead
      | none :: _ => .error .badPointer
      | some path :: _ => do
          let buffer ← readMsgFile (files path)
          let (text, place) ← sendMailFrom place buffer
          .ok ⟨{ d with buffer := buffer, textFreed := buffer.isNone && d.textFreed },
            some place, some path, [text], none⟩
  | .sendRcptTo => do
      let (text, place) ← sendRcptTo place d.buffer
      .ok ⟨d, some place, none, [text], none⟩
  | .sendData => .ok ⟨d, none, none, [sendDataMsg], none⟩
  | .sendBody => do
      let (data, place) ← sendMsgBody place
      .ok ⟨d, some place, none, data, none⟩
  | .sendQuit => .ok ⟨d, none, none, [sendQuit], none⟩
  | .init | .connect | .invalid | .done => .ok ⟨d, none, none, [], none⟩

def sendMsgToServer (now : ℤ) (hostName : CStr) (files : CStr → Option (List Char))
    (place : Option CStr) (d : Dscrptr) : Except Halt Sending :=
  match d.retry now with
  | (d, some code) => .ok ⟨d, none, none, [], some code⟩
  | (d, none) => d.sendCommand hostName files place

end Dscrptr

/-- `send_data` on a socket opened for `owner`, or on a closed one. A `write`
that takes a part of the text passes for success. -/
def sendData (owner : Option ℕ) (data : CStr) (res : Option ℕ) : SendCode × List Event :=
  match owner, res with
  | some k, some n => (.sent, [.sent k (data.take n)])
  | _, _ => (.failed, [])

/-- The calls of `send_data` in one step; `writes` are the results of `write`,
and the result is that of the last call. -/
def sendAll (owner : Option ℕ) (writes : ℕ → Option ℕ) : ℕ → List CStr → SendCode × List Event
  | _, [] => (.sent, [])
  | n, data :: rest =>
      let (code, events) := sendData owner data (writes n)
      let (codeRest, eventsRest) := sendAll owner writes (n + 1) rest
      (if rest = [] then code else codeRest, events ++ eventsRest)

/-! ### Receiving -/

/-- The result of `recv`: 1 to 1023 bytes, 0 at the end of the stream, or -1. -/
inductive RecvResult
  | bytes (b : List Char)
  | closed
  | failed
  deriving DecidableEq, Repr

def readLoop (msg : CStr) : List RecvResult → Option CStr
  | .bytes b :: results =>
      let msg := msg ++ upToNul b
      if (strstr "\r\n".toList msg).isSome then some msg else readLoop msg results
  | .closed :: _ => some msg
  | .failed :: _ => none
  | [] => none

def readDataFromServer (results : List RecvResult) : Option CStr := readLoop [] results

def replyCode (response : CStr) : ℤ := atoi (response.take 3)

def checkServerCode (response : CStr) : ClientEvent :=
  let code := replyCode response
  if code < 200 ∨ (code > 300 ∧ code ≠ 354) then
    if code = 502 ∧ (strstr "not implemented".toList response).isSome then .commandNotImplemented
    else .error
  else .ok

/-- What `handle_read_socket` does to the letters and the state. `free(buffer)`
leaves the pointer as it is. -/
def Dscrptr.advance (event : ClientEvent) (d : Dscrptr) : Except Halt Dscrptr :=
  if d.state = .sendBody ∧ event ≠ .error then do
    let mails ← removeFirst d.mailsList
    let state ← clientFsmStep d.state (if count mails > 0 then .multipleEmails else event)
    .ok { d with
      mailsList := mails, state := state, textFreed := d.buffer.isSome || d.textFreed }
  else do
    let state ← clientFsmStep d.state event
    .ok { d with state := state }

/-! ### Registering -/

namespace Dscrptr

def initConn (connected : Option ℕ) (d : Dscrptr) : Except Halt Dscrptr := do
  let state ← clientFsmStep d.state .ok
  match connected with
  | some fd =>
      .ok { d with
        state := state, socketFd := fd, numberOfAttempts := 0, lastAttemptTime := 0
        currRcptsIndex := -1 }
  | none => do
      let state ← clientFsmStep state .error
      .ok { d with state := state }

/-- The letter is put in front of the list, or left out if the domain could
not be reached. -/
def enqueue (path : CStr) (d : Dscrptr) : Dscrptr :=
  if d.state = .done then
    { d with socketFd := -1, numberOfAttempts := 0, lastAttemptTime := 0, currRcptsIndex := -1 }
  else { d with mailsList := addFirst path d.mailsList }

end Dscrptr

/-! ### The process -/

/-- `rename(path, str_replace(path, "new", "cur"))` on a file that is there. -/
def moveFile (path : CStr) (files : CStr → Option (List Char)) : CStr → Option (List Char) :=
  Function.update (Function.update files path none) (renameTarget path) (files path)

structure WriteKernel where
  now : ℤ
  /-- The results of `write`: the number of bytes taken, or -1. -/
  writes : ℕ → Option ℕ
  /-- Whether `rename` finds nothing wrong with the target. -/
  renames : Bool
  /-- What `strtok` finds where it goes on, if that text was freed. -/
  freed : CStr

namespace Child

/-- `strtok` goes on in a text that was freed. -/
def Dangles (c : Child) : Prop := ∀ j ∈ c.placeOwner, (c.dscrptrs j).textFreed = true

instance (c : Child) : Decidable c.Dangles :=
  decidable_of_iff (∀ j ∈ c.placeOwner, (c.dscrptrs j).textFreed = true) Iff.rfl

/-- The text in which `strtok` goes on. -/
def placeAt (k : WriteKernel) (c : Child) : Option CStr :=
  if c.Dangles then c.place.map fun _ => k.freed else c.place

def setDscrptr (j : ℕ) (d : Dscrptr) (c : Child) : Child :=
  { c with dscrptrs := Function.update c.dscrptrs j d }

def close (fd : ℤ) (c : Child) : Child :=
  { c with sockets := Function.update c.sockets fd none }

def record (events : List Event) (c : Child) : Child := { c with log := c.log ++ events }

/-- The letter whose file is renamed: the one that is taken, if the file is
there and the kernel finds nothing wrong with the target. -/
def renamed (k : WriteKernel) (r : Sending) (c : Child) : Option CStr :=
  r.taken.filter fun path => k.renames && (c.files path).isSome

def applySending (k : WriteKernel) (j : ℕ) (r : Sending) (c : Child) : Child :=
  { c.setDscrptr j r.dscrptr with
    place := r.place.or c.place
    placeUser := if r.place.isSome then some j else c.placeUser
    placeOwner := if r.taken.isSome ∧ r.dscrptr.buffer.isSome then some j else c.placeOwner
    files := match c.renamed k r with
      | some path => moveFile path c.files
      | none => c.files
    log := c.log ++ (r.taken.toList.map fun path => .took j path r.dscrptr.buffer) ++
      (c.renamed k r).toList.map fun path => .moved path (renameTarget path) }

def transmit (k : WriteKernel) (r : Sending) (c : Child) : SendCode × List Event :=
  match r.early with
  | some code => (code, [])
  | none => sendAll (c.sockets r.dscrptr.socketFd) k.writes 0 r.data

/-- The branches of `handle_write_socket`. The state that is computed when the
time is over is compared, and not kept. -/
def afterSend (code : SendCode) (d : Dscrptr) (c : Child) : Except Halt Child :=
  match code with
  | .failed => .ok (c.close d.socketFd)
  | .waiting => .ok { c with writeFds := insert d.socketFd (c.writeFds.erase d.socketFd) }
  | .expired => do
      let _ ← clientFsmStep d.state .rtimeExpired
      .ok { c with writeFds := c.writeFds.erase d.socketFd }
  | .sent =>
      .ok { c with
        writeFds := c.writeFds.erase d.socketFd
        readFds := insert d.socketFd c.readFds }

/-- `handle_write_socket`. What it has done before it ends the process is not in
the result (`renamedFirst`). -/
def handleWriteSocket (k : WriteKernel) (j : ℕ) (c : Child) : Except Halt Child := do
  let r ← (c.dscrptrs j).sendMsgToServer k.now c.conf.hostName c.files (c.placeAt k)
  let (code, events) := c.transmit k r
  ((c.applySending k j r).record events).afterSend code r.dscrptr

/-- The letter whose file a call has renamed when it comes to the text of its
command. A letter with nothing but newlines ends the process there. -/
def renamedFirst (k : WriteKernel) (j : ℕ) (c : Child) : Option CStr :=
  match (c.dscrptrs j).mailsList with
  | some path :: _ =>
      if (c.dscrptrs j).state = .sendMailFrom ∧ ((c.dscrptrs j).retry k.now).2 = none ∧
        k.renames = true ∧ ((c.files path).any (· ≠ [])) = true then some path else none
  | none :: _ => none
  | [] => none

/-- The end of `handle_read_socket`: a session that is back at its start gives
its socket up. -/
def afterReply (d : Dscrptr) (c : Child) : Child :=
  { c with
    sockets := if d.state = .init then Function.update c.sockets d.socketFd none else c.sockets
    writeFds :=
      if d.state = .init then c.writeFds.erase d.socketFd else insert d.socketFd c.writeFds
    readFds := c.readFds.erase d.socketFd }

def receive (results : List RecvResult) (d : Dscrptr) (c : Child) : Option CStr :=
  if (c.sockets d.socketFd).isSome then readDataFromServer results else none

/-- `handle_read_socket`. A null reply is handed on to `check_server_code`. -/
def handleReadSocket (results : List RecvResult) (j : ℕ) (c : Child) : Except Halt Child :=
  match c.receive results (c.dscrptrs j) with
  | none => .error .nullRead
  | some reply => do
      let d ← (c.dscrptrs j).advance (checkServerCode reply)
      .ok (((c.setDscrptr j d).record [.answered j (c.dscrptrs j).state reply]).afterReply d)

def openSocket (connected : Option ℕ) (j : ℕ) (c : Child) : Child :=
  match connected with
  | some fd =>
      { c.record [.connected j] with
        readFds := insert (fd : ℤ) c.readFds
        exceptFds := insert (fd : ℤ) c.exceptFds
        sockets := Function.update c.sockets fd (some j) }
  | none => c

/-- `init_mail_domain_conn_settings`; `connected` is the new socket, if the
connection succeeds. -/
def initMailDomainConnSettings (connected : Option ℕ) (j : ℕ) (c : Child) : Except Halt Child := do
  let d ← (c.dscrptrs j).initConn connected
  .ok ((c.setDscrptr j d).openSocket connected j)

def enqueue (path : CStr) (j : ℕ) (c : Child) : Child :=
  let d := c.dscrptrs j
  { c.setDscrptr j (d.enqueue path) with
    readFds := if d.state = .done then c.readFds.erase d.socketFd else c.readFds
    exceptFds := if d.state = .done then c.exceptFds.erase d.socketFd else c.exceptFds }

def findDomain (domain : CStr) (c : Child) : Option ℕ :=
  (List.range c.readyDomainsCount).foldl
    (fun found i => if domain = (c.dscrptrs i).domain then some i else found) none

def nextDscrptr (domain : CStr) (c : Child) : Dscrptr :=
  { c.dscrptrs c.readyDomainsCount with
    domain := domain
    totalSendTime := c.conf.totalSendTime
    retryTime := c.conf.retryTime }

def registerDomain (connected : Option ℕ) (domain : CStr) (c : Child) : Except Halt Child :=
  let j := c.readyDomainsCount
  if j < maxMailDomainNum then do
    let c ← (c.setDscrptr j (c.nextDscrptr domain)).initMailDomainConnSettings connected j
    let c := { c with maxFd := max c.maxFd (c.dscrptrs j).socketFd }
    .ok { c.setDscrptr j { c.dscrptrs j with mailsList := [none] } with readyDomainsCount := j + 1 }
  else .error .outOfBounds

def reopenDomain (connected : Option ℕ) (j : ℕ) (c : Child) : Except Halt Child :=
  if count (c.dscrptrs j).mailsList = 0 ∨ (c.dscrptrs j).state = .init then
    c.initMailDomainConnSettings connected j
  else .ok c

/-- `register_new_email`. The last `str_split` leaves `strtok` at the end of the
text it was given, which is freed. -/
def registerNewEmail (connected : Option ℕ) (path : CStr) (c : Child) : Except Halt Child := do
  let domain ← emailDomain path
  let j := (c.findDomain domain).getD c.readyDomainsCount
  let c' := { c with place := some [], placeUser := some j, placeOwner := none }
  let c' ← match c.findDomain domain with
    | none => c'.registerDomain connected domain
    | some j => c'.reopenDomain connected j
  .ok (c'.enqueue path j)

end Child

/-! ### Runs -/

inductive Op
  | register (path : CStr) (connected : Option ℕ)
  | write (j : ℕ) (k : WriteKernel)
  | read (j : ℕ) (results : List RecvResult)
  /-- `select` leaves the ready descriptors in the sets. -/
  | select (readReady writeReady exceptReady : Finset ℤ)

def Child.step (c : Child) : Op → Except Halt Child
  | .register path connected => c.registerNewEmail connected path
  | .write j k => c.handleWriteSocket k j
  | .read j results => c.handleReadSocket results j
  | .select readReady writeReady exceptReady =>
      .ok { c with
        readFds := c.readFds ∩ readReady
        writeFds := c.writeFds ∩ writeReady
        exceptFds := c.exceptFds ∩ exceptReady }

/-- What the process has done behind a call. One that ends the process has no
result, but it may have renamed a file. -/
def Child.logAfter (c : Child) (op : Op) : List Event :=
  match c.step op, op with
  | .ok c', _ => c'.log
  | .error _, .write j k =>
      c.log ++ (c.renamedFirst k j).toList.map fun path => .moved path (renameTarget path)
  | .error _, .register _ _ => c.log
  | .error _, .read _ _ => c.log
  | .error _, .select _ _ _ => c.log

/-! ### A small process -/

def zeroDscrptr : Dscrptr := ⟨[], 0, [], .init, none, 0, 0, 0, 0, 0, 0, false⟩

def sampleLetter (domain : String) : CStr := ("m/u/new/1.2." ++ domain).toList

def sampleFiles (path : CStr) : Option (List Char) :=
  if path = sampleLetter "a.b" then some "s@a\nr@a\nhi\n".toList
  else if path = sampleLetter "c.d" then some "s@c\nr@c\nyo\n".toList
  else none

def sampleChild : Child :=
  bootChild ⟨"m/".toList, "h".toList, 120, 10⟩ sampleFiles fun _ => zeroDscrptr

def sampleWrites : WriteKernel := ⟨0, fun _ => some 1024, true, []⟩

def sampleReply (code : String) : List RecvResult := [.bytes (code ++ " ok\r\n").toList]

def upToMailFrom (j : ℕ) : List Op :=
  [.read j (sampleReply "220"), .write j sampleWrites, .read j (sampleReply "250"),
    .write j sampleWrites]

def upToBody (j : ℕ) : List Op :=
  [.read j (sampleReply "250"), .write j sampleWrites, .read j (sampleReply "250"),
    .write j sampleWrites, .read j (sampleReply "354"), .write j sampleWrites]

end SmtpProj.Client
