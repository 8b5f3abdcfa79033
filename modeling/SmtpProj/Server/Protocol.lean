import SmtpProj.Server.Pattern
import SmtpProj.Server.Session

/-!
`protocol.c` on one connection: the command handlers, the table that binds
them to the processing states, and the pass of `protocol_update`.

A pass reads the clock once. What lies outside the process is in `Env`: the
clock, the process id, the mail directory, and which files `fopen` can create
or append to.
-/

namespace SmtpProj.Server

open Lib

structure Env where
  now : Timeval
  pid : ℤ
  /-- `maildir_base[USR_LOCAL]`. -/
  usrLocal : CStr
  creatable : CStr → Bool

/-! ### Replies -/

def response220 : CStr := "220 example.com\r\n".toList
def response221 : CStr := "221 Closing connection\r\n".toList
def response250 : CStr := "250 Ok\r\n".toList
def response354 : CStr := "354 Start mail input; end with <CRLF>.<CRLF>\r\n".toList
def response451 : CStr :=
  "451 Requested action aborted: local error in processing\r\n".toList
def response500 : CStr := "500 Invalid command\r\n".toList
def response501 : CStr := "501 Syntax error in parameters or arguments\r\n".toList
def response502 : CStr := "502 Command not implemented\r\n".toList
def response554 : CStr := "554 Transaction failed\r\n".toList
def responseHelo : CStr := "250 example.com\r\n".toList
def responseSaved : CStr :=
  "250 Mail is saved on disk and will be queued for forwarding\r\n".toList
def responseTimeout : CStr := "421 Server Error: timeout exceeded\r\n".toList

def crlf : CStr := ['\r', '\n']

def dataMark : CStr := ['\r', '\n', '.', '\r', '\n']

/-! ### The mail directory -/

def maildirEnsureUser (e : Env) (username : CStr) : List CStr :=
  let userdir := e.usrLocal ++ ['/'] ++ username
  [userdir, userdir ++ "/new".toList, userdir ++ "/cur".toList, userdir ++ "/tmp".toList]

def maildirGetFname (e : Env) (username domain : CStr) : CStr :=
  let userdir := e.usrLocal ++ ['/'] ++ username
  let newdir := userdir ++ ['/'] ++ "new".toList
  let timestamp := toInt (e.now.sec * 1000 + e.now.usec.tdiv 1000)
  let filename := decimal e.pid ++ ['.'] ++ decimal timestamp ++ ['.'] ++ domain ++ ".mbox".toList
  newdir ++ ['/'] ++ filename

/-! ### The handlers -/

/-- A handler gets the captured argument, or a null pointer. -/
abbrev Handler := Env → Session → Option CStr → Except Halt Session

def processHelo : Handler := fun _ s _ => do
  let s ← s.step .ok
  .ok (s.reply responseHelo)

def processEhlo : Handler := fun _ s _ => do
  let s ← s.step .ok
  .ok (s.reply responseHelo)

def processMail : Handler := fun _ s data =>
  match data with
  | none => do
      let s ← s.step .err
      .ok (s.reply response451)
  | some data => do
      let s ← s.step .ok
      let s := { s with letter := .live { letterCreate with mailFrom := data } }
      .ok (s.reply response250)

/-- The recipient is stored before the address is split, and the halves are
read without asking whether it could be. `strcpy` does not ask for the sizes of
the fields either: from 255 bytes on `Outside.pass` takes the place of this. -/
def processRcpt : Handler := fun _ s data =>
  match data with
  | none => do
      let s ← s.step .err
      .ok (s.reply response501)
  | some data => do
      let s ← s.step .ok
      let letter ← s.letter.deref
      match patternEmail data with
      | none => .error .nullRead
      | some (username, domain) =>
          let letter :=
            { letter with rcptTo := data, rcptUsername := username, rcptDomain := domain }
          .ok ({ s with letter := .live letter }.reply response250)

def processData : Handler := fun _ s _ => do
  let s ← s.step .ok
  .ok (s.reply response354)

def appendBody (s : Session) (data : CStr) : Except Halt Session := do
  let letter ← s.letter.deref
  .ok { s with letter := .live { letter with body := letter.body ++ data ++ crlf } }

/-- `process_data_end` adds the text it is given, if there is any. -/
def appendText (s : Session) : Option CStr → Except Halt Session
  | none => .ok s
  | some [] => .ok s
  | some (c :: cs) => appendBody s (c :: cs)

def saveLetter (e : Env) (s : Session) : Except Halt Session := do
  let letter ← s.letter.deref
  let s := { s with dirs := s.dirs ++ maildirEnsureUser e letter.rcptUsername }
  let filename := maildirGetFname e letter.rcptUsername letter.rcptDomain
  if e.creatable filename = false then
    .ok { s.reply response554 with state := .ready }
  else do
    let text := letter.mailFrom ++ ['\n'] ++ letter.rcptTo ++ ['\n'] ++ letter.body ++ ['\n']
    let s := { s with files := s.files ++ [(filename, text)] }
    let letter ← letterFree s.letter
    let s := { s with letter := letter }.reply responseSaved
    s.step .ok

def processDataEnd : Handler := fun e s data => do
  let s ← appendText s data
  saveLetter e s

/-- The last five bytes are read at `data[strlen(data) - 5]`, whatever the
length. What stands in front of a shorter text decides what is done with it:
`shortUpdate` goes on from there. -/
def processDataRecv : Handler := fun e s data =>
  match data with
  | none => .error .nullRead
  | some data =>
      if data.length < 5 then .error .outOfBounds
      else if data.drop (data.length - 5) = dataMark then do
        let s ← { s with oldState := s.state }.step .ok
        let s ← s.step .dataEnd
        processDataEnd e s (some data)
      else do
        let s ← appendBody s data
        s.step .ok

def processRset : Handler := fun _ s _ => do
  let letter ← letterFree s.letter
  let s ← { s with letter := letter }.step .ok
  .ok (s.reply response250)

def processVrfy : Handler := fun _ s _ =>
  .ok ({ s with state := s.oldState }.reply response502)

def processQuit : Handler := fun _ s _ => do
  let s ← s.step .ok
  .ok (s.reply response221)

/-! ### The tables of `protocol_init` -/

/-- `event_map`. The entries that are not set hold 0, the first event. -/
def eventMap : PatternType → ServerEvent
  | .ptHelo => .helo
  | .ptEhlo => .ehlo
  | .ptMail => .mail
  | .ptData => .data
  | .ptRcpt => .rcpt
  | .ptDataEnd => .dataEnd
  | .ptDataRecv => .dataRecv
  | .ptVrfy => .vrfy
  | .ptRset => .rset
  | .ptQuit => .quit
  | .ptStart | .ptEmail | .ptEnd => .connect

def processBind : ServerState → Option Handler
  | .processHelo => some processHelo
  | .processEhlo => some processEhlo
  | .processMail => some processMail
  | .processRcpt => some processRcpt
  | .processData => some processData
  | .processDataEnd => some processDataEnd
  | .processDataRecv => some processDataRecv
  | .processVrfy => some processVrfy
  | .processRset => some processRset
  | .processQuit => some processQuit
  | _ => none

/-! ### `protocol_update` -/

/-- The scan found no command, or message text outside the data state. -/
def noMatch (type : PatternType) (st : ServerState) : Bool :=
  type == .ptEnd || (type == .ptDataRecv && st != .expectDataRecv)

def dispatch (e : Env) (s : Session) (type : PatternType) (content : Option CStr) :
    Except Halt Session := do
  let s ← { s with oldState := s.state }.step (eventMap type)
  match processBind s.state with
  | none => .error .nullRead
  | some handler => handler e s (if type = .ptDataRecv then some s.recvBuf else content)

def updateRecv (e : Env) (s : Session) : Except Halt Session := do
  let scan := patternScan s.recvBuf
  let s ← (if noMatch scan.1 s.state then .ok (s.reply response500)
    else dispatch e s scan.1 scan.2)
  .ok { s with recvBuf := [], watch := e.now }

def updateInit (s : Session) : Except Halt Session := do
  let s ← { s with oldState := s.state }.step .connect
  let s ← { s with oldState := s.state }.step .ok
  .ok (s.reply response220)

def updateTimeout (s : Session) : Session :=
  { s with oldState := s.state, state := .disconnected }.reply responseTimeout

def protocolUpdate (e : Env) (s : Session) : Except Halt Session := do
  let s ← (if s.recvBuf ≠ [] then updateRecv e s else .ok s)
  let s ← (if s.state = .init then updateInit s else .ok s)
  .ok (if stopwatchWatch e.now s.watch > connTimeout then updateTimeout s else s)

/-! ### What a handler does

A handler is entered in its own processing state, and there every step it asks
for has a transition. -/

/-- While a mail transaction is open, the connection has a letter. -/
def LetterReady (s : Session) : Prop :=
  s.state.inMail = true → ∃ letter, s.letter = .live letter

structure Replied (s s' : Session) : Prop where
  wire : s'.wire = s.wire
  reply : (s'.replies = s.replies ∧ s'.sendBuf = s.sendBuf) ∨
    ∃ text, text ≠ [] ∧ s'.replies = s.replies ++ [text] ∧ s'.sendBuf = text

structure Answered (s s' : Session) : Prop extends Replied s s' where
  recvBuf : s'.recvBuf = s.recvBuf
  watch : s'.watch = s.watch

structure Handled (s s' : Session) : Prop extends Answered s s' where
  state : s'.state.isWaiting = true ∨ s'.state = .disconnected ∨ s'.state = s.oldState
  letter : LetterReady s → LetterReady { s with state := s.oldState } → LetterReady s'

/-- The computation completes in a state that `P` describes, or stops the
process, but not for want of a transition. -/
abbrev FaultsOr (P : Session → Prop) (x : Except Halt Session) : Prop :=
  Ends P (· ≠ .badTransition) x

theorem FaultsOr.letter {α : Type} {P : Session → Prop} {x : Except Halt α}
    {f : α → Except Halt Session} (hx : ∀ h, x = .error h → h ≠ .badTransition)
    (hf : ∀ a, x = .ok a → FaultsOr P (f a)) : FaultsOr P (x >>= f) := by
  cases x with
  | error h => exact .error (hx h rfl)
  | ok a => exact hf a rfl

theorem FaultsOr.step {P : Session → Prop} {s : Session} {ev : ServerEvent} (st : ServerState)
    {f : Session → Except Halt Session} (h : serverStep s.state ev = some st)
    (hf : FaultsOr P (f { s with state := st })) : FaultsOr P (s.step ev >>= f) := by
  rw [Session.step_of_some st h]
  exact hf

theorem LetterPtr.deref_error {p : LetterPtr} {h : Halt} (hp : p.deref = .error h) :
    h ≠ .badTransition := by
  cases p <;> cases hp <;> simp

theorem letterFree_error {p : LetterPtr} {h : Halt} (hp : letterFree p = .error h) :
    h ≠ .badTransition := by
  cases p <;> cases hp <;> simp

variable {e : Env} {s : Session} {data : Option CStr}

theorem appendBody_spec (s : Session) (text : CStr) :
    FaultsOr (fun s' => ∃ letter : Letter, s.letter = .live letter ∧
      s' = { s with letter := .live { letter with body := letter.body ++ text ++ crlf } })
      (appendBody s text) := by
  refine .letter (fun h => LetterPtr.deref_error) fun letter hletter => .ok ⟨letter, ?_, rfl⟩
  cases hs : s.letter <;> rw [hs] at hletter <;> cases hletter
  rfl

theorem appendText_spec (s : Session) (data : Option CStr) :
    FaultsOr (fun s' => ∃ p, s' = { s with letter := p }) (appendText s data) := by
  match data with
  | none => exact .ok ⟨s.letter, rfl⟩
  | some [] => exact .ok ⟨s.letter, rfl⟩
  | some (c :: cs) => exact (appendBody_spec s (c :: cs)).mono fun s' ⟨_, _, hs'⟩ => ⟨_, hs'⟩

/-- The end of the mail input leaves the transaction on both outcomes. -/
theorem processDataEnd_spec (hst : s.state = .processDataEnd) :
    FaultsOr (fun s' => Answered s s' ∧ (s'.state = .ready ∨ s'.state = .expectMail))
      (processDataEnd e s data) := by
  unfold processDataEnd
  refine (appendText_spec s data).bind ?_
  rintro _ ⟨p, rfl⟩
  refine FaultsOr.letter (fun h => LetterPtr.deref_error) fun letter _ => ?_
  dsimp only
  split
  · exact .ok ⟨⟨⟨rfl, .inr ⟨response554, by decide, rfl, rfl⟩⟩, rfl, rfl⟩, .inl rfl⟩
  · refine .letter (fun h => letterFree_error) fun q _ => ?_
    rw [Session.step_of_some .expectMail (by simp [hst, serverStep])]
    exact .ok ⟨⟨⟨rfl, .inr ⟨responseSaved, by decide, rfl, rfl⟩⟩, rfl, rfl⟩, .inr rfl⟩

/-! The other handlers, one by one. -/

theorem processDataRecv_spec (hst : s.state = .processDataRecv) :
    FaultsOr (Handled s) (processDataRecv e s data) := by
  unfold processDataRecv
  cases data with
  | none => exact .error (by simp)
  | some text =>
      dsimp only
      split
      · exact .error (by simp)
      split
      · rw [Session.step_of_some .expectDataRecv (by simp [hst, serverStep])]
        refine Ends.mono (processDataEnd_spec (e := e)
          (s := { s with oldState := s.state, state := .processDataEnd }) rfl) ?_
        rintro s' ⟨⟨⟨hwire, hreply⟩, hrecv, hwatch⟩, hstate⟩
        refine ⟨⟨⟨hwire, hreply⟩, hrecv, hwatch⟩, .inl ?_, fun _ _ hin => ?_⟩
        · rcases hstate with h | h <;> rw [h] <;> rfl
        · rcases hstate with h | h <;> rw [h] at hin <;> cases hin
      · refine (appendBody_spec s text).bind ?_
        rintro _ ⟨letter, -, rfl⟩
        rw [Session.step_of_some .expectDataRecv (by simp [hst, serverStep])]
        exact .ok ⟨⟨⟨rfl, .inl ⟨rfl, rfl⟩⟩, rfl, rfl⟩, .inl rfl, fun _ _ _ => ⟨_, rfl⟩⟩

theorem Handled.of_step {st : ServerState} {p : LetterPtr} {text : CStr} (htext : text ≠ [])
    (hst : st.isWaiting = true ∨ st = .disconnected ∨ st = s.oldState)
    (hp : st.inMail = true → LetterReady s → LetterReady { s with state := s.oldState } →
      ∃ letter, p = .live letter) :
    Handled s (({ s with state := st, letter := p } : Session).reply text) :=
  ⟨⟨⟨rfl, .inr ⟨text, htext, rfl, rfl⟩⟩, rfl, rfl⟩, hst, fun h h' hin => hp hin h h'⟩

theorem processHelo_spec (hst : s.state = .processHelo) :
    FaultsOr (Handled s) (processHelo e s data) := by
  unfold processHelo
  refine .step .expectMail (by simp [hst, serverStep]) ?_
  exact .ok (.of_step (by decide) (.inl rfl) (by simp [ServerState.inMail]))

theorem processEhlo_spec (hst : s.state = .processEhlo) :
    FaultsOr (Handled s) (processEhlo e s data) := by
  unfold processEhlo
  refine .step .expectMail (by simp [hst, serverStep]) ?_
  exact .ok (.of_step (by decide) (.inl rfl) (by simp [ServerState.inMail]))

theorem processMail_spec (hst : s.state = .processMail) :
    FaultsOr (Handled s) (processMail e s data) := by
  unfold processMail
  cases data with
  | none =>
      dsimp only
      refine .step .expectMail (by simp [hst, serverStep]) ?_
      exact .ok (.of_step (by decide) (.inl rfl) (by simp [ServerState.inMail]))
  | some text =>
      dsimp only
      refine .step .expectRcpt (by simp [hst, serverStep]) ?_
      exact .ok (.of_step (by decide) (.inl rfl) fun _ _ _ => ⟨_, rfl⟩)

theorem processRcpt_spec (hst : s.state = .processRcpt) :
    FaultsOr (Handled s) (processRcpt e s data) := by
  unfold processRcpt
  cases data with
  | none =>
      dsimp only
      refine .step .expectRcpt (by simp [hst, serverStep]) ?_
      exact .ok (.of_step (by decide) (.inl rfl) fun _ h _ => h (by rw [hst]; rfl))
  | some text =>
      dsimp only
      refine .step .expectData (by simp [hst, serverStep]) ?_
      refine .letter (fun h => LetterPtr.deref_error) fun letter _ => ?_
      cases patternEmail text with
      | none => exact .error (by simp)
      | some halves => exact .ok (.of_step (by decide) (.inl rfl) fun _ _ _ => ⟨_, rfl⟩)

theorem processData_spec (hst : s.state = .processData) :
    FaultsOr (Handled s) (processData e s data) := by
  unfold processData
  refine .step .expectDataRecv (by simp [hst, serverStep]) ?_
  exact .ok (.of_step (by decide) (.inl rfl) fun _ h _ => h (by rw [hst]; rfl))

theorem processRset_spec (hst : s.state = .processRset) :
    FaultsOr (Handled s) (processRset e s data) := by
  unfold processRset
  refine .letter (fun h => letterFree_error) fun p _ => ?_
  rw [Session.step_of_some .ready (by simp [hst, serverStep])]
  exact .ok (.of_step (by decide) (.inl rfl) (by simp [ServerState.inMail]))

theorem processVrfy_spec : FaultsOr (Handled s) (processVrfy e s data) :=
  .ok (.of_step (by decide) (.inr (.inr rfl)) fun hin _ h => h hin)

theorem processQuit_spec (hst : s.state = .processQuit) :
    FaultsOr (Handled s) (processQuit e s data) := by
  unfold processQuit
  refine .step .disconnected (by simp [hst, serverStep]) ?_
  exact .ok (.of_step (by decide) (.inr (.inl rfl)) (by simp [ServerState.inMail]))

/-- The table binds every handler to its own state. -/
theorem handler_spec {handler : Handler} (h : processBind s.state = some handler) :
    FaultsOr (Handled s) (handler e s data) := by
  cases hst : s.state <;> rw [hst] at h <;> cases h
  · exact processHelo_spec hst
  · exact processEhlo_spec hst
  · exact processQuit_spec hst
  · exact processVrfy_spec
  · exact processRset_spec hst
  · exact processMail_spec hst
  · exact processRcpt_spec hst
  · exact processData_spec hst
  · exact processDataRecv_spec hst
  · refine Ends.mono (processDataEnd_spec hst) ?_
    rintro s' ⟨hans, hstate⟩
    refine ⟨hans, .inl ?_, fun _ _ hin => ?_⟩
    · rcases hstate with h | h <;> rw [h] <;> rfl
    · rcases hstate with h | h <;> rw [h] at hin <;> cases hin

/-! ### What a pass does -/

theorem eventMap_isCommand {type : PatternType}
    (h : type.isKeyword = true ∨ type = .ptDataEnd ∨ type = .ptDataRecv) :
    (eventMap type).isCommand = true := by
  rcases h with h | rfl | rfl
  · cases type <;> first | rfl | cases h
  · rfl
  · rfl

/-- The classification of a chunk reaches the automaton only as an event, and
this is the one step that may have no transition. -/
theorem dispatch_badTransition {type : PatternType} {content : Option CStr}
    (h : serverStep s.state (eventMap type) = none) :
    dispatch e s type content = .error .badTransition := by
  unfold dispatch
  rw [Session.step_of_none (by simpa using h)]
  rfl

theorem dispatch_of_some {type : PatternType} {content : Option CStr} (st : ServerState)
    {handler : Handler} (h : serverStep s.state (eventMap type) = some st)
    (hbind : processBind st = some handler) :
    dispatch e s type content = handler e { s with oldState := s.state, state := st }
      (if type = .ptDataRecv then some s.recvBuf else content) := by
  unfold dispatch
  rw [Session.step_of_some st (by simpa using h)]
  change (match processBind st with
    | none => Except.error Halt.nullRead
    | some handler => handler e { s with oldState := s.state, state := st }
        (if type = PatternType.ptDataRecv then some s.recvBuf else content)) = _
  rw [hbind]

structure Dispatched (s s' : Session) : Prop extends Answered s s' where
  state : s'.state.isWaiting = true ∨ s'.state = .disconnected ∨ s'.state = s.state
  letter : LetterReady s → LetterReady s'

theorem dispatch_spec {type : PatternType} {content : Option CStr} {st : ServerState}
    (htype : type.isKeyword = true ∨ type = .ptDataEnd ∨ type = .ptDataRecv)
    (h : serverStep s.state (eventMap type) = some st) :
    FaultsOr (Dispatched s) (dispatch e s type content) := by
  cases hbind : processBind st with
  | none =>
      unfold dispatch
      rw [Session.step_of_some st (by simpa using h)]
      change FaultsOr (Dispatched s) (match processBind st with
        | none => .error .nullRead
        | some handler => handler e { s with oldState := s.state, state := st }
            (if type = .ptDataRecv then some s.recvBuf else content))
      rw [hbind]
      exact .error (by simp)
  | some handler =>
      rw [dispatch_of_some st h hbind]
      refine Ends.mono (handler_spec (s := { s with oldState := s.state, state := st })
        hbind) ?_
      rintro s' ⟨⟨⟨hwire, hreply⟩, hrecv, hwatch⟩, hstate, hletter⟩
      refine ⟨⟨⟨hwire, hreply⟩, hrecv, hwatch⟩, hstate, fun hs => hletter ?_ hs⟩
      exact fun hin => hs (serverStep_inMail (eventMap_isCommand htype) h hin)

theorem noMatch_patternScan_iff {buf : CStr} {st : ServerState} :
    noMatch (patternScan buf).1 st = true ↔
      (patternScan buf).1 = .ptDataRecv ∧ st ≠ .expectDataRecv := by
  have hrange := patternScan_range buf
  cases htype : (patternScan buf).1 <;> rw [htype] at hrange <;>
    simp [PatternType.isKeyword] at hrange <;> simp [noMatch]

structure Received (e : Env) (s s' : Session) : Prop extends Replied s s' where
  recvBuf : s'.recvBuf = []
  watch : s'.watch = e.now
  state : s'.state.isWaiting = true ∨ s'.state = .disconnected ∨ s'.state = s.state
  letter : LetterReady s → LetterReady s'

theorem updateRecv_of_noMatch (h : noMatch (patternScan s.recvBuf).1 s.state = true) :
    updateRecv e s = .ok { s.reply response500 with recvBuf := [], watch := e.now } := by
  simp [updateRecv, h]
  rfl

theorem updateRecv_of_dispatch (h : noMatch (patternScan s.recvBuf).1 s.state = false) :
    updateRecv e s = dispatch e s (patternScan s.recvBuf).1 (patternScan s.recvBuf).2 >>=
      fun s' => .ok { s' with recvBuf := [], watch := e.now } := by
  simp [updateRecv, h]

/-- The only missing transition that a chunk can ask for is the first one. -/
theorem updateRecv_spec
    (h : noMatch (patternScan s.recvBuf).1 s.state = false →
      serverStep s.state (eventMap (patternScan s.recvBuf).1) ≠ none) :
    FaultsOr (Received e s) (updateRecv e s) := by
  cases hno : noMatch (patternScan s.recvBuf).1 s.state with
  | true =>
      rw [updateRecv_of_noMatch hno]
      exact .ok ⟨⟨rfl, .inr ⟨response500, by decide, rfl, rfl⟩⟩, rfl, rfl, .inr (.inr rfl), id⟩
  | false =>
      obtain ⟨st, hst⟩ := Option.ne_none_iff_exists'.mp (h hno)
      rw [updateRecv_of_dispatch hno]
      refine (dispatch_spec (patternScan_range s.recvBuf) hst).bind ?_
      rintro s' ⟨⟨⟨hwire, hreply⟩, -, -⟩, hstate, hletter⟩
      exact .ok ⟨⟨hwire, hreply⟩, rfl, rfl, hstate, hletter⟩

theorem updateRecv_badTransition
    (hno : noMatch (patternScan s.recvBuf).1 s.state = false)
    (h : serverStep s.state (eventMap (patternScan s.recvBuf).1) = none) :
    updateRecv e s = .error .badTransition := by
  rw [updateRecv_of_dispatch hno, dispatch_badTransition h]
  rfl

@[simp] theorem stopwatchWatch_self (tv : Timeval) : stopwatchWatch tv tv = 0 := by
  simp [stopwatchWatch, toInt]

theorem updateInit_eq (h : s.state = .init) :
    updateInit s = .ok ({ s with oldState := .connected, state := .ready }.reply response220) := by
  simp [updateInit, Session.step, h, serverStep]
  rfl

/-- Every outcome of the handling of a chunk. -/
theorem updateRecv_cases (e : Env) (s : Session) :
    updateRecv e s = .error .badTransition ∨ FaultsOr (Received e s) (updateRecv e s) := by
  by_cases hno : noMatch (patternScan s.recvBuf).1 s.state = true
  · exact .inr (updateRecv_spec (by simp [hno]))
  · have hno : noMatch (patternScan s.recvBuf).1 s.state = false := by simpa using hno
    by_cases h : serverStep s.state (eventMap (patternScan s.recvBuf).1) = none
    · exact .inl (updateRecv_badTransition hno h)
    · exact .inr (updateRecv_spec fun _ => h)

theorem updateRecv_ok {s' : Session} (h : updateRecv e s = .ok s') : Received e s s' := by
  rcases updateRecv_cases e s with hbad | hspec
  · cases hbad.symm.trans h
  · exact hspec.of_ok h

theorem Received.state_ne_init {s' : Session} (h : Received e s s') (hinit : s.state ≠ .init) :
    s'.state ≠ .init := by
  intro hst
  rcases h.state with hw | hd | hs
  · rw [hst] at hw
    cases hw
  · rw [hst] at hd
    cases hd
  · exact hinit (hs.symm.trans hst)

/-- A chunk is all that a pass over a greeted connection handles. -/
theorem protocolUpdate_of_chunk (hrecv : s.recvBuf ≠ []) (hinit : s.state ≠ .init) :
    protocolUpdate e s = updateRecv e s := by
  unfold protocolUpdate
  rw [if_pos hrecv]
  rcases updateRecv_cases e s with hbad | ⟨h, herr, -⟩ | ⟨s', hok, hs'⟩
  · rw [hbad]
    rfl
  · rw [herr]
    rfl
  · have hwatch : ¬ stopwatchWatch e.now s'.watch > connTimeout := by
      rw [hs'.watch, stopwatchWatch_self]
      decide
    rw [hok]
    change (if s'.state = .init then updateInit s' else .ok s') >>= _ = _
    rw [if_neg (hs'.state_ne_init hinit)]
    exact congrArg Except.ok (if_neg hwatch)

theorem protocolUpdate_of_idle (hrecv : s.recvBuf = []) (hinit : s.state ≠ .init) :
    protocolUpdate e s =
      .ok (if stopwatchWatch e.now s.watch > connTimeout then updateTimeout s else s) := by
  unfold protocolUpdate
  rw [if_neg (not_not.mpr hrecv)]
  change (if s.state = .init then updateInit s else .ok s) >>= _ = _
  rw [if_neg hinit]
  rfl

/-- The first pass over a connection greets it, and gives it up at once if its
clock has run out. -/
theorem protocolUpdate_of_init (hrecv : s.recvBuf = []) (hinit : s.state = .init) :
    protocolUpdate e s =
      .ok (let s' := { s with oldState := .connected, state := .ready }.reply response220
        if stopwatchWatch e.now s.watch > connTimeout then updateTimeout s' else s') := by
  unfold protocolUpdate
  rw [if_neg (not_not.mpr hrecv)]
  change (if s.state = .init then updateInit s else .ok s) >>= _ = _
  rw [if_pos hinit, updateInit_eq hinit]
  rfl

end SmtpProj.Server
