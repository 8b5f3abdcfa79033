import SmtpProj.Server.Commands

/-!
One command, one reply.

The classification of a chunk selects the handler, and `Serves` says what the
handler leaves. A pass over a chunk that the automaton takes can end in one way
only before it is through: RSET frees the letter of a connection whether there
is one or not.
-/

namespace SmtpProj.Server

open Lib

/-! ### Commands and their handlers -/

def ServerState.isProcessing : ServerState → Bool
  | .processHelo | .processEhlo | .processQuit | .processVrfy | .processRset | .processTimeout
  | .processMail | .processRcpt | .processData | .processDataRecv | .processDataEnd => true
  | _ => false

/-- The types from `PT_QUIT` to `PT_DATA_RECV`, for which `protocol_init` sets
`event_map`. -/
def commandTypes : List PatternType :=
  [.ptQuit, .ptRset, .ptVrfy, .ptHelo, .ptEhlo, .ptMail, .ptRcpt, .ptData, .ptDataEnd, .ptDataRecv]

def PatternType.handler : PatternType → Option Handler
  | .ptQuit => some processQuit
  | .ptRset => some processRset
  | .ptVrfy => some processVrfy
  | .ptHelo => some processHelo
  | .ptEhlo => some processEhlo
  | .ptMail => some processMail
  | .ptRcpt => some processRcpt
  | .ptData => some processData
  | .ptDataEnd => some processDataEnd
  | .ptDataRecv => some processDataRecv
  | .ptStart | .ptEmail | .ptEnd => none

def PatternType.answers : PatternType → List CStr
  | .ptQuit => [response221]
  | .ptRset => [response250]
  | .ptVrfy => [response502]
  | .ptHelo | .ptEhlo => [responseHelo]
  | .ptMail => [response250, response451]
  | .ptRcpt => [response250, response501]
  | .ptData => [response354]
  | .ptDataEnd | .ptDataRecv => [responseSaved, response554]
  | .ptStart | .ptEmail | .ptEnd => []

namespace Session

def command (s : Session) : PatternType := (patternScan s.recvBuf).1

/-- The chunk is no command of this state. -/
abbrev Unknown (s : Session) : Prop := noMatch s.command s.state = true

/-- The chunk is a part of the message, and not its last. -/
def Continues (s : Session) : Prop :=
  s.state = .expectDataRecv ∧ s.command = .ptDataRecv ∧ ¬dataMark <:+ s.recvBuf

end Session

/-- What the automaton and the handlers ask of a chunk: a transition for its
class, an address that can be split, and five characters of message text. -/
structure Proper (s : Session) : Prop where
  transition : s.Unknown ∨ serverStep s.state (eventMap s.command) ≠ none
  address : ∀ arg, patternScan s.recvBuf = (.ptRcpt, some arg) → patternEmail arg ≠ none
  text : s.state = .expectDataRecv → s.command = .ptDataRecv → 5 ≤ s.recvBuf.length

/-- The pass ran the handler of the chunk's class, from the state that the
automaton leads to. -/
def RanHandler (e : Env) (s s' : Session) : Prop :=
  ∃ st handler s₁, serverStep s.state (eventMap s.command) = some st ∧
    processBind st = some handler ∧ s.command.handler = some handler ∧
    handler e { s with oldState := s.state, state := st }
      (if s.command = .ptDataRecv then some s.recvBuf else (patternScan s.recvBuf).2) = .ok s₁ ∧
    s' = { s₁ with recvBuf := [], watch := e.now }

def Answers (answers : List CStr) (s s' : Session) : Prop :=
  ∃ text ∈ answers, s'.replies = s.replies ++ [text] ∧ s'.sendBuf = text

/-- A pass that handles one command and finishes it. -/
structure HandledOne (e : Env) (s s' : Session) : Prop where
  unknown : s.Unknown → s' = { s.reply response500 with recvBuf := [], watch := e.now }
  ran : ¬s.Unknown → RanHandler e s s'
  state : s'.state.isProcessing = false
  recvBuf : s'.recvBuf = []
  reply : ¬s.Continues → Answers (if s.Unknown then [response500] else s.command.answers) s s'
  quiet : s.Continues → s'.replies = s.replies ∧ s'.sendBuf = s.sendBuf

def OneCommand (e : Env) (s : Session) : Prop :=
  ∃ s', protocolUpdate e s = .ok s' ∧ HandledOne e s s'

/-- The tables are read only where they are set. -/
structure Bound (s : Session) : Prop where
  event : s.command ∈ commandTypes
  handler : ¬s.Unknown → ∃ st handler, serverStep s.state (eventMap s.command) = some st ∧
    processBind st = some handler

/-! ### The tables -/

/-- The scan stops at a type for which the tables are set. -/
theorem patternScan_mem_commandTypes (buf : CStr) : (patternScan buf).1 ∈ commandTypes := by
  have hrange := patternScan_range buf
  cases htype : (patternScan buf).1 <;> rw [htype] at hrange <;>
    simp [PatternType.isKeyword] at hrange <;> decide

theorem isProcessing_of_isWaiting {st : ServerState} (h : st.isWaiting = true) :
    st.isProcessing = false := by
  cases st <;> first | rfl | cases h

theorem takes_of_serverStep {st : ServerState} {type : PatternType} (hst : st.isWaiting = true)
    (h : serverStep st (eventMap type) ≠ none) : st.takes type = true := by
  cases st <;> cases hst <;> cases type <;> first | rfl | exact absurd rfl h

theorem handler_of_takes {st : ServerState} {type : PatternType} (h : st.takes type = true) :
    ∃ st' handler, serverStep st (eventMap type) = some st' ∧ processBind st' = some handler ∧
      type.handler = some handler := by
  cases type <;> cases st <;> cases h <;> exact ⟨_, _, rfl, rfl, rfl⟩

theorem proper_of_command {s : Session} (h : serverStep s.state (eventMap s.command) ≠ none)
    (hrcpt : s.command ≠ .ptRcpt) (htext : s.command ≠ .ptDataRecv) : Proper s :=
  ⟨.inr h, fun _ hscan => absurd (congrArg Prod.fst hscan) hrcpt, fun _ h => absurd h htext⟩

theorem bound_of_proper {s : Session} (hwait : s.state.isWaiting = true) (h : Proper s) :
    Bound s := by
  refine ⟨patternScan_mem_commandTypes s.recvBuf, fun hno => ?_⟩
  obtain ⟨st, handler, hstep, hbind, -⟩ :=
    handler_of_takes (takes_of_serverStep hwait (h.transition.resolve_left hno))
  exact ⟨st, handler, hstep, hbind⟩

/-! ### One pass -/

variable {e : Env} {s s' : Session}

theorem Serves.waiting {type : PatternType} {content : Option CStr} {o : Effect}
    (h : Serves e s type content o) : o.state.isWaiting = true ∨ o.state = .disconnected := by
  cases h with
  | mark | dot => rcases endOfData_state rfl with h | h <;> exact .inl (by rw [h]; rfl)
  | vrfy h =>
      change s.state.isWaiting = true ∨ s.state = .disconnected
      cases hst : s.state <;> rw [hst] at h <;> first | exact .inl rfl | cases h
  | quit => exact .inr rfl
  | _ => exact .inl rfl

/-- Only message text is taken without a reply. -/
theorem Serves.answer {type : PatternType} {content : Option CStr} {o : Effect}
    (h : Serves e s type content o) :
    (type = .ptDataRecv ∧ ¬dataMark <:+ s.recvBuf ∧ o.reply = none) ∨
      (¬(type = .ptDataRecv ∧ ¬dataMark <:+ s.recvBuf) ∧
        ∃ text ∈ type.answers, o.reply = some text) := by
  have hend : ∀ letter, ∃ text ∈ [responseSaved, response554],
      (endOfData e letter).reply = some text := by
    intro letter
    unfold endOfData
    split_ifs
    · exact ⟨responseSaved, by simp, rfl⟩
    · exact ⟨response554, by simp, rfl⟩
  cases h with
  | text _ _ _ hmark => exact .inl ⟨rfl, hmark, rfl⟩
  | mark _ _ hmark => exact .inr ⟨fun h => h.2 hmark, hend _⟩
  | dot => exact .inr ⟨by simp, hend _⟩
  | _ => exact .inr ⟨by simp, _, by simp [PatternType.answers], rfl⟩

theorem handledOne_of_unknown (hwait : s.state.isWaiting = true) (hno : s.Unknown) :
    HandledOne e s { s.reply response500 with recvBuf := [], watch := e.now } := by
  obtain ⟨-, hst⟩ := noMatch_patternScan_iff.mp hno
  have hcontinues : ¬s.Continues := fun h => hst h.1
  constructor
  · exact fun _ => rfl
  · exact fun h => absurd hno h
  · exact isProcessing_of_isWaiting hwait
  · rfl
  · intro _
    rw [if_pos hno]
    exact ⟨response500, by simp, rfl, rfl⟩
  · exact fun h => absurd h hcontinues

theorem handledOne_of_serves {o : Effect} (hno : ¬s.Unknown)
    (htakes : s.state.takes s.command = true)
    (ho : Serves e s s.command (patternScan s.recvBuf).2 o) :
    ∃ s', updateRecv e s = .ok s' ∧ HandledOne e s s' := by
  obtain ⟨st, handler, hstep, hbind, hhandler⟩ := handler_of_takes htakes
  obtain ⟨s₁, hok, hs₁⟩ := dispatch_of_serves ho
  have hupdate : updateRecv e s = .ok { s₁ with recvBuf := [], watch := e.now } := by
    rw [updateRecv_of_dispatch (Bool.eq_false_of_not_eq_true hno)]
    exact congrArg (· >>= _) hok
  have hcontinues : s.Continues ↔ s.command = .ptDataRecv ∧ ¬dataMark <:+ s.recvBuf := by
    refine ⟨fun h => h.2, fun h => ⟨?_, h⟩⟩
    rw [h.1] at htakes
    simpa [ServerState.takes] using htakes
  refine ⟨_, hupdate, ?_⟩
  constructor
  · exact fun h => absurd h hno
  · rw [dispatch_of_some st hstep hbind] at hok
    exact fun _ => ⟨st, handler, s₁, hstep, hbind, hhandler, hok, rfl⟩
  · change s₁.state.isProcessing = false
    rw [hs₁.state]
    rcases ho.waiting with hwait | hclosed
    · exact isProcessing_of_isWaiting hwait
    · rw [hclosed]
      rfl
  · rfl
  · intro h
    rw [hcontinues] at h
    rw [if_neg hno]
    rcases ho.answer with ⟨htype, hmark, -⟩ | ⟨-, text, htext, hreply⟩
    · exact absurd ⟨htype, hmark⟩ h
    · refine ⟨text, htext, ?_, ?_⟩
      · simpa [hreply] using hs₁.replies
      · simpa [hreply] using hs₁.sendBuf
  · intro h
    rw [hcontinues] at h
    rcases ho.answer with ⟨-, -, hreply⟩ | ⟨hnot, -⟩
    · refine ⟨?_, ?_⟩
      · simpa [hreply] using hs₁.replies
      · simpa [hreply] using hs₁.sendBuf
    · exact absurd h hnot

/-- A proper chunk in a waiting state: the pass handles one command, unless it
has to free a letter that is not there. -/
theorem oneCommand_iff_of_ready (hready : LetterReady s) (hwait : s.state.isWaiting = true)
    (hrecv : s.recvBuf ≠ []) (hproper : Proper s) :
    OneCommand e s ↔ (s.command = .ptRset → ∃ letter, s.letter = .live letter) := by
  have hinit : s.state ≠ .init := by
    intro h
    rw [h] at hwait
    cases hwait
  unfold OneCommand
  rw [protocolUpdate_of_chunk hrecv hinit]
  by_cases hno : s.Unknown
  · have htype : s.command = .ptDataRecv := (noMatch_patternScan_iff.mp hno).1
    exact iff_of_true ⟨_, updateRecv_of_noMatch hno, handledOne_of_unknown hwait hno⟩
      (by simp [htype])
  have htakes : s.state.takes s.command = true :=
    takes_of_serverStep hwait (hproper.transition.resolve_left hno)
  have hserves : (∃ o, Serves e s s.command (patternScan s.recvBuf).2 o) ∨
      ∃ halt, Fails e s s.command (patternScan s.recvBuf).2 halt := serves_or_fails hready htakes
  rcases hserves with ⟨o, ho⟩ | ⟨halt, hfails⟩
  · refine iff_of_true (handledOne_of_serves hno htakes ho) fun htype => ?_
    rw [htype] at ho
    cases ho with
    | rset _ hletter => exact ⟨_, hletter⟩
  · have hfail : updateRecv e s = .error halt :=
      (protocolUpdate_of_chunk hrecv hinit).symm.trans
        (protocolUpdate_of_fails hready hrecv rfl hfails)
    refine iff_of_false (fun ⟨s', hok, _⟩ => ?_) fun hletter => ?_
    · rw [hfail] at hok
      cases hok
    · have htype : s.command = (patternScan s.recvBuf).1 := rfl
      generalize hc : s.command = type at hfails hletter htype
      generalize hs : (patternScan s.recvBuf).2 = content at hfails
      cases hfails with
      | rset _ hnone =>
          obtain ⟨letter, hlive⟩ := hletter rfl
          exact hnone letter hlive
      | @rcpt arg _ hemail => exact hproper.address arg (Prod.ext htype.symm hs) hemail
      | short hst hlen => exact not_le.mpr hlen (hproper.text hst hc)

namespace Link

variable {l l' : Link} {r : Round}

/-- Between two rounds a line is waited for, or the connection is given up. -/
def Idle (l : Link) : Prop :=
  l.session.state.isWaiting = true ∨ l.session.state = .disconnected

theorem idle_of_greeting {now : Timeval} (h : (accepted now).round (.greeting e) = .ok l) :
    l.Idle :=
  (session_of_greeting h).1.imp_left fun hst => by rw [hst]; rfl

theorem Idle.round (hidle : l.Idle) (hl : l.Greeted) (h : l.round r = .ok l') : l'.Idle := by
  obtain ⟨-, hpassed⟩ := round_passed hl h
  cases hpassed with
  | idle _ hs => simpa [Idle, hs] using hidle
  | timeout _ hs => exact .inr (by rw [hs]; rfl)
  | unknown _ _ hs => simpa [Idle, hs] using hidle
  | served o _ ho hs =>
      rw [Idle, hs.state]
      exact ho.waiting

end Link

end SmtpProj.Server
