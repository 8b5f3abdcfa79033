import SmtpProj.Lib.History
import SmtpProj.Server.Arguments
import SmtpProj.Server.Dialogue

/-!
Everything a received chunk can come to.

`Serves` lists, command by command, from which state a handler runs and what it
leaves: the next state, the letter, the reply and the file it saves. A dispatch
completes exactly in these ways, so what is true of runs is proved by cases
over this list, and the handlers are not unfolded again.

An `Exchange` is what the peer sees of a pass: the chunk and the replies to it.
The history of a connection is the list of its exchanges.
-/

namespace SmtpProj.Server

open Lib

/-! ### Effects -/

structure Effect where
  state : ServerState
  letter : LetterPtr
  reply : Option CStr
  files : List (CStr × CStr)

def Letter.text (letter : Letter) : CStr :=
  letter.mailFrom ++ ['\n'] ++ letter.rcptTo ++ ['\n'] ++ letter.body ++ ['\n']

def Letter.add (letter : Letter) (chunk : CStr) : Letter :=
  { letter with body := letter.body ++ chunk ++ crlf }

def Letter.filename (e : Env) (letter : Letter) : CStr :=
  maildirGetFname e letter.rcptUsername letter.rcptDomain

/-- The end of the mail input: the letter is saved, or kept if its file cannot
be created. -/
def endOfData (e : Env) (letter : Letter) : Effect :=
  if e.creatable (letter.filename e) = true then
    ⟨.expectMail, .freed, some responseSaved, [(letter.filename e, letter.text)]⟩
  else ⟨.ready, .live letter, some response554, []⟩

theorem endOfData_state {e : Env} {letter : Letter} {st : ServerState}
    (h : (endOfData e letter).state = st) : st = .expectMail ∨ st = .ready := by
  unfold endOfData at h
  split_ifs at h
  · exact .inl h.symm
  · exact .inr h.symm

def Letter.addText (letter : Letter) : Option CStr → Letter
  | none => letter
  | some [] => letter
  | some (c :: cs) => letter.add (c :: cs)

/-- The states in which RSET, VRFY and QUIT are accepted. -/
def ServerState.isOpen : ServerState → Bool
  | .ready | .expectMail | .expectRcpt | .expectData => true
  | _ => false

/-- The commands, the states they are served in, and their effects. -/
inductive Serves (e : Env) (s : Session) : PatternType → Option CStr → Effect → Prop
  | helo {arg : Option CStr} (h : s.state = .ready) :
      Serves e s .ptHelo arg ⟨.expectMail, s.letter, some responseHelo, []⟩
  | ehlo {arg : Option CStr} (h : s.state = .ready) :
      Serves e s .ptEhlo arg ⟨.expectMail, s.letter, some responseHelo, []⟩
  | mail {arg : CStr} (h : s.state = .expectMail) :
      Serves e s .ptMail (some arg)
        ⟨.expectRcpt, .live { letterCreate with mailFrom := arg }, some response250, []⟩
  | mailNone (h : s.state = .expectMail) :
      Serves e s .ptMail none ⟨.expectMail, s.letter, some response451, []⟩
  | rcpt {arg username domain : CStr} {letter : Letter} (h : s.state = .expectRcpt)
      (hletter : s.letter = .live letter) (hemail : patternEmail arg = some (username, domain)) :
      Serves e s .ptRcpt (some arg)
        ⟨.expectData, .live { letter with
          rcptTo := arg, rcptUsername := username, rcptDomain := domain }, some response250, []⟩
  | rcptNone (h : s.state = .expectRcpt) :
      Serves e s .ptRcpt none ⟨.expectRcpt, s.letter, some response501, []⟩
  | data {arg : Option CStr} (h : s.state = .expectData) :
      Serves e s .ptData arg ⟨.expectDataRecv, s.letter, some response354, []⟩
  | text {arg : Option CStr} {letter : Letter} (h : s.state = .expectDataRecv)
      (hletter : s.letter = .live letter) (hlen : 5 ≤ s.recvBuf.length)
      (hmark : ¬dataMark <:+ s.recvBuf) :
      Serves e s .ptDataRecv arg ⟨.expectDataRecv, .live (letter.add s.recvBuf), none, []⟩
  | mark {arg : Option CStr} {letter : Letter} (h : s.state = .expectDataRecv)
      (hletter : s.letter = .live letter) (hmark : dataMark <:+ s.recvBuf) :
      Serves e s .ptDataRecv arg (endOfData e (letter.add s.recvBuf))
  | dot {arg : Option CStr} {letter : Letter} (h : s.state = .expectDataRecv)
      (hletter : s.letter = .live letter) :
      Serves e s .ptDataEnd arg (endOfData e (letter.addText arg))
  | rset {arg : Option CStr} {letter : Letter} (h : s.state.isOpen = true)
      (hletter : s.letter = .live letter) :
      Serves e s .ptRset arg ⟨.ready, .freed, some response250, []⟩
  | vrfy {arg : Option CStr} (h : s.state.isOpen = true) :
      Serves e s .ptVrfy arg ⟨s.state, s.letter, some response502, []⟩
  | quit {arg : Option CStr} (h : s.state.isOpen = true ∨ s.state = .connected) :
      Serves e s .ptQuit arg ⟨.disconnected, s.letter, some response221, []⟩

structure Gives (s : Session) (o : Effect) (s' : Session) : Prop where
  state : s'.state = o.state
  letter : s'.letter = o.letter
  replies : s'.replies = s.replies ++ o.reply.toList
  sendBuf : s'.sendBuf = o.reply.getD s.sendBuf
  files : s'.files = s.files ++ o.files

/-! ### The handlers -/

variable {e : Env} {s s' : Session}

theorem saveLetter_eq {letter : Letter} (hst : s.state = .processDataEnd)
    (hletter : s.letter = .live letter) :
    ∃ s', saveLetter e s = .ok s' ∧ Gives s (endOfData e letter) s' := by
  rcases s with ⟨⟨sendBuf, recvBuf, state, oldState, letterPtr, watch⟩, replies, dirs, files, wire⟩
  obtain rfl : state = .processDataEnd := hst
  obtain rfl : letterPtr = .live letter := hletter
  unfold endOfData
  cases hfile : e.creatable (letter.filename e) with
  | false => exact ⟨_, if_pos hfile, ⟨rfl, rfl, rfl, rfl, (List.append_nil _).symm⟩⟩
  | true =>
      have hne : ¬e.creatable (letter.filename e) = false := by simp [hfile]
      exact ⟨_, (if_neg hne).trans rfl, ⟨rfl, rfl, rfl, rfl, rfl⟩⟩

theorem processDataEnd_eq {letter : Letter} {data : Option CStr}
    (hst : s.state = .processDataEnd) (hletter : s.letter = .live letter) :
    ∃ s', processDataEnd e s data = .ok s' ∧ Gives s (endOfData e (letter.addText data)) s' := by
  have happend : appendText s data = .ok { s with letter := .live (letter.addText data) } := by
    match data with
    | none | some [] => simp [appendText, Letter.addText, ← hletter]
    | some (c :: cs) =>
        simp only [appendText, appendBody, hletter]
        rfl
  unfold processDataEnd
  rw [happend]
  obtain ⟨s', hok, hs'⟩ := saveLetter_eq (e := e)
    (s := { s with letter := .live (letter.addText data) }) hst rfl
  exact ⟨s', hok, hs'.state, hs'.letter, hs'.replies, hs'.sendBuf, hs'.files⟩

/-! ### Dispatch -/

def ServerState.takes (st : ServerState) : PatternType → Bool
  | .ptQuit => st.isOpen || st == .connected
  | .ptRset | .ptVrfy => st.isOpen
  | .ptHelo | .ptEhlo => st == .ready
  | .ptMail => st == .expectMail
  | .ptRcpt => st == .expectRcpt
  | .ptData => st == .expectData
  | .ptDataEnd | .ptDataRecv => st == .expectDataRecv
  | .ptStart | .ptEmail | .ptEnd => false

/-- A state takes a command if the automaton has a transition for it that leads
to a handler. -/
theorem takes_iff {st : ServerState} {type : PatternType} : st.takes type = true ↔
    ∃ st', serverStep st (eventMap type) = some st' ∧ processBind st' ≠ none := by
  cases type <;> cases st <;>
    simp [ServerState.takes, ServerState.isOpen, eventMap, serverStep, processBind]

theorem serverStep_rset {st : ServerState} (h : st.isOpen = true) :
    serverStep st .rset = some .processRset := by
  cases st <;> first | rfl | cases h

@[simp] theorem letterFree_eq_ok {p q : LetterPtr} :
    letterFree p = .ok q ↔ (∃ letter, p = .live letter) ∧ q = .freed := by
  cases p <;> simp [letterFree, eq_comm]

@[simp] theorem LetterPtr.deref_eq_ok {p : LetterPtr} {letter : Letter} :
    p.deref = .ok letter ↔ p = .live letter := by
  cases p <;> simp [LetterPtr.deref]

theorem appendText_letter {data : Option CStr} (h : appendText s data = .ok s') :
    (∃ letter, s'.letter = .live letter) → ∃ letter, s.letter = .live letter := by
  match data with
  | none | some [] =>
      cases h
      exact id
  | some (c :: cs) =>
      obtain ⟨letter, hletter, -⟩ := bind_eq_ok.mp h
      exact fun _ => ⟨letter, LetterPtr.deref_eq_ok.mp hletter⟩

theorem processDataEnd_letter {data : Option CStr} (h : processDataEnd e s data = .ok s') :
    ∃ letter, s.letter = .live letter := by
  obtain ⟨s₁, happend, h⟩ := bind_eq_ok.mp h
  obtain ⟨letter, hletter, -⟩ := bind_eq_ok.mp h
  exact appendText_letter happend ⟨letter, LetterPtr.deref_eq_ok.mp hletter⟩

theorem dispatch_of_serves {type : PatternType} {content : Option CStr} {o : Effect}
    (h : Serves e s type content o) :
    ∃ s', dispatch e s type content = .ok s' ∧ Gives s o s' := by
  rcases s with ⟨⟨sendBuf, recvBuf, state, oldState, letterPtr, watch⟩, replies, dirs, files, wire⟩
  cases h with
  | helo h | ehlo h | mail h | mailNone h | rcptNone h | data h =>
      obtain rfl := h
      exact ⟨_, rfl, ⟨rfl, rfl, rfl, rfl, (List.append_nil _).symm⟩⟩
  | @rcpt arg username domain letter h hletter hemail =>
      obtain rfl : state = .expectRcpt := h
      obtain rfl : letterPtr = .live letter := hletter
      rw [dispatch_of_some .processRcpt rfl rfl]
      simp only [processRcpt, reduceCtorEq, if_false]
      rw [Session.step_of_some .expectData rfl]
      simp only [LetterPtr.deref, bind, Except.bind, hemail]
      exact ⟨_, rfl, ⟨rfl, rfl, rfl, rfl, (List.append_nil _).symm⟩⟩
  | @text _ letter h hletter hlen hmark =>
      obtain rfl : state = .expectDataRecv := h
      obtain rfl : letterPtr = .live letter := hletter
      rw [dispatch_of_some .processDataRecv rfl rfl, if_pos rfl,
        processDataRecv_of_text rfl rfl hlen hmark]
      exact ⟨_, rfl, ⟨rfl, rfl, (List.append_nil _).symm, rfl, (List.append_nil _).symm⟩⟩
  | @mark _ letter h hletter hmark =>
      obtain rfl : state = .expectDataRecv := h
      obtain rfl : letterPtr = .live letter := hletter
      have hlen : ¬recvBuf.length < 5 := not_lt.mpr hmark.length_le
      have hdrop : recvBuf.drop (recvBuf.length - 5) = dataMark := dataMark_suffix_iff.mpr hmark
      rw [dispatch_of_some .processDataRecv rfl rfl, if_pos rfl]
      simp only [processDataRecv, hlen, hdrop, if_true, if_false]
      obtain ⟨s', hok, hs'⟩ := @processDataEnd_eq e
        ⟨⟨sendBuf, recvBuf, .processDataEnd, .processDataRecv, .live letter, watch⟩, replies,
          dirs, files, wire⟩ letter (some recvBuf) rfl rfl
      have hadd : letter.addText (some recvBuf) = letter.add recvBuf := by
        cases recvBuf with
        | nil => cases hdrop
        | cons c cs => rfl
      rw [hadd] at hs'
      exact ⟨s', hok, hs'.state, hs'.letter, hs'.replies, hs'.sendBuf, hs'.files⟩
  | @dot _ letter h hletter =>
      obtain rfl : state = .expectDataRecv := h
      obtain rfl : letterPtr = .live letter := hletter
      rw [dispatch_of_some .processDataEnd rfl rfl, if_neg (by simp)]
      obtain ⟨s', hok, hs'⟩ := @processDataEnd_eq e
        ⟨⟨sendBuf, recvBuf, .processDataEnd, .expectDataRecv, .live letter, watch⟩, replies,
          dirs, files, wire⟩ letter content rfl rfl
      exact ⟨s', hok, hs'.state, hs'.letter, hs'.replies, hs'.sendBuf, hs'.files⟩
  | @rset _ letter h hletter =>
      obtain rfl : letterPtr = .live letter := hletter
      cases state <;> cases h <;>
        exact ⟨_, rfl, ⟨rfl, rfl, rfl, rfl, (List.append_nil _).symm⟩⟩
  | vrfy h =>
      cases state <;> cases h <;>
        exact ⟨_, rfl, ⟨rfl, rfl, rfl, rfl, (List.append_nil _).symm⟩⟩
  | quit h =>
      rcases h with h | h
      · cases state <;> cases h <;>
          exact ⟨_, rfl, ⟨rfl, rfl, rfl, rfl, (List.append_nil _).symm⟩⟩
      · obtain rfl : state = .connected := h
        exact ⟨_, rfl, ⟨rfl, rfl, rfl, rfl, (List.append_nil _).symm⟩⟩

/-- What is not taken ends the process, in the automaton or behind it. -/
theorem dispatch_of_not_takes {type : PatternType} {content : Option CStr}
    (h : ¬s.state.takes type = true) : dispatch e s type content = .error .badTransition ∨
      dispatch e s type content = .error .nullRead := by
  cases hstep : serverStep s.state (eventMap type) with
  | none => exact .inl (dispatch_badTransition hstep)
  | some st =>
      have hbind : processBind st = none := by
        by_contra hne
        exact h (takes_iff.mpr ⟨st, hstep, hne⟩)
      right
      unfold dispatch
      rw [Session.step_of_some st (by simpa using hstep)]
      simp [bind, Except.bind, hbind]

theorem processRcpt_splits {arg : CStr} (hst : s.state = .processRcpt)
    (h : processRcpt e s (some arg) = .ok s') :
    ∃ letter username domain, s.letter = .live letter ∧
      patternEmail arg = some (username, domain) := by
  unfold processRcpt at h
  dsimp only at h
  rw [Session.step_of_some .expectData (by simp [hst, serverStep])] at h
  obtain ⟨s₁, hstep, h⟩ := bind_eq_ok.mp h
  cases hstep
  obtain ⟨letter, hletter, h⟩ := bind_eq_ok.mp h
  cases hemail : patternEmail arg with
  | none =>
      simp only [hemail] at h
      cases h
  | some halves => exact ⟨letter, _, _, LetterPtr.deref_eq_ok.mp hletter, rfl⟩

theorem processDataRecv_letter {text : CStr} (hst : s.state = .processDataRecv)
    (h : processDataRecv e s (some text) = .ok s') :
    5 ≤ text.length ∧ ∃ letter, s.letter = .live letter := by
  unfold processDataRecv at h
  dsimp only at h
  split_ifs at h with hlen hmark
  · rw [Session.step_of_some .expectDataRecv (by simp [hst, serverStep])] at h
    obtain ⟨s₁, hstep, h⟩ := bind_eq_ok.mp h
    cases hstep
    obtain ⟨s₂, hstep, h⟩ := bind_eq_ok.mp h
    cases hstep
    obtain ⟨letter, hletter⟩ := processDataEnd_letter h
    exact ⟨not_lt.mp hlen, letter, hletter⟩
  · obtain ⟨s₁, happend, h⟩ := bind_eq_ok.mp h
    obtain ⟨letter, hletter, -⟩ := bind_eq_ok.mp happend
    exact ⟨not_lt.mp hlen, letter, LetterPtr.deref_eq_ok.mp hletter⟩

/-- A dispatch completes only in a way that is listed. -/
theorem dispatch_ok {type : PatternType} {content : Option CStr}
    (h : dispatch e s type content = .ok s') : ∃ o, Serves e s type content o ∧ Gives s o s' := by
  suffices hserves : ∃ o, Serves e s type content o by
    obtain ⟨o, ho⟩ := hserves
    obtain ⟨s₁, hok, hs₁⟩ := dispatch_of_serves ho
    cases hok.symm.trans h
    exact ⟨o, ho, hs₁⟩
  have htakes : s.state.takes type = true := by
    by_contra hnot
    rcases dispatch_of_not_takes (e := e) hnot with hbad | hnull
    · cases hbad.symm.trans h
    · cases hnull.symm.trans h
  cases type with
  | ptQuit => exact ⟨_, .quit (by simpa [ServerState.takes] using htakes)⟩
  | ptVrfy => exact ⟨_, .vrfy htakes⟩
  | ptHelo => exact ⟨_, .helo (by simpa [ServerState.takes] using htakes)⟩
  | ptEhlo => exact ⟨_, .ehlo (by simpa [ServerState.takes] using htakes)⟩
  | ptData => exact ⟨_, .data (by simpa [ServerState.takes] using htakes)⟩
  | ptRset =>
      rw [dispatch_of_some .processRset (serverStep_rset htakes) rfl] at h
      obtain ⟨p, hfree, -⟩ := bind_eq_ok.mp h
      obtain ⟨⟨letter, hletter⟩, -⟩ := letterFree_eq_ok.mp hfree
      exact ⟨_, .rset htakes hletter⟩
  | ptMail =>
      have hst : s.state = .expectMail := by simpa [ServerState.takes] using htakes
      cases content with
      | none => exact ⟨_, .mailNone hst⟩
      | some arg => exact ⟨_, .mail hst⟩
  | ptRcpt =>
      have hst : s.state = .expectRcpt := by simpa [ServerState.takes] using htakes
      cases content with
      | none => exact ⟨_, .rcptNone hst⟩
      | some arg =>
          rw [dispatch_of_some .processRcpt (by simp [hst, eventMap, serverStep]) rfl,
            if_neg (by simp)] at h
          obtain ⟨letter, username, domain, hletter, hemail⟩ := processRcpt_splits rfl h
          exact ⟨_, .rcpt hst hletter hemail⟩
  | ptDataEnd =>
      have hst : s.state = .expectDataRecv := by simpa [ServerState.takes] using htakes
      rw [dispatch_of_some .processDataEnd (by simp [hst, eventMap, serverStep]) rfl] at h
      obtain ⟨letter, hletter⟩ := processDataEnd_letter h
      exact ⟨_, .dot hst hletter⟩
  | ptDataRecv =>
      have hst : s.state = .expectDataRecv := by simpa [ServerState.takes] using htakes
      rw [dispatch_of_some .processDataRecv (by simp [hst, eventMap, serverStep]) rfl,
        if_pos rfl] at h
      obtain ⟨hlen, letter, hletter⟩ := processDataRecv_letter rfl h
      by_cases hmark : dataMark <:+ s.recvBuf
      · exact ⟨_, .mark hst hletter hmark⟩
      · exact ⟨_, .text hst hletter hlen hmark⟩
  | ptStart | ptEmail | ptEnd => cases htakes

inductive Fails (e : Env) (s : Session) : PatternType → Option CStr → Halt → Prop
  | rset {arg : Option CStr} (h : s.state.isOpen = true)
      (hletter : ∀ letter, s.letter ≠ .live letter) : Fails e s .ptRset arg .badLetter
  | rcpt {arg : CStr} (h : s.state = .expectRcpt) (hemail : patternEmail arg = none) :
      Fails e s .ptRcpt (some arg) .nullRead
  | short {arg : Option CStr} (h : s.state = .expectDataRecv) (hlen : s.recvBuf.length < 5) :
      Fails e s .ptDataRecv arg .outOfBounds

/-- A command that is taken is served, unless it fails. -/
theorem serves_or_fails {type : PatternType} {content : Option CStr} (hready : LetterReady s)
    (h : s.state.takes type = true) :
    (∃ o, Serves e s type content o) ∨ ∃ halt, Fails e s type content halt := by
  cases type with
  | ptQuit => exact .inl ⟨_, .quit (by simpa [ServerState.takes] using h)⟩
  | ptVrfy => exact .inl ⟨_, .vrfy h⟩
  | ptHelo => exact .inl ⟨_, .helo (by simpa [ServerState.takes] using h)⟩
  | ptEhlo => exact .inl ⟨_, .ehlo (by simpa [ServerState.takes] using h)⟩
  | ptData => exact .inl ⟨_, .data (by simpa [ServerState.takes] using h)⟩
  | ptRset =>
      by_cases hletter : ∃ letter, s.letter = .live letter
      · obtain ⟨letter, hletter⟩ := hletter
        exact .inl ⟨_, .rset h hletter⟩
      · exact .inr ⟨_, .rset h (not_exists.mp hletter)⟩
  | ptMail =>
      have hst : s.state = .expectMail := by simpa [ServerState.takes] using h
      cases content with
      | none => exact .inl ⟨_, .mailNone hst⟩
      | some arg => exact .inl ⟨_, .mail hst⟩
  | ptRcpt =>
      have hst : s.state = .expectRcpt := by simpa [ServerState.takes] using h
      obtain ⟨letter, hletter⟩ := hready (by rw [hst]; rfl)
      cases content with
      | none => exact .inl ⟨_, .rcptNone hst⟩
      | some arg =>
          cases hemail : patternEmail arg with
          | none => exact .inr ⟨_, .rcpt hst hemail⟩
          | some halves => exact .inl ⟨_, .rcpt hst hletter hemail⟩
  | ptDataEnd =>
      have hst : s.state = .expectDataRecv := by simpa [ServerState.takes] using h
      obtain ⟨letter, hletter⟩ := hready (by rw [hst]; rfl)
      exact .inl ⟨_, .dot hst hletter⟩
  | ptDataRecv =>
      have hst : s.state = .expectDataRecv := by simpa [ServerState.takes] using h
      obtain ⟨letter, hletter⟩ := hready (by rw [hst]; rfl)
      by_cases hmark : dataMark <:+ s.recvBuf
      · exact .inl ⟨_, .mark hst hletter hmark⟩
      · by_cases hlen : 5 ≤ s.recvBuf.length
        · exact .inl ⟨_, .text hst hletter hlen hmark⟩
        · exact .inr ⟨_, .short hst (not_le.mp hlen)⟩
  | ptStart | ptEmail | ptEnd => cases h

theorem dispatch_of_fails {type : PatternType} {content : Option CStr} {halt : Halt}
    (hready : LetterReady s) (h : Fails e s type content halt) :
    dispatch e s type content = .error halt := by
  cases h with
  | rset h hletter =>
      have hstep : serverStep s.state .rset = some .processRset := serverStep_rset h
      rw [dispatch_of_some .processRset hstep rfl]
      have hfree : letterFree s.letter = .error .badLetter := by
        cases hp : s.letter with
        | live letter => exact absurd hp (hletter letter)
        | none | freed => rfl
      simp only [processRset, hfree]
      rfl
  | @rcpt arg h hemail =>
      obtain ⟨letter, hletter⟩ := hready (by rw [h]; rfl)
      rw [dispatch_of_some .processRcpt (by simp [h, eventMap, serverStep]) rfl, if_neg (by simp)]
      simp only [processRcpt, hletter, hemail]
      rfl
  | short h hlen =>
      rw [dispatch_of_some .processDataRecv (by simp [h, eventMap, serverStep]) rfl, if_pos rfl]
      exact if_pos hlen

/-! ### Passes -/

theorem Serves.state_ne_init {type : PatternType} {content : Option CStr} {o : Effect}
    (h : Serves e s type content o) : s.state ≠ .init := by
  intro hinit
  cases h <;> simp_all [ServerState.isOpen]

theorem Serves.noMatch {buf : CStr} {content : Option CStr} {o : Effect}
    (h : Serves e s (patternScan buf).1 content o) :
    noMatch (patternScan buf).1 s.state = false := by
  rw [Bool.eq_false_iff, ne_eq, noMatch_patternScan_iff]
  rintro ⟨htype, hst⟩
  rw [htype] at h
  cases h with
  | text h | mark h => exact hst h

/-- A chunk that is served is served by the pass. -/
theorem protocolUpdate_of_serves {o : Effect} (hrecv : s.recvBuf ≠ [])
    (ho : Serves e s (patternScan s.recvBuf).1 (patternScan s.recvBuf).2 o) :
    ∃ s', protocolUpdate e s = .ok s' ∧ Gives s o s' ∧ s'.recvBuf = [] ∧ s'.watch = e.now := by
  obtain ⟨s', hok, hs'⟩ := dispatch_of_serves ho
  refine ⟨{ s' with recvBuf := [], watch := e.now }, ?_,
    ⟨hs'.state, hs'.letter, hs'.replies, hs'.sendBuf, hs'.files⟩, rfl, rfl⟩
  rw [protocolUpdate_of_chunk hrecv ho.state_ne_init, updateRecv_of_dispatch ho.noMatch, hok]
  rfl

theorem protocolUpdate_of_scan {type : PatternType} {content : Option CStr} {o : Effect}
    (hrecv : s.recvBuf ≠ []) (hscan : patternScan s.recvBuf = (type, content))
    (ho : Serves e s type content o) :
    ∃ s', protocolUpdate e s = .ok s' ∧ Gives s o s' := by
  obtain ⟨s', hok, hgives, -⟩ :=
    protocolUpdate_of_serves (e := e) (o := o) hrecv (by rw [hscan]; exact ho)
  exact ⟨s', hok, hgives⟩

theorem Fails.state_ne_init {type : PatternType} {content : Option CStr} {halt : Halt}
    (h : Fails e s type content halt) : s.state ≠ .init := by
  intro hinit
  cases h <;> simp_all [ServerState.isOpen]

/-- A chunk that fails stops the pass. -/
theorem protocolUpdate_of_fails {type : PatternType} {content : Option CStr} {halt : Halt}
    (hready : LetterReady s) (hrecv : s.recvBuf ≠ [])
    (hscan : patternScan s.recvBuf = (type, content)) (h : Fails e s type content halt) :
    protocolUpdate e s = .error halt := by
  have hno : noMatch (patternScan s.recvBuf).1 s.state = false := by
    rw [hscan]
    cases h with
    | short hst => simp [hst, noMatch]
    | rset | rcpt => rfl
  rw [protocolUpdate_of_chunk hrecv h.state_ne_init, updateRecv_of_dispatch hno, hscan,
    dispatch_of_fails hready h]
  rfl

/-- Everything a pass over a greeted connection can come to. -/
inductive Passed (e : Env) (s s' : Session) : Prop
  | idle (hrecv : s.recvBuf = []) (hs : s' = s)
  | timeout (hrecv : s.recvBuf = []) (hs : s' = updateTimeout s)
  | unknown (hrecv : s.recvBuf ≠ []) (hno : noMatch (patternScan s.recvBuf).1 s.state = true)
      (hs : s' = { s.reply response500 with recvBuf := [], watch := e.now })
  | served (o : Effect) (hrecv : s.recvBuf ≠ [])
      (ho : Serves e s (patternScan s.recvBuf).1 (patternScan s.recvBuf).2 o) (hs : Gives s o s')

theorem protocolUpdate_passed (hinit : s.state ≠ .init) (h : protocolUpdate e s = .ok s') :
    Passed e s s' := by
  by_cases hrecv : s.recvBuf = []
  · rw [protocolUpdate_of_idle hrecv hinit] at h
    cases h
    split
    · exact .timeout hrecv rfl
    · exact .idle hrecv rfl
  · rw [protocolUpdate_of_chunk hrecv hinit] at h
    cases hno : noMatch (patternScan s.recvBuf).1 s.state with
    | true =>
        rw [updateRecv_of_noMatch hno] at h
        cases h
        exact .unknown hrecv hno rfl
    | false =>
        rw [updateRecv_of_dispatch hno] at h
        obtain ⟨s₁, hok, h⟩ := bind_eq_ok.mp h
        cases h
        obtain ⟨o, ho, hs₁⟩ := dispatch_ok hok
        exact .served o hrecv ho ⟨hs₁.state, hs₁.letter, hs₁.replies, hs₁.sendBuf, hs₁.files⟩

/-! ### The history of a connection -/

structure Exchange where
  chunk : CStr
  replies : List CStr
  deriving DecidableEq

namespace Link

def exchange (l : Link) (r : Round) (l' : Link) : List Exchange :=
  if l.received r = [] then []
  else [⟨l.received r, l'.session.replies.drop l.session.replies.length⟩]

def talk : Link × List Exchange → Round → Except LinkEnd (Link × List Exchange) :=
  logged round exchange

variable {l l' : Link} {r : Round}

theorem exchange_of_idle (h : (l.connUpdate r).session.recvBuf = []) : l.exchange r l' = [] :=
  if_pos h

theorem exchange_of_chunk {replies : List CStr} (h : (l.connUpdate r).session.recvBuf ≠ [])
    (hreplies : l'.session.replies = (l.connUpdate r).session.replies ++ replies) :
    l.exchange r l' = [⟨(l.connUpdate r).session.recvBuf, replies⟩] := by
  rw [connUpdate_replies] at hreplies
  refine (if_neg h).trans ?_
  rw [hreplies, List.drop_left]
  rfl

theorem round_passed (hl : l.Greeted) (h : l.round r = .ok l') :
    ¬l.Closing r ∧ Passed r.env (l.connUpdate r).session l'.session := by
  by_cases hclosing : l.Closing r
  · rw [round_of_closing hclosing] at h
    cases h
  · rw [round_of_not_closing hclosing] at h
    exact ⟨hclosing, protocolUpdate_passed (by simpa using hl.state) (protocolUpdate_eq_ok h).1⟩

end Link

end SmtpProj.Server
