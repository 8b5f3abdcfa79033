import SmtpProj.Server.Worker

/-!
What the dialogue does with the chunks of a connection, over whole runs.

A chunk is classified before the state is looked at. If the event of its class
has no transition, the process ends, unless the class is message text. So a
run answers every chunk that does not fit exactly when all of these are message
text. In the data state the same classification decides whether a chunk is
taken for text at all.
-/

namespace SmtpProj.Server

open Lib

def Round.greeting (e : Env) : Round := ⟨.idle, .again, e⟩

/-- A round that delivers a chunk and whose replies go out whole. -/
def Round.chunk (e : Env) (text : CStr) : Round := ⟨.readable text, .sent bufSize, e⟩

namespace Link

def received (l : Link) (r : Round) : CStr := (l.connUpdate r).session.recvBuf

/-- `conn_update` closes the connection, and `protocol_update` does not see
it. -/
def Closing (l : Link) (r : Round) : Prop :=
  l.session.state = .disconnected ∧ r.ready ≠ .selectFailed

instance (l : Link) (r : Round) : Decidable (l.Closing r) := by
  unfold Closing
  infer_instance

/-! ### Greeted connections -/

structure Greeted (l : Link) : Prop where
  state : l.session.state ≠ .init
  recvBuf : l.session.recvBuf = []
  letter : LetterReady l.session

theorem round_of_closing {l : Link} {r : Round} (h : l.Closing r) :
    l.round r = .error .closed := if_pos h

theorem round_of_not_closing {l : Link} {r : Round} (h : ¬l.Closing r) :
    l.round r = (l.connUpdate r).protocolUpdate r := if_neg h

@[simp] theorem not_closing_accepted (now : Timeval) (r : Round) : ¬(accepted now).Closing r := by
  simp [Closing, accepted, connCreate]

theorem protocolUpdate_eq_ok {l l' : Link} {r : Round} (h : l.protocolUpdate r = .ok l') :
    Server.protocolUpdate r.env l.session = .ok l'.session ∧
      l'.inRead = l.inRead ∧ l'.inWrite = l.inWrite := by
  unfold protocolUpdate at h
  cases hs : Server.protocolUpdate r.env l.session with
  | error e =>
      rw [hs] at h
      cases h
  | ok s =>
      rw [hs] at h
      cases h
      exact ⟨rfl, rfl, rfl⟩

end Link

/-- A pass over a greeted connection leaves it ready for the next chunk. -/
theorem protocolUpdate_greeted {e : Env} {s s' : Session} (hstate : s.state ≠ .init)
    (hletter : LetterReady s) (h : protocolUpdate e s = .ok s') :
    s'.state ≠ .init ∧ s'.recvBuf = [] ∧ LetterReady s' := by
  by_cases hrecv : s.recvBuf = []
  · rw [protocolUpdate_of_idle hrecv hstate] at h
    cases h
    split
    · exact ⟨by simp [updateTimeout], hrecv,
        by simp [LetterReady, updateTimeout, ServerState.inMail]⟩
    · exact ⟨hstate, hrecv, hletter⟩
  · rw [protocolUpdate_of_chunk hrecv hstate] at h
    have hs' := updateRecv_ok h
    exact ⟨hs'.state_ne_init hstate, hs'.recvBuf, hs'.letter hletter⟩

namespace Link

theorem Greeted.ready {l : Link} (hl : l.Greeted) (r : Round) :
    LetterReady (l.connUpdate r).session := by
  simpa [LetterReady] using hl.letter

theorem Greeted.round {l l' : Link} {r : Round} (hl : l.Greeted) (h : l.round r = .ok l') :
    l'.Greeted := by
  by_cases hclosing : l.Closing r
  · rw [round_of_closing hclosing] at h
    cases h
  · rw [round_of_not_closing hclosing] at h
    obtain ⟨hs, -, -⟩ := protocolUpdate_eq_ok h
    obtain ⟨hstate, hrecv, hletter⟩ :=
      protocolUpdate_greeted (by simpa using hl.state) (hl.ready r) hs
    exact ⟨hstate, hrecv, hletter⟩

/-- What the greeting leaves: the first line is waited for, unless the
connection was given up at once. -/
theorem session_of_greeting {now : Timeval} {e : Env} {l : Link}
    (h : (accepted now).round (.greeting e) = .ok l) :
    (l.session.state = .ready ∨ l.session.state = .disconnected) ∧ l.session.letter = .none ∧
      l.session.recvBuf = [] := by
  rw [round_of_not_closing (not_closing_accepted _ _)] at h
  obtain ⟨hs, -, -⟩ := protocolUpdate_eq_ok h
  have hs : _ = Except.ok l.session := (protocolUpdate_of_init rfl rfl).symm.trans hs
  rw [← Except.ok.inj hs]
  dsimp only
  split_ifs
  · exact ⟨.inr rfl, rfl, rfl⟩
  · exact ⟨.inl rfl, rfl, rfl⟩

theorem greeted_of_greeting {now : Timeval} {e : Env} {l : Link}
    (h : (accepted now).round (.greeting e) = .ok l) : l.Greeted := by
  obtain ⟨hstate, -, hrecv⟩ := session_of_greeting h
  refine ⟨?_, hrecv, ?_⟩
  · rcases hstate with hst | hst <;> simp [hst]
  · rcases hstate with hst | hst <;> simp [LetterReady, hst, ServerState.inMail]

theorem round_greeting_ne_halted (now : Timeval) (e : Env) (halt : Halt) :
    (accepted now).round (.greeting e) ≠ .error (.halted halt) := by
  rw [round_of_not_closing (not_closing_accepted _ _), protocolUpdate,
    protocolUpdate_of_init rfl rfl]
  simp

/-- Every state of a connection between two rounds. -/
theorem greeted_of_run {now : Timeval} {e : Env} {rs : List Round} {l : Link}
    (h : run round (accepted now) (.greeting e :: rs) = .ok l) : l.Greeted := by
  obtain ⟨l₀, h₀, hrest⟩ := bind_eq_ok.mp h
  exact run_invariant (fun _ _ _ hl _ => Greeted.round hl) (greeted_of_greeting h₀)
    (guarded_true l₀ rs) hrest

/-- Two properties of rounds that agree for the greeting, and in every greeted
connection, agree along the runs of a connection. -/
theorem along_greeted_congr {Q Q' : Link → Round → Prop} {now : Timeval} {e : Env}
    {rs : List Round}
    (hfirst : Q (accepted now) (.greeting e) ↔ Q' (accepted now) (.greeting e))
    (hQ : ∀ l : Link, l.Greeted → ∀ r, Q l r ↔ Q' l r) :
    Along round Q (accepted now) (.greeting e :: rs) ↔
      Along round Q' (accepted now) (.greeting e :: rs) :=
  along_congr_after hfirst (fun _ => greeted_of_greeting) (fun _ _ _ hl h => Greeted.round hl h)
    (fun l r _ hl => hQ l hl r)

/-! ### Chunks without a transition -/

def Unexpected (st : ServerState) (chunk : CStr) : Prop :=
  chunk ≠ [] ∧ serverStep st (eventMap (patternScan chunk).1) = none

/-- The automaton is never asked for a missing transition, and a chunk without
one is answered with a 5xx reply and changes neither state nor letter. -/
structure Obeys (l : Link) (r : Round) : Prop where
  defined : l.round r ≠ .error (.halted .badTransition)
  rejected : ¬l.Closing r → Unexpected l.session.state (l.received r) →
    ∃ l' text, l.round r = .ok l' ∧ l'.session.replies = l.session.replies ++ [text] ∧
      text.head? = some '5' ∧ l'.session.state = l.session.state ∧
      l'.session.letter = l.session.letter

/-- The chunk has a transition, or it is message text. -/
def InOrder (l : Link) (r : Round) : Prop :=
  l.Closing r ∨ ¬Unexpected l.session.state (l.received r) ∨
    (patternScan (l.received r)).1 = .ptDataRecv

theorem obeys_iff_inOrder {l : Link} (hl : l.session.state ≠ .init) (r : Round) :
    l.Obeys r ↔ l.InOrder r := by
  by_cases hclosing : l.Closing r
  · exact iff_of_true ⟨by simp [round_of_closing hclosing], fun h => absurd hclosing h⟩
      (.inl hclosing)
  have hround := round_of_not_closing hclosing
  have hinit : (l.connUpdate r).session.state ≠ .init := by simpa using hl
  by_cases hrecv : l.received r = []
  · have hok : ∃ l', l.round r = .ok l' := by
      rw [hround, protocolUpdate, protocolUpdate_of_idle hrecv hinit]
      exact ⟨_, rfl⟩
    obtain ⟨l', hok⟩ := hok
    exact iff_of_true ⟨by simp [hok], fun _ h => absurd hrecv h.1⟩ (.inr (.inl fun h => h.1 hrecv))
  have hstate : (l.connUpdate r).session.state = l.session.state := connUpdate_state r l
  have hround : l.round r = (l.connUpdate r).protocolUpdate r := hround
  unfold protocolUpdate at hround
  rw [protocolUpdate_of_chunk hrecv hinit] at hround
  cases hno : noMatch (patternScan (l.received r)).1 (l.connUpdate r).session.state with
  | true =>
      -- message text outside the data state
      obtain ⟨htext, -⟩ := noMatch_patternScan_iff.mp hno
      rw [updateRecv_of_noMatch hno] at hround
      refine iff_of_true ⟨by simp [hround], fun _ _ => ?_⟩ (.inr (.inr htext))
      exact ⟨_, response500, hround, by simp, rfl, by simp, by simp⟩
  | false =>
      by_cases hnone : serverStep l.session.state (eventMap (patternScan (l.received r)).1) = none
      · have hbad := updateRecv_badTransition (e := r.env) hno (by rw [hstate]; exact hnone)
        rw [hbad] at hround
        refine iff_of_false (fun h => h.defined hround) ?_
        rintro (h | h | h)
        · exact hclosing h
        · exact h ⟨hrecv, hnone⟩
        · have hdata : l.session.state = .expectDataRecv := by
            by_contra hne
            rw [hstate, noMatch_patternScan_iff.mpr ⟨h, hne⟩] at hno
            cases hno
          simp [h, hdata, eventMap, serverStep] at hnone
      · have hspec : FaultsOr _ (updateRecv r.env (l.connUpdate r).session) :=
          updateRecv_spec fun _ => by rw [hstate]; exact hnone
        refine iff_of_true ⟨?_, fun _ h => absurd h.2 hnone⟩ (.inr (.inl fun h => hnone h.2))
        rcases hspec with ⟨h, herr, hh⟩ | ⟨s', hok, -⟩
        · simp [hround, herr, hh]
        · simp [hround, hok]

/-- A run answers every chunk it has no transition for, and never ends on one,
exactly when each such chunk is message text. -/
theorem commands_answered_iff (now : Timeval) (e : Env) (rs : List Round) :
    Along round Obeys (accepted now) (.greeting e :: rs) ↔
      Along round InOrder (accepted now) (.greeting e :: rs) := by
  have hidle : (accepted now).received (.greeting e) = [] := rfl
  have hcompletes := round_greeting_ne_halted now e .badTransition
  have hobeys : (accepted now).Obeys (.greeting e) := ⟨hcompletes, fun _ h => absurd hidle h.1⟩
  have hinOrder : (accepted now).InOrder (.greeting e) := .inr (.inl fun h => h.1 hidle)
  exact along_greeted_congr (iff_of_true hobeys hinOrder)
    fun _ hl r => obeys_iff_inOrder hl.state r

/-- A MAIL command before HELO ends the process. -/
theorem mail_before_helo_ends_process :
    let rs := [Round.greeting sampleEnv, .chunk sampleEnv "MAIL FROM:<a@b.c>\r\n".toList]
    run round (accepted ⟨0, 0⟩) rs = .error (.halted .badTransition) ∧
      ¬Along round Obeys (accepted ⟨0, 0⟩) rs := by
  refine ⟨by decide, ?_⟩
  rintro ⟨-, h⟩
  have hl := (h _ rfl).1.defined
  exact hl (by decide)

end Link

/-! ### Message text -/

/-- What ends the message: a line with a single dot, or a chunk with the end
mark behind the text. -/
def EndMark (chunk : CStr) : Prop := LoneDot chunk ∨ dataMark <:+ chunk

instance : DecidablePred EndMark := fun _ => by
  unfold EndMark
  infer_instance

def TakenAsText (e : Env) (s : Session) : Prop :=
  ∃ letter s', s.letter = .live letter ∧ protocolUpdate e s = .ok s' ∧
    s'.state = .expectDataRecv ∧
    s'.letter = .live { letter with body := letter.body ++ s.recvBuf ++ crlf }

theorem dataMark_suffix_iff {text : CStr} :
    text.drop (text.length - 5) = dataMark ↔ dataMark <:+ text := by
  rw [List.suffix_iff_eq_drop]
  exact eq_comm

variable {e : Env} {s : Session}

theorem processDataRecv_of_text {letter : Letter} {text : CStr}
    (hst : s.state = .processDataRecv) (hletter : s.letter = .live letter)
    (hlen : 5 ≤ text.length) (hmark : ¬dataMark <:+ text) :
    processDataRecv e s (some text) = .ok { s with
      state := .expectDataRecv
      letter := .live { letter with body := letter.body ++ text ++ crlf } } := by
  unfold processDataRecv
  dsimp only
  rw [if_neg (by omega), if_neg (by rwa [dataMark_suffix_iff]), appendBody, hletter]
  exact Session.step_of_some _ (by simp [hst, serverStep])

theorem serverStep_expectDataRecv_keyword {type : PatternType} (h : type.isKeyword = true) :
    serverStep .expectDataRecv (eventMap type) = none := by
  cases type <;> first | rfl | cases h

/-- The pass over a connection in the data state. -/
theorem takenAsText_iff_of_ready (hready : LetterReady s) (hst : s.state = .expectDataRecv)
    (hrecv : s.recvBuf ≠ []) (hend : ¬EndMark s.recvBuf) :
    TakenAsText e s ↔ NoKeyword s.recvBuf ∧ 5 ≤ s.recvBuf.length := by
  obtain ⟨letter, hletter⟩ := hready (by rw [hst]; rfl)
  have hdot : ¬LoneDot s.recvBuf := fun h => hend (.inl h)
  have hmark : ¬dataMark <:+ s.recvBuf := fun h => hend (.inr h)
  have hpass : protocolUpdate e s = updateRecv e s :=
    protocolUpdate_of_chunk hrecv (by simp [hst])
  have hno : noMatch (patternScan s.recvBuf).1 s.state = false := by
    cases h : noMatch (patternScan s.recvBuf).1 s.state with
    | false => rfl
    | true => exact absurd hst (noMatch_patternScan_iff.mp h).2
  rw [updateRecv_of_dispatch hno] at hpass
  rcases patternScan_cases s.recvBuf with ⟨type, content, htype, hscan, hmatch⟩ |
    ⟨-, h, -⟩ | ⟨hkey, -, content, hscan⟩
  · -- a command line asks for a transition that the data state does not have
    have hstep : serverStep s.state (eventMap (patternScan s.recvBuf).1) = none := by
      rw [hst, hscan, serverStep_expectDataRecv_keyword htype]
    rw [dispatch_badTransition hstep] at hpass
    refine iff_of_false ?_ fun h => by simp [h.1 type htype] at hmatch
    rintro ⟨_, s', -, hok, -⟩
    rw [hpass] at hok
    cases hok
  · exact absurd h hdot
  · have hdispatch : dispatch e s (patternScan s.recvBuf).1 (patternScan s.recvBuf).2 =
        processDataRecv e { s with oldState := s.state, state := .processDataRecv }
          (some s.recvBuf) := by
      rw [hscan]
      exact dispatch_of_some _ (by simp [hst, eventMap, serverStep]) rfl
    rw [hdispatch] at hpass
    by_cases hlen : 5 ≤ s.recvBuf.length
    · rw [processDataRecv_of_text
        (s := { s with oldState := s.state, state := .processDataRecv }) rfl hletter hlen
        hmark] at hpass
      exact iff_of_true ⟨letter, _, hletter, hpass, rfl, rfl⟩ ⟨hkey, hlen⟩
    · have hfault : processDataRecv e { s with oldState := s.state, state := .processDataRecv }
          (some s.recvBuf) = .error .outOfBounds := if_pos (by omega)
      rw [hfault] at hpass
      refine iff_of_false ?_ fun h => hlen h.2
      rintro ⟨_, s', -, hok, -⟩
      rw [hpass] at hok
      cases hok

namespace Link

def upToData : List Round :=
  ["HELO c\r\n", "MAIL FROM:<a@b.c>\r\n", "RCPT TO:<d@e.f>\r\n", "DATA\r\n"].map fun line =>
    .chunk sampleEnv line.toList

end Link

end SmtpProj.Server
