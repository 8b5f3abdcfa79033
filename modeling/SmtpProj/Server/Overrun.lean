import SmtpProj.Server.Answers
import SmtpProj.Server.Fields

/-!
Passes that leave the fields they write, and what the machine makes of them.

A letter has 255 bytes for its recipient and for each half of it, and nothing
keeps a longer one from being copied there. What is overwritten then depends on
the heap: the fields that follow, other letters, what `free` looks at. And text
that is shorter than the end mark is compared from the bytes in front of
`recv_buf` on, which only decides whether it ends the message.

The program leaves both to the machine it runs on. An `Outside` is what the
machine does in one pass: it is free in what a pass comes to that writes past a
field, and bound to the handlers in every other. A property of all runs with
such passes holds whatever the machine is; where it fails, it fails on some
machine.
-/

namespace SmtpProj.Server

open Lib

/-! ### Short texts -/

structure Session.Short (s : Session) : Prop where
  state : s.state = .expectDataRecv
  recvBuf : s.recvBuf ≠ []
  command : s.command = .ptDataRecv
  length : s.recvBuf.length < 5

instance (s : Session) : Decidable s.Short :=
  decidable_of_iff (s.state = .expectDataRecv ∧ s.recvBuf ≠ [] ∧ s.command = .ptDataRecv ∧
    s.recvBuf.length < 5) ⟨fun ⟨h₁, h₂, h₃, h₄⟩ => ⟨h₁, h₂, h₃, h₄⟩,
      fun h => ⟨h.state, h.recvBuf, h.command, h.length⟩⟩

/-- The pass over a short text: `process_data_recv`, once it is known whether
the text and the bytes in front of it end in the mark. -/
def shortUpdate (ends : Bool) (e : Env) (s : Session) : Except Halt Session := do
  let s ← { s with oldState := s.state }.step .dataRecv
  let s ← (if ends then do
      let s ← { s with oldState := s.state }.step .ok
      let s ← s.step .dataEnd
      processDataEnd e s (some s.recvBuf)
    else do
      let s ← appendBody s s.recvBuf
      s.step .ok)
  .ok { s with recvBuf := [], watch := e.now }

def shortEffect (ends : Bool) (e : Env) (letter : Letter) (text : CStr) : Effect :=
  if ends then endOfData e (letter.add text)
  else ⟨.expectDataRecv, .live (letter.add text), none, []⟩

/-! ### Passes inside the fields -/

/-- The strings of the recipient are as long as their fields allow. -/
structure Letter.Intact (letter : Letter) : Prop where
  rcptTo : letter.rcptTo.length < fieldSize
  rcptUsername : letter.rcptUsername.length < fieldSize
  rcptDomain : letter.rcptDomain.length < fieldSize

instance (letter : Letter) : Decidable letter.Intact :=
  decidable_of_iff (letter.rcptTo.length < fieldSize ∧ letter.rcptUsername.length < fieldSize ∧
    letter.rcptDomain.length < fieldSize) ⟨fun ⟨h₁, h₂, h₃⟩ => ⟨h₁, h₂, h₃⟩,
      fun h => ⟨h.rcptTo, h.rcptUsername, h.rcptDomain⟩⟩

def Session.Ends (ends : Bool) (s : Session) : Prop :=
  s.state = .expectDataRecv ∧ (EndsMessage s.recvBuf ∨ ends = true ∧ s.Short)

/-- The pass writes nothing past the end of a field. The halves of a recipient
are shorter than the recipient. -/
structure Inside (ends : Bool) (e : Env) (s : Session) : Prop where
  letter : ∀ letter, s.letter = .live letter → letter.Intact
  recipient : s.state = .expectRcpt →
    ∀ arg, patternScan s.recvBuf = (.ptRcpt, some arg) → arg.length < fieldSize
  filename : s.Ends ends → ∀ letter, s.letter = .live letter →
    (letterName e letter.rcptDomain).length < filenameSize
  body : s.state = .expectDataRecv → s.recvBuf ≠ [] → s.command = .ptDataRecv →
    ∀ letter, s.letter = .live letter → (letter.add s.recvBuf).body.length < bodySize

structure Passing where
  saved : List (CStr × CStr)
  result : Except Halt Session

/-- A handler that ends the process has saved nothing before. -/
def Passing.of (s : Session) (result : Except Halt Session) : Passing where
  saved := match result with
    | .ok s' => s'.files.drop s.files.length
    | .error _ => []
  result := result

def passOf (ends : Bool) (e : Env) (s : Session) : Passing :=
  .of s (if s.Short then shortUpdate ends e s else protocolUpdate e s)

/-- What the machine does in a pass. -/
structure Outside where
  /-- Whether the bytes in front of a short text make an end mark of it. -/
  ends : Bool
  pass : Env → Session → Passing
  /-- What else the process has overwritten. -/
  spill : Env → Session → Worker → Worker
  pass_inside : ∀ e s, Inside ends e s → pass e s = passOf ends e s
  spill_inside : ∀ e s, Inside ends e s → ∀ w, spill e s w = w

variable {e : Env} {s s' : Session} {x : Outside} {ends : Bool}

/-! ### What an inside pass does -/

theorem shortUpdate_gives {letter : Letter} (hs : s.Short) (hletter : s.letter = .live letter) :
    ∃ s', shortUpdate ends e s = .ok s' ∧ Gives s (shortEffect ends e letter s.recvBuf) s' ∧
      s'.recvBuf = [] := by
  obtain ⟨hst, hrecv, -, -⟩ := hs
  rcases s with ⟨⟨sendBuf, recvBuf, state, oldState, letterPtr, watch⟩, replies, dirs, files, wire⟩
  obtain rfl : state = .expectDataRecv := hst
  obtain rfl : letterPtr = .live letter := hletter
  cases ends with
  | false =>
      exact ⟨_, rfl, ⟨rfl, rfl, (List.append_nil _).symm, rfl, (List.append_nil _).symm⟩, rfl⟩
  | true =>
      obtain ⟨s', hok, hs'⟩ := @processDataEnd_eq e
        ⟨⟨sendBuf, recvBuf, .processDataEnd, .processDataRecv, .live letter, watch⟩, replies,
          dirs, files, wire⟩ letter (some recvBuf) rfl rfl
      have hadd : letter.addText (some recvBuf) = letter.add recvBuf := by
        cases recvBuf with
        | nil => exact absurd rfl hrecv
        | cons c cs => rfl
      rw [hadd] at hs'
      have hupdate : shortUpdate true e
          ⟨⟨sendBuf, recvBuf, .expectDataRecv, oldState, .live letter, watch⟩, replies, dirs, files,
            wire⟩ = .ok { s' with recvBuf := [], watch := e.now } := by
        change (processDataEnd e _ (some recvBuf) >>= fun s => _) = _
        rw [hok]
        rfl
      exact ⟨_, hupdate, ⟨hs'.state, hs'.letter, hs'.replies, hs'.sendBuf, hs'.files⟩, rfl⟩

/-- The outcome of an inside pass that completes: a short text is added or ends
the message, and everything else is what `protocol_update` does. -/
inductive Ran (ends : Bool) (e : Env) (s s' : Session) : Prop
  | short (letter : Letter) (hs : s.Short) (hletter : s.letter = .live letter)
      (hgives : Gives s (shortEffect ends e letter s.recvBuf) s') (hrecv : s'.recvBuf = [])
  | handled (hs : ¬s.Short) (hok : protocolUpdate e s = .ok s')

theorem ran_of_inside (hready : LetterReady s) (hinside : Inside x.ends e s)
    (h : (x.pass e s).result = .ok s') : Ran x.ends e s s' := by
  rw [x.pass_inside e s hinside] at h
  change (if s.Short then shortUpdate x.ends e s else protocolUpdate e s) = .ok s' at h
  split_ifs at h with hshort
  · obtain ⟨letter, hletter⟩ := hready (by rw [hshort.state]; rfl)
    obtain ⟨s₁, hok, hgives, hrecv⟩ := @shortUpdate_gives e s x.ends _ hshort hletter
    obtain rfl := Except.ok.inj (hok.symm.trans h)
    exact .short letter hshort hletter hgives hrecv
  · exact .handled hshort h

theorem saved_of_inside (hinside : Inside x.ends e s) (hsaved : (x.pass e s).saved ≠ []) :
    ∃ s', (x.pass e s).result = .ok s' ∧ (x.pass e s).saved = s'.files.drop s.files.length := by
  rw [x.pass_inside e s hinside] at hsaved ⊢
  unfold passOf Passing.of at hsaved ⊢
  cases hres : (if s.Short then shortUpdate x.ends e s else protocolUpdate e s) with
  | error halt => simp [hres] at hsaved
  | ok s' => exact ⟨s', rfl, rfl⟩

/-- What is saved is the letter, with the text behind its envelope. -/
theorem Ran.saves {file : CStr × CStr} (h : Ran ends e s s') (hinit : s.state ≠ .init)
    (hfile : file ∈ s'.files.drop s.files.length) :
    s.state = .expectDataRecv ∧ ∃ letter body, s.letter = .live letter ∧
      file = (letter.filename e, ({ letter with body := body } : Letter).text) := by
  cases h with
  | handled _ hok =>
      have hfiles : s'.files ≠ s.files := fun heq => by simp [heq] at hfile
      obtain ⟨hst, letter, body, hletter, hsaved⟩ :=
        (protocolUpdate_passed hinit hok).saves hfiles
      rw [hsaved, List.drop_left, List.mem_singleton] at hfile
      exact ⟨hst, letter, body, hletter, hfile⟩
  | short letter hs hletter hgives =>
      rw [hgives.files, List.drop_left] at hfile
      unfold shortEffect endOfData at hfile
      split_ifs at hfile
      · exact ⟨hs.state, letter, _, hletter, List.mem_singleton.mp hfile⟩
      · cases hfile
      · cases hfile

theorem greeted_of_ran (hstate : s.state ≠ .init) (hready : LetterReady s)
    (h : Ran ends e s s') : s'.state ≠ .init ∧ s'.recvBuf = [] ∧ LetterReady s' := by
  cases h with
  | handled _ hok => exact protocolUpdate_greeted hstate hready hok
  | short letter _ _ hgives hrecv =>
      cases ends with
      | false =>
          refine ⟨by rw [hgives.state]; simp [shortEffect], hrecv, fun _ => ?_⟩
          exact ⟨_, hgives.letter⟩
      | true =>
          have hclosed := endOfData_state hgives.state.symm
          refine ⟨?_, hrecv, fun hin => ?_⟩
          · rcases hclosed with h | h <;> simp [h]
          · rcases hclosed with h | h <;> simp [h, ServerState.inMail] at hin

namespace Link

variable {l l' : Link} {r : Round} {h : List Exchange}

/-! ### Runs of a connection -/

def roundWith (l : Link) (r : Round × Outside) : Except LinkEnd Link :=
  if l.Closing r.1 then .error .closed
  else match (r.2.pass r.1.env (l.connUpdate r.1).session).result with
    | .ok s => .ok { l.connUpdate r.1 with session := s }
    | .error halt => .error (.halted halt)

def talkWith : Link × List Exchange → Round × Outside → Except LinkEnd (Link × List Exchange) :=
  logged roundWith fun l r l' => l.exchange r.1 l'

/-- The pass of the round is an inside one. -/
def InsideAt (l : Link) (r : Round × Outside) : Prop :=
  Inside r.2.ends r.1.env (l.connUpdate r.1).session

theorem roundWith_ok {r : Round × Outside} (hok : l.roundWith r = .ok l') :
    ¬l.Closing r.1 ∧ (r.2.pass r.1.env (l.connUpdate r.1).session).result = .ok l'.session := by
  unfold roundWith at hok
  split_ifs at hok with hclosing
  refine ⟨hclosing, ?_⟩
  cases hres : (r.2.pass r.1.env (l.connUpdate r.1).session).result with
  | error halt =>
      rw [hres] at hok
      cases hok
  | ok s =>
      rw [hres] at hok
      cases hok
      rfl

/-- Where no text is short, an inside round is a round of the handlers. -/
theorem roundWith_of_inside {r : Round × Outside} (hinside : l.InsideAt r)
    (hlong : ¬(l.connUpdate r.1).session.Short) : l.roundWith r = l.round r.1 := by
  unfold roundWith round protocolUpdate
  rw [r.2.pass_inside _ _ hinside, passOf, if_neg hlong]
  rfl

theorem roundWith_greeting (now : Timeval) (e : Env) (x : Outside) :
    (accepted now).roundWith (.greeting e, x) = (accepted now).round (.greeting e) := by
  have hinit : ((accepted now).connUpdate (.greeting e)).session.state = .init := rfl
  refine roundWith_of_inside ⟨fun _ h => ?_, fun h => ?_, fun h => ?_, fun h => ?_⟩ fun h => ?_
  · cases h
  · cases hinit.symm.trans h
  · cases hinit.symm.trans h.1
  · cases hinit.symm.trans h
  · cases hinit.symm.trans h.state

theorem Known.short {letter : Letter} (hl : Known (l, h)) (hshort : (l.connUpdate r).session.Short)
    (hletter : (l.connUpdate r).session.letter = .live letter)
    (hgives : Gives (l.connUpdate r).session
      (shortEffect ends r.env letter (l.connUpdate r).session.recvBuf) l'.session)
    (hrecv : l'.session.recvBuf = []) : Known (l', h ++ l.exchange r l') := by
  have hscan : patternScan (l.connUpdate r).session.recvBuf = (.ptDataRecv, _) :=
    Prod.ext hshort.command rfl
  have hagrees : Agrees (.live letter) h .expectDataRecv := by
    rw [← hletter, ← hshort.state, connUpdate_letter, connUpdate_state]
    exact hl.agrees
  have hcollected : Collected (.live letter) h .expectDataRecv := by
    rw [← hletter, ← hshort.state, connUpdate_letter, connUpdate_state]
    exact hl.collected
  -- a short text is none of the chunks that a message is made of
  have hcomposed : ∀ (p : LetterPtr) (st : ServerState) (replies : List CStr),
      (st ≠ .expectRcpt ∧ st ≠ .expectData) →
        Composed p (h ++ [⟨(l.connUpdate r).session.recvBuf, replies⟩]) st := by
    rintro p st replies ⟨hrcpt, hdata⟩
    refine composed_of_answered (fun hst => ?_) (fun hx => ?_) fun hx => ?_
    · exact hst.elim (absurd · hrcpt) (absurd · hdata)
    · exact absurd (hshort.command.symm.trans hx.1) (by simp)
    · exact absurd hx.length (not_le.mpr hshort.length)
  obtain ⟨hstate, -, hready⟩ := greeted_of_ran (by simpa using hl.greeted.state)
    (hl.greeted.ready r) (.short letter hshort hletter hgives hrecv)
  refine ⟨⟨hstate, hrecv, hready⟩, ?_, ?_, ?_⟩ <;>
    rw [exchange_of_chunk (l := l) hshort.recvBuf hgives.replies, hgives.letter, hgives.state] <;>
    cases ends
  · exact hagrees.add hscan _
  · obtain ⟨l₁, -, -, hm⟩ := hagrees
    exact agrees_endOfData hm (by rw [hscan]; simp)
  · exact hcomposed _ _ _ (by simp [shortEffect])
  · refine hcomposed _ _ _ ?_
    rcases endOfData_state rfl with hst | hst <;> rw [shortEffect, if_pos rfl, hst] <;> simp
  · exact hcollected.add (by rw [hscan]; simp) _
  · exact fun hst => by simpa using endOfData_state hst

/-- An inside round keeps what is known, whatever the machine is. -/
theorem Known.roundWith {r : Round × Outside} (hl : Known (l, h)) (hinside : l.InsideAt r)
    (hok : l.roundWith r = .ok l') : Known (l', h ++ l.exchange r.1 l') := by
  obtain ⟨-, hres⟩ := roundWith_ok hok
  cases ran_of_inside (hl.greeted.ready r.1) hinside hres with
  | short letter hshort hletter hgives hrecv => exact hl.short hshort hletter hgives hrecv
  | handled hlong =>
      rw [roundWith_of_inside hinside hlong] at hok
      have htalk : Link.talk (l, h) r.1 = .ok (l', h ++ l.exchange r.1 l') :=
        logged_eq_ok.mpr ⟨hok, rfl⟩
      exact hl.talk htalk

theorem Idle.roundWith {r : Round × Outside} (hidle : l.Idle) (hl : l.Greeted)
    (hinside : l.InsideAt r) (hok : l.roundWith r = .ok l') : l'.Idle := by
  obtain ⟨-, hres⟩ := roundWith_ok hok
  cases ran_of_inside (hl.ready r.1) hinside hres with
  | handled hlong =>
      rw [roundWith_of_inside hinside hlong] at hok
      exact hidle.round hl hok
  | short letter _ _ hgives =>
      refine .inl ?_
      rw [hgives.state]
      cases r.2.ends with
      | false => rfl
      | true =>
          rcases endOfData_state rfl with hst | hst <;> rw [shortEffect, if_pos rfl, hst] <;> rfl

/-- What an inside round saves is the letter of the connection. -/
theorem saved_of_known {r : Round × Outside} {file : CStr × CStr} (hl : Known (l, h))
    (hinside : l.InsideAt r)
    (hfile : file ∈ (r.2.pass r.1.env (l.connUpdate r.1).session).saved) :
    l.session.state = .expectDataRecv ∧ ∃ letter body, l.session.letter = .live letter ∧
      file = (letter.filename r.1.env, ({ letter with body := body } : Letter).text) := by
  obtain ⟨s', hres, hsaved⟩ := saved_of_inside hinside (List.ne_nil_of_mem hfile)
  rw [hsaved] at hfile
  simpa using (ran_of_inside (hl.greeted.ready r.1) hinside hres).saves
    (by simpa using hl.greeted.state) hfile

theorem known_of_runWith {now : Timeval} {e : Env} {x : Outside} {rs : List (Round × Outside)}
    (hrun : run talkWith (accepted now, []) ((.greeting e, x) :: rs) = .ok (l, h))
    (hinside : Guarded talkWith (fun c r => c.1.InsideAt r) (accepted now, [])
      ((.greeting e, x) :: rs)) : Known (l, h) ∧ l.Idle := by
  obtain ⟨c₀, hgreeting, hrest⟩ := bind_eq_ok.mp hrun
  obtain ⟨hround, hlog⟩ := logged_eq_ok.mp hgreeting
  rw [roundWith_greeting] at hround
  have hknown : Known c₀ := known_of_greeting (logged_eq_ok.mpr ⟨hround, hlog⟩)
  have hidle : c₀.1.Idle := idle_of_greeting hround
  refine run_invariant (P := fun c => Known c ∧ c.1.Idle) (fun c r c' hc hin hok => ?_)
    ⟨hknown, hidle⟩ (hinside c₀ hgreeting).2 hrest
  obtain ⟨hround, hlog⟩ := logged_eq_ok.mp hok
  have hknown' := hc.1.roundWith hin hround
  rw [← hlog] at hknown'
  exact ⟨hknown', hc.2.roundWith hc.1.greeted hin hround⟩

end Link

/-! ### Machines -/

def LetterPtr.toOption : LetterPtr → Option Letter
  | .live letter => some letter
  | .none => Option.none
  | .freed => Option.none

@[simp] theorem LetterPtr.mem_toOption {p : LetterPtr} {letter : Letter} :
    letter ∈ p.toOption ↔ p = .live letter := by
  cases p <;> simp [toOption, eq_comm]

instance (chunk : CStr) : Decidable (EndsMessage chunk) :=
  inferInstanceAs (Decidable ((patternScan chunk).1 = .ptDataEnd ∨
    (patternScan chunk).1 = .ptDataRecv ∧ dataMark <:+ chunk))

instance (ends : Bool) (s : Session) : Decidable (s.Ends ends) :=
  inferInstanceAs (Decidable (s.state = .expectDataRecv ∧
    (EndsMessage s.recvBuf ∨ ends = true ∧ s.Short)))

instance (ends : Bool) (e : Env) (s : Session) : Decidable (Inside ends e s) :=
  decidable_of_iff ((∀ letter ∈ s.letter.toOption, letter.Intact) ∧
    (s.state = .expectRcpt → s.command = .ptRcpt →
      ∀ arg ∈ (patternScan s.recvBuf).2, arg.length < fieldSize) ∧
    (s.Ends ends → ∀ letter ∈ s.letter.toOption,
      (letterName e letter.rcptDomain).length < filenameSize) ∧
    (s.state = .expectDataRecv → s.recvBuf ≠ [] → s.command = .ptDataRecv →
      ∀ letter ∈ s.letter.toOption, (letter.add s.recvBuf).body.length < bodySize)) <| by
  simp only [LetterPtr.mem_toOption]
  constructor
  · rintro ⟨hletter, hrecipient, hfilename, hbody⟩
    refine ⟨hletter, fun hst arg hscan => hrecipient hst ?_ arg ?_, hfilename, hbody⟩
    · rw [Session.command, hscan]
    · rw [hscan]
      exact rfl
  · rintro ⟨hletter, hrecipient, hfilename, hbody⟩
    exact ⟨hletter, fun hst htype arg harg => hrecipient hst arg (Prod.ext htype harg), hfilename,
      hbody⟩

instance (l : Link) (r : Round × Outside) : Decidable (l.InsideAt r) :=
  inferInstanceAs (Decidable (Inside r.2.ends r.1.env (l.connUpdate r.1).session))

/-- A machine that ends the process where a field is left. -/
def trapping (ends : Bool) : Outside where
  ends := ends
  pass := fun e s => if Inside ends e s then passOf ends e s else ⟨[], .error .outOfBounds⟩
  spill := fun _ _ w => w
  pass_inside := fun _ _ h => if_pos h
  spill_inside := fun _ _ _ _ => rfl

theorem inside_of_trapping {ends : Bool} {s' : Session}
    (h : ((trapping ends).pass e s).result = .ok s') : Inside ends e s := by
  by_contra hnot
  simp [trapping, hnot] at h

/-- The distance of two fields of 255 bytes that are allocated one after the
other, and the bytes that the first one has before the header of the second. -/
def fieldStride : ℕ := 272
def fieldRoom : ℕ := 264

def copyAt (n : ℕ) (text : CStr) (mem : List Char) : List Char :=
  mem.take n ++ overlay (text ++ [nul]) (mem.drop n)

/-- The three strings of a recipient when their fields lie side by side: one that
is too long runs on into the next field, and is read on there. -/
def Letter.sideBySide (letter : Letter) : Letter :=
  let mem := copyAt (2 * fieldStride) letter.rcptDomain
    (copyAt fieldStride letter.rcptUsername
      (copyAt 0 letter.rcptTo (clear (2 * fieldStride + bufSize))))
  { letter with
    rcptTo := upToNul mem
    rcptUsername := upToNul (mem.drop fieldStride)
    rcptDomain := upToNul (mem.drop (2 * fieldStride)) }

/-- A header behind a field was overwritten, and `free` ends the process. -/
def Letter.damaged (letter : Letter) : Bool :=
  decide (fieldRoom ≤ letter.rcptTo.length) || decide (fieldRoom ≤ letter.rcptUsername.length) ||
    decide (fieldRoom ≤ letter.rcptDomain.length)

def Passing.onHeap (s : Session) (p : Passing) : Passing :=
  match p.result with
  | .error _ => p
  | .ok s' =>
      match s.letter, s'.letter with
      | .live letter, .freed => if letter.damaged then ⟨p.saved, .error .badLetter⟩ else p
      | .live _, .live letter =>
          if s.state = .expectRcpt then
            ⟨p.saved, .ok { s' with letter := .live letter.sideBySide }⟩
          else p
      | _, _ => p

/-- A machine with such a heap, on which no short text ends a message. -/
def heap : Outside where
  ends := false
  pass := fun e s =>
    if Inside false e s then passOf false e s else (passOf false e s).onHeap s
  spill := fun _ _ w => w
  pass_inside := fun _ _ h => if_pos h
  spill_inside := fun _ _ _ _ => rfl

/-! ### One command -/

/-- The pass completes on this machine, with one command handled. -/
def OneCommandOn (x : Outside) (e : Env) (s : Session) : Prop :=
  ∃ s', (x.pass e s).result = .ok s' ∧ HandledOne e s s'

theorem Proper.not_short (h : Proper s) : ¬s.Short := fun hs =>
  not_le.mpr hs.length (h.text hs.state hs.command)

/-- How a short text compares does not matter where there is none. -/
theorem inside_iff (hlong : ¬s.Short) : Inside ends e s ↔ Inside false e s := by
  have hends : s.Ends ends ↔ s.Ends false := by simp [Session.Ends, hlong]
  constructor <;> rintro ⟨hletter, hrecipient, hfilename, hbody⟩
  · exact ⟨hletter, hrecipient, fun h => hfilename (hends.mpr h), hbody⟩
  · exact ⟨hletter, hrecipient, fun h => hfilename (hends.mp h), hbody⟩

theorem oneCommandOn_of_inside (hlong : ¬s.Short) (hinside : Inside x.ends e s) :
    OneCommandOn x e s ↔ OneCommand e s := by
  unfold OneCommandOn OneCommand
  rw [x.pass_inside e s hinside, passOf, if_neg hlong]
  rfl

namespace Link

/-- Whatever the run of inside passes before it was: the scan stops at a command
whose tables are set, and the pass handles this command and no more, on every
machine, exactly if it does not reset a connection without a letter and is an
inside pass itself. -/
theorem one_command_iff {now : Timeval} {e : Env} {x₀ : Outside} {rs : List (Round × Outside)}
    {l : Link} {r : Round}
    (hrun : run roundWith (accepted now) ((.greeting e, x₀) :: rs) = .ok l)
    (hinside : Guarded roundWith InsideAt (accepted now) ((.greeting e, x₀) :: rs))
    (hopen : l.session.state ≠ .disconnected) (hrecv : l.received r ≠ [])
    (hproper : Proper (l.connUpdate r).session) :
    Bound (l.connUpdate r).session ∧
      ((∀ x : Outside, OneCommandOn x r.env (l.connUpdate r).session) ↔
        ((l.connUpdate r).session.command = .ptRset →
          ∃ letter, l.session.letter = .live letter) ∧
        Inside false r.env (l.connUpdate r).session) := by
  obtain ⟨h, hlogged⟩ : ∃ h, run talkWith (accepted now, []) ((.greeting e, x₀) :: rs) =
      .ok (l, h) := exists_run_logged hrun []
  obtain ⟨hknown, hidle⟩ := known_of_runWith hlogged (guarded_logged hinside [])
  have hwait : (l.connUpdate r).session.state.isWaiting = true := by
    simpa using hidle.resolve_right hopen
  have hready : LetterReady (l.connUpdate r).session := hknown.greeted.ready r
  have hlong := hproper.not_short
  have hone : OneCommand r.env (l.connUpdate r).session ↔
      ((l.connUpdate r).session.command = .ptRset →
        ∃ letter, l.session.letter = .live letter) := by
    simpa using oneCommand_iff_of_ready hready hwait hrecv hproper
  refine ⟨bound_of_proper hwait hproper, fun hall => ?_, fun ⟨hreset, hin⟩ x => ?_⟩
  · obtain ⟨s', hok, -⟩ := hall (trapping false)
    have hin := inside_of_trapping hok
    exact ⟨hone.mp ((oneCommandOn_of_inside hlong hin).mp (hall (trapping false))), hin⟩
  · exact (oneCommandOn_of_inside hlong ((inside_iff hlong).mpr hin)).mpr (hone.mpr hreset)

theorem one_command_helo : ∃ l,
    run roundWith (accepted ⟨0, 0⟩) [(.greeting sampleEnv, heap)] = .ok l ∧
      ∀ x : Outside,
        OneCommandOn x sampleEnv (l.connUpdate (.chunk sampleEnv "HELO c\r\n".toList)).session := by
  have hrun : run roundWith (accepted ⟨0, 0⟩) [(.greeting sampleEnv, heap)] = .ok _ := rfl
  have hinside : Guarded roundWith InsideAt (accepted ⟨0, 0⟩) [(.greeting sampleEnv, heap)] :=
    fun _ _ => ⟨by decide, trivial⟩
  refine ⟨_, hrun, (one_command_iff (r := .chunk sampleEnv "HELO c\r\n".toList) hrun hinside
    (by decide) (by decide) (proper_of_command (by decide) (by decide) (by decide))).2.mpr
      ⟨fun h => ?_, by decide⟩⟩
  exact absurd h (by decide)

/-- RSET in answer to the greeting, on any machine. -/
theorem rset_not_one_command : ∃ l,
    run roundWith (accepted ⟨0, 0⟩) [(.greeting sampleEnv, heap)] = .ok l ∧
      l.session.state = .ready ∧
        Proper (l.connUpdate (.chunk sampleEnv "RSET\r\n".toList)).session ∧
          ∀ x : Outside,
            (x.pass sampleEnv (l.connUpdate (.chunk sampleEnv "RSET\r\n".toList)).session).result =
                .error .badLetter ∧
              ¬OneCommandOn x sampleEnv
                (l.connUpdate (.chunk sampleEnv "RSET\r\n".toList)).session := by
  have hrun : run roundWith (accepted ⟨0, 0⟩) [(.greeting sampleEnv, heap)] = .ok _ := rfl
  refine ⟨_, hrun, rfl, proper_of_command (by decide) (by decide) (by decide), fun x => ?_⟩
  refine (and_iff_left_of_imp fun hbad => ?_).mpr ?_
  · rintro ⟨s', hok, -⟩
    cases hbad.symm.trans hok
  · rw [x.pass_inside]
    · cases x.ends <;> rfl
    · cases x.ends <;> decide

end Link

/-! ### A recipient that is too long -/

def overlongRecipient : CStr := List.replicate 120 'u' ++ '@' :: List.replicate 160 'd'

def overlongExchanges : List Exchange := [⟨"HELO c\r\n".toList, [responseHelo]⟩,
  ⟨"MAIL FROM:<a@b.c>\r\n".toList, [response250]⟩,
  ⟨"RCPT TO:<".toList ++ overlongRecipient ++ ">\r\n".toList, [response250]⟩]

def overlongRounds : List (Round × Outside) :=
  (overlongExchanges.map (Exchange.chunk) ++ ["DATA\r\n".toList]).map
    fun text => (.chunk sampleEnv text, heap)

def overlongText : CStr :=
  "a@b.c\n".toList ++ List.replicate 120 'u' ++ '@' :: List.replicate 151 'd' ++
    List.replicate 120 'u' ++ "\n\n".toList

theorem overlong_arguments {mailFrom rcptTo : CStr} {more : List Exchange}
    (hmore : ∀ x ∈ more, (patternScan x.chunk).1 ≠ .ptMail ∧ (patternScan x.chunk).1 ≠ .ptRcpt)
    (h : Recipient mailFrom rcptTo (overlongExchanges ++ more)) :
    mailFrom = "a@b.c".toList ∧ rcptTo = overlongRecipient := by
  obtain ⟨⟨x, hx, hmail⟩, y, hy, hrcpt⟩ := h.arguments
  have hall : ∀ x ∈ overlongExchanges,
      ((patternScan x.chunk).1 = .ptMail → (patternScan x.chunk).2 = some "a@b.c".toList) ∧
        ((patternScan x.chunk).1 = .ptRcpt → (patternScan x.chunk).2 = some overlongRecipient) := by
    decide +kernel
  constructor
  · rcases List.mem_append.mp hx with hx | hx
    · have hsame := (hall x hx).1 (by rw [hmail])
      rw [hmail] at hsame
      exact Option.some.inj hsame
    · exact absurd (by rw [hmail]) (hmore x hx).1
  · rcases List.mem_append.mp hy with hy | hy
    · have hsame := (hall y hy).2 (by rw [hrcpt])
      rw [hrcpt] at hsame
      exact Option.some.inj hsame
    · exact absurd (by rw [hrcpt]) (hmore y hy).2

end SmtpProj.Server
