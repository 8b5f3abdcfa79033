import SmtpProj.Server.Commands

/-!
Whose envelope a saved letter carries.

The state of a connection says which commands its peer has had accepted, and in
which order: each waiting state is entered through one command, and VRFY, the
rejected commands and text out of place lead back to where they came from. So
the state determines what the history must look like, back to the last command
that closed a transaction, and the letter holds the arguments that are found
there.
-/

namespace SmtpProj.Server

open Lib

/-! ### Exchanges -/

namespace Exchange

def Greets (x : Exchange) : Prop :=
  ((patternScan x.chunk).1 = .ptHelo ∨ (patternScan x.chunk).1 = .ptEhlo) ∧
    x.replies = [responseHelo]

def Mail (arg : CStr) (x : Exchange) : Prop :=
  patternScan x.chunk = (.ptMail, some arg) ∧ x.replies = [response250]

def Rcpt (arg : CStr) (x : Exchange) : Prop :=
  patternScan x.chunk = (.ptRcpt, some arg) ∧ x.replies = [response250]

def Data (x : Exchange) : Prop :=
  (patternScan x.chunk).1 = .ptData ∧ x.replies = [response354]

def Resets (x : Exchange) : Prop :=
  (patternScan x.chunk).1 = .ptRset ∧ x.replies = [response250]

def Saves (x : Exchange) : Prop := x.replies = [responseSaved]

def SaveFails (x : Exchange) : Prop := x.replies = [response554]

def Closes (x : Exchange) : Prop := x.Resets ∨ x.Saves ∨ x.SaveFails

theorem not_closes {x : Exchange} (htype : (patternScan x.chunk).1 ≠ .ptRset)
    (hreplies : x.replies ≠ [responseSaved] ∧ x.replies ≠ [response554]) : ¬x.Closes := by
  rintro (h | h | h)
  · exact htype h.1
  · exact hreplies.1 h
  · exact hreplies.2 h

theorem Mail.not_closes {x : Exchange} {arg : CStr} (h : x.Mail arg) : ¬x.Closes :=
  Exchange.not_closes (by simp [h.1]) (by rw [h.2]; decide)

theorem Rcpt.not_closes {x : Exchange} {arg : CStr} (h : x.Rcpt arg) : ¬x.Closes :=
  Exchange.not_closes (by simp [h.1]) (by rw [h.2]; decide)

theorem Data.not_closes {x : Exchange} (h : x.Data) : ¬x.Closes :=
  Exchange.not_closes (by simp [h.1]) (by rw [h.2]; decide)

theorem not_mail {x : Exchange} {arg : CStr} (h : (patternScan x.chunk).1 ≠ .ptMail) :
    ¬x.Mail arg := fun hx => h (by rw [hx.1])

theorem not_rcpt {x : Exchange} {arg : CStr} (h : (patternScan x.chunk).1 ≠ .ptRcpt) :
    ¬x.Rcpt arg := fun hx => h (by rw [hx.1])

/-- The exchange neither adds to an envelope nor closes a transaction. -/
def Harmless (x : Exchange) : Prop :=
  ((¬x.Closes ∧ ∀ arg, ¬x.Mail arg) ∧ ∀ arg, ¬x.Rcpt arg) ∧ ¬x.Data

end Exchange

/-! ### Envelopes -/

/-- The peer has greeted, since the last RSET and failed save. -/
def Hello (h : List Exchange) : Prop :=
  Since (fun _ x => x.Greets) (fun y => ¬y.Resets ∧ ¬y.SaveFails) h

/-- `sender` is the argument of the latest accepted MAIL, which came after a
greeting, and the transaction is not over. -/
def Sender (sender : CStr) (h : List Exchange) : Prop :=
  Since (fun before x => Hello before ∧ x.Mail sender)
    (fun y => ¬y.Closes ∧ ∀ arg, ¬y.Mail arg) h

/-- `rcpt` is the argument of the RCPT that was accepted after that MAIL. -/
def Recipient (sender rcpt : CStr) (h : List Exchange) : Prop :=
  Since (fun before x => Sender sender before ∧ x.Rcpt rcpt)
    (fun y => (¬y.Closes ∧ ∀ arg, ¬y.Mail arg) ∧ ∀ arg, ¬y.Rcpt arg) h

def Message (sender rcpt : CStr) (h : List Exchange) : Prop :=
  Since (fun before x => Recipient sender rcpt before ∧ x.Data)
    Exchange.Harmless h

structure Letter.Addressed (letter : Letter) (h : List Exchange) : Prop where
  recipient : Recipient letter.mailFrom letter.rcptTo h
  halves : letter.rcptUsername ++ '@' :: letter.rcptDomain = letter.rcptTo

structure Enveloped (s : Session) (h : List Exchange) : Prop where
  sender : s.state = .expectRcpt ∨ s.state = .expectData ∨ s.state = .expectDataRecv →
    ∃ letter, s.letter = .live letter ∧ Sender letter.mailFrom h
  recipient : s.state = .expectData ∨ s.state = .expectDataRecv →
    ∃ letter, s.letter = .live letter ∧ letter.Addressed h

theorem Sender.hello {sender : CStr} {h : List Exchange} (hs : Sender sender h) : Hello h := by
  refine hs.before (fun before x ⟨hhello, hx⟩ => ⟨hhello, ?_⟩) fun y hy => ?_
  · exact ⟨fun hr => hx.not_closes (.inl hr), fun hf => hx.not_closes (.inr (.inr hf))⟩
  · exact ⟨fun hr => hy.1 (.inl hr), fun hf => hy.1 (.inr (.inr hf))⟩

theorem Recipient.sender {sender rcpt : CStr} {h : List Exchange} (hr : Recipient sender rcpt h) :
    Sender sender h :=
  hr.before (fun _ _ ⟨hs, hx⟩ => ⟨hs, hx.not_closes, fun _ => Exchange.not_mail (by simp [hx.1])⟩)
    fun _ hy => hy.1

theorem Recipient.arguments {sender rcpt : CStr} {h : List Exchange}
    (hr : Recipient sender rcpt h) :
    (∃ x ∈ h, patternScan x.chunk = (.ptMail, some sender)) ∧
      ∃ x ∈ h, patternScan x.chunk = (.ptRcpt, some rcpt) := by
  obtain ⟨before, x, behind, rfl, ⟨⟨before', x', behind', rfl, ⟨-, hmail⟩, -⟩, hrcpt⟩, -⟩ := hr
  exact ⟨⟨x', by simp, hmail.1⟩, x, by simp, hrcpt.1⟩

theorem Message.recipient {sender rcpt : CStr} {h : List Exchange} (hm : Message sender rcpt h) :
    Recipient sender rcpt h :=
  hm.before (fun _ _ ⟨hr, hx⟩ => ⟨hr, ⟨hx.not_closes, fun _ => Exchange.not_mail (by simp [hx.1])⟩,
    fun _ => Exchange.not_rcpt (by simp [hx.1])⟩) fun _ hy => hy.1

/-! ### The invariant -/

/-- What the history looks like in each of the waiting states. -/
def Agrees (letter : LetterPtr) (h : List Exchange) : ServerState → Prop
  | .expectMail => Hello h
  | .expectRcpt => ∃ l, letter = .live l ∧ Sender l.mailFrom h
  | .expectData => ∃ l, letter = .live l ∧ l.Addressed h
  | .expectDataRecv => ∃ l, letter = .live l ∧ l.Addressed h ∧ Message l.mailFrom l.rcptTo h
  | _ => True

theorem Agrees.concat {letter : LetterPtr} {h : List Exchange} {st : ServerState} {x : Exchange}
    (hst : Agrees letter h st) (hx : x.Harmless) : Agrees letter (h ++ [x]) st := by
  have hhello : Hello h → Hello (h ++ [x]) := fun hh => since_concat.mpr (.inr ⟨hh,
    fun hr => hx.1.1.1 (.inl hr), fun hf => hx.1.1.1 (.inr (.inr hf))⟩)
  have hsender : ∀ a, Sender a h → Sender a (h ++ [x]) :=
    fun a hs => since_concat.mpr (.inr ⟨hs, hx.1.1⟩)
  have haddressed : ∀ l : Letter, l.Addressed h → l.Addressed (h ++ [x]) :=
    fun l hl => ⟨since_concat.mpr (.inr ⟨hl.recipient, hx.1⟩), hl.halves⟩
  cases st with
  | expectMail => exact hhello hst
  | expectRcpt =>
      obtain ⟨l, hl, hs⟩ := hst
      exact ⟨l, hl, hsender _ hs⟩
  | expectData =>
      obtain ⟨l, hl, hs⟩ := hst
      exact ⟨l, hl, haddressed l hs⟩
  | expectDataRecv =>
      obtain ⟨l, hl, hs, hm⟩ := hst
      exact ⟨l, hl, haddressed l hs, since_concat.mpr (.inr ⟨hm, hx⟩)⟩
  | _ => trivial

variable {e : Env} {s s' : Session}

/-- A save leaves the greeting in force, and a failed one does not need it. -/
theorem agrees_endOfData {h : List Exchange} {letter : Letter} {sender rcpt chunk : CStr}
    (hm : Message sender rcpt h) (htype : (patternScan chunk).1 ≠ .ptRset) :
    Agrees (endOfData e letter).letter (h ++ [⟨chunk, (endOfData e letter).reply.toList⟩])
      (endOfData e letter).state := by
  unfold endOfData
  split_ifs
  · refine since_concat.mpr (.inr ⟨hm.recipient.sender.hello, fun hr => htype hr.1, ?_⟩)
    exact (by decide : [responseSaved] ≠ [response554])
  · trivial

theorem harmless_of {chunk : CStr} {type : PatternType} {content : Option CStr}
    {replies : List CStr} (hscan : patternScan chunk = (type, content))
    (htype : type ≠ .ptRset ∧ type ≠ .ptData)
    (hargument : content = none ∨ (type ≠ .ptMail ∧ type ≠ .ptRcpt))
    (hreplies : replies ≠ [responseSaved] ∧ replies ≠ [response554]) :
    Exchange.Harmless ⟨chunk, replies⟩ := by
  have hscan₁ : (patternScan chunk).1 = type := by rw [hscan]
  refine ⟨⟨⟨Exchange.not_closes (by rw [hscan₁]; exact htype.1) hreplies, fun arg hx => ?_⟩,
    fun arg hx => ?_⟩, fun hx => htype.2 (hscan₁.symm.trans hx.1)⟩
  all_goals
    have h := hscan.symm.trans hx.1
    cases h
    simp at hargument

theorem Agrees.add {h : List Exchange} {letter : Letter} {chunk : CStr} {content : Option CStr}
    (hs : Agrees (.live letter) h .expectDataRecv)
    (hscan : patternScan chunk = (.ptDataRecv, content)) (text : CStr) :
    Agrees (.live (letter.add text)) (h ++ [⟨chunk, []⟩]) .expectDataRecv := by
  have hne : ([] : List CStr) ≠ [responseSaved] ∧ ([] : List CStr) ≠ [response554] := by decide
  obtain ⟨l, hl, haddressed, hm⟩ :=
    hs.concat (harmless_of hscan (by simp) (.inr (by simp)) hne)
  cases hl
  exact ⟨_, rfl, ⟨haddressed.recipient, haddressed.halves⟩, hm⟩

/-- Every command keeps the history and the letter in step with the state. -/
theorem Agrees.serves {h : List Exchange} {type : PatternType} {content : Option CStr}
    {o : Effect} {chunk : CStr} (hs : Agrees s.letter h s.state)
    (hscan : patternScan chunk = (type, content)) (ho : Serves e s type content o) :
    Agrees o.letter (h ++ [⟨chunk, o.reply.toList⟩]) o.state := by
  cases ho with
  | helo hst | ehlo hst => exact since_concat.mpr (.inl ⟨by simp [hscan], rfl⟩)
  | mail hst =>
      rw [hst] at hs
      exact ⟨_, rfl, since_concat.mpr (.inl ⟨hs, hscan, rfl⟩)⟩
  | @rcpt arg username domain letter hst hletter hemail =>
      rw [hst] at hs
      obtain ⟨l, hl, hsender⟩ := hs
      obtain rfl : letter = l := by
        rw [hletter] at hl
        cases hl
        rfl
      obtain ⟨-, hline, -⟩ := patternScan_some rfl hscan
      obtain ⟨hhalves, -⟩ := patternEmail_eq_some hline hemail
      exact ⟨_, rfl, since_concat.mpr (.inl ⟨hsender, hscan, rfl⟩), hhalves.symm⟩
  | data hst =>
      rw [hst] at hs
      obtain ⟨l, hl, hl'⟩ := hs
      have hx : Exchange.Data ⟨chunk, [response354]⟩ := ⟨by simp [hscan], rfl⟩
      have hquiet : ∀ arg, ¬Exchange.Mail arg ⟨chunk, [response354]⟩ :=
        fun arg => Exchange.not_mail (by simp [hscan])
      refine ⟨l, hl, ⟨since_concat.mpr (.inr ⟨hl'.recipient, ⟨hx.not_closes, hquiet⟩, ?_⟩),
        hl'.halves⟩, since_concat.mpr (.inl ⟨hl'.recipient, hx⟩)⟩
      exact fun arg => Exchange.not_rcpt (by simp [hscan])
  | text hst hletter =>
      rw [hst, hletter] at hs
      exact hs.add hscan _
  | mark hst hletter hmark | dot hst hletter =>
      rw [hst] at hs
      obtain ⟨l, -, -, hm⟩ := hs
      exact agrees_endOfData hm (by simp [hscan])
  | rset hst hletter => trivial
  | vrfy hst =>
      have hne : [response502] ≠ [responseSaved] ∧ [response502] ≠ [response554] := by decide
      exact hs.concat (harmless_of hscan (by simp) (.inr (by simp)) hne)
  | quit hst => trivial
  | mailNone hst =>
      rw [hst] at hs
      have hne : [response451] ≠ [responseSaved] ∧ [response451] ≠ [response554] := by decide
      exact hs.concat (harmless_of hscan (by simp) (.inl rfl) hne)
  | rcptNone hst =>
      rw [hst] at hs
      have hne : [response501] ≠ [responseSaved] ∧ [response501] ≠ [response554] := by decide
      exact hs.concat (harmless_of hscan (by simp) (.inl rfl) hne)

/-- A pass that adds to the files saves the letter, with the text behind its
envelope. -/
theorem Passed.saves (h : Passed e s s') (hfiles : s'.files ≠ s.files) :
    s.state = .expectDataRecv ∧ ∃ letter body, s.letter = .live letter ∧
      s'.files = s.files ++
        [(letter.filename e, ({ letter with body := body } : Letter).text)] := by
  have hend : ∀ (o : Effect) (letter : Letter), Gives s o s' → o = endOfData e letter →
      s'.files = s.files ++ [(letter.filename e, letter.text)] := by
    rintro _ letter hgives rfl
    have hgiven := hgives.files
    unfold endOfData at hgiven
    split_ifs at hgiven
    · exact hgiven
    · exact absurd (hgiven.trans (List.append_nil _)) hfiles
  cases h with
  | idle hrecv hs => exact absurd (by rw [hs]) hfiles
  | timeout hrecv hs => exact absurd (by rw [hs]; rfl) hfiles
  | unknown hrecv hno hs => exact absurd (by rw [hs]; rfl) hfiles
  | served o hrecv ho hgives =>
      have hkept := hgives.files
      generalize (patternScan s.recvBuf).1 = type at ho
      generalize (patternScan s.recvBuf).2 = content at ho
      cases ho with
      | @mark _ letter hst hletter hmark =>
          exact ⟨hst, letter, (letter.add s.recvBuf).body, hletter,
            hend _ (letter.add _) hgives rfl⟩
      | @dot _ letter hst hletter =>
          have hfields : ∃ body, letter.addText content = { letter with body := body } := by
            unfold Letter.addText
            split <;> exact ⟨_, rfl⟩
          obtain ⟨body, hbody⟩ := hfields
          refine ⟨hst, letter, body, hletter, ?_⟩
          have hsaved := hend _ _ hgives rfl
          rwa [hbody] at hsaved
      | _ => exact absurd (hkept.trans (List.append_nil _)) hfiles

namespace Link

variable {l l' : Link} {r : Round} {h : List Exchange}

@[simp] theorem exchange_greeting (now : Timeval) (e : Env) (l' : Link) :
    (accepted now).exchange (.greeting e) l' = [] := rfl

theorem agrees_round (hl : l.Greeted) (hs : Agrees l.session.letter h l.session.state)
    (hok : l.round r = .ok l') :
    Agrees l'.session.letter (h ++ l.exchange r l') l'.session.state := by
  obtain ⟨-, hpassed⟩ := round_passed hl hok
  have hs₀ : Agrees (l.connUpdate r).session.letter h (l.connUpdate r).session.state := by simpa
  cases hpassed with
  | idle hrecv hs' =>
      rw [exchange_of_idle hrecv, List.append_nil, hs']
      exact hs₀
  | timeout hrecv hs' =>
      rw [hs']
      trivial
  | unknown hrecv hno hs' =>
      obtain ⟨htype, -⟩ := noMatch_patternScan_iff.mp hno
      rw [exchange_of_chunk hrecv
        (show l'.session.replies = _ ++ [response500] by rw [hs']; rfl), hs']
      exact hs₀.concat (harmless_of (Prod.ext htype rfl) (by simp) (.inr (by simp)) (by decide))
  | served o hrecv ho hgives =>
      rw [exchange_of_chunk hrecv hgives.replies, hgives.letter, hgives.state]
      exact hs₀.serves rfl ho

/-- The invariant of the run, from the greeting on. -/
theorem agrees_of_run {now : Timeval} {e : Env} {rs : List Round}
    (hrun : run talk (accepted now, []) (.greeting e :: rs) = .ok (l, h)) :
    l.Greeted ∧ Agrees l.session.letter h l.session.state := by
  obtain ⟨⟨l₀, h₀⟩, hgreeting, hrest⟩ := bind_eq_ok.mp hrun
  obtain ⟨hround, hh₀⟩ := logged_eq_ok.mp hgreeting
  have hgreeted : l₀.Greeted := greeted_of_greeting hround
  have hstate : Agrees l₀.session.letter h₀ l₀.session.state := by
    rcases (session_of_greeting hround).1 with hst | hst <;> rw [hst] <;> trivial
  refine run_invariant (P := fun c => c.1.Greeted ∧ Agrees c.1.session.letter c.2 c.1.session.state)
    (fun c r c' hc _ hok => ?_) ⟨hgreeted, hstate⟩ (guarded_true _ rs) hrest
  obtain ⟨hround, hlog⟩ := logged_eq_ok.mp hok
  rw [hlog]
  exact ⟨hc.1.round hround, agrees_round hc.1 hc.2 hround⟩

theorem enveloped_of_agrees (hs : Agrees l.session.letter h l.session.state) :
    Enveloped l.session h := by
  constructor
  · rintro (hst | hst | hst) <;> rw [hst] at hs
    · exact hs
    · obtain ⟨letter, hletter, haddressed⟩ := hs
      exact ⟨letter, hletter, haddressed.recipient.sender⟩
    · obtain ⟨letter, hletter, haddressed, -⟩ := hs
      exact ⟨letter, hletter, haddressed.recipient.sender⟩
  · rintro (hst | hst) <;> rw [hst] at hs
    · exact hs
    · obtain ⟨letter, hletter, haddressed, -⟩ := hs
      exact ⟨letter, hletter, haddressed⟩

/-- A round that adds to the files saves the letter, with the text behind its
envelope. -/
theorem round_saves (hl : l.Greeted) (hok : l.round r = .ok l')
    (hfiles : l'.session.files ≠ l.session.files) :
    l.session.state = .expectDataRecv ∧ ∃ letter body, l.session.letter = .live letter ∧
      l'.session.files = l.session.files ++
        [(letter.filename r.env, ({ letter with body := body } : Letter).text)] := by
  simpa using (round_passed hl hok).2.saves (by simpa using hfiles)

/-- In every run the letter of a transaction is live and holds the arguments of
its own MAIL and RCPT; and what is saved is a letter for which MAIL, RCPT and
DATA were accepted in this order, behind a greeting and since the last
transaction was closed. -/
theorem letters_enveloped {now : Timeval} {e : Env} {rs : List Round}
    (hrun : run talk (accepted now, []) (.greeting e :: rs) = .ok (l, h)) :
    Enveloped l.session h ∧ ∀ r l', l.round r = .ok l' → l'.session.files ≠ l.session.files →
      ∃ letter body, l.session.letter = .live letter ∧ Message letter.mailFrom letter.rcptTo h ∧
        l'.session.files = l.session.files ++
          [(letter.filename r.env, ({ letter with body := body } : Letter).text)] := by
  obtain ⟨hgreeted, hs⟩ := agrees_of_run hrun
  refine ⟨enveloped_of_agrees hs, fun r l' hok hfiles => ?_⟩
  obtain ⟨hst, letter, body, hletter, hsaved⟩ := round_saves hgreeted hok hfiles
  rw [hst] at hs
  obtain ⟨l₁, hl₁, -, hm⟩ := hs
  obtain rfl : letter = l₁ := by
    rw [hletter] at hl₁
    cases hl₁
    rfl
  exact ⟨letter, body, hletter, hm, hsaved⟩

/-- A session that has come to the text of its letter. -/
theorem letters_enveloped_upToData : ∃ l h,
    run talk (accepted ⟨0, 0⟩, []) (.greeting sampleEnv :: upToData) = .ok (l, h) ∧
      Enveloped l.session h ∧ l.session.state = .expectDataRecv := by
  have hrun : run talk (accepted ⟨0, 0⟩, []) (.greeting sampleEnv :: upToData) = .ok _ := rfl
  exact ⟨_, _, hrun, (letters_enveloped hrun).1, by decide⟩

end Link

end SmtpProj.Server
