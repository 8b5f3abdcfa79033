import SmtpProj.Server.Envelope

/-!
The life of a connection's letters.

`conn->letter` keeps pointing at a letter after it was freed, and `process_rset`
frees it without asking. Whether it is live can be read off the history: a MAIL
was accepted, and the letter was not reset or saved since. A save that fails
frees nothing, and the next MAIL then makes a letter while that one is live.
-/

namespace SmtpProj.Server

open Lib

/-- A MAIL was accepted, and its letter was neither reset nor saved since. -/
def OpenLetter (h : List Exchange) : Prop :=
  Since (fun _ x => ∃ arg, x.Mail arg) (fun y => ¬y.Resets ∧ ¬y.Saves) h

def LetterPtr.isLive (p : LetterPtr) : Prop := ∃ letter, p = .live letter

@[simp] theorem isLive_live (letter : Letter) : (LetterPtr.live letter).isLive := ⟨letter, rfl⟩

@[simp] theorem not_isLive_freed : ¬LetterPtr.freed.isLive := by
  rintro ⟨letter, h⟩
  cases h

@[simp] theorem not_isLive_none : ¬LetterPtr.none.isLive := by
  rintro ⟨letter, h⟩
  cases h

/-! ### Histories -/

variable {h : List Exchange} {x : Exchange}

theorem openLetter_concat (hmail : ∀ arg, ¬x.Mail arg) (hresets : ¬x.Resets) (hsaves : ¬x.Saves) :
    OpenLetter (h ++ [x]) ↔ OpenLetter h := by
  unfold OpenLetter
  rw [since_concat]
  constructor
  · rintro (⟨arg, harg⟩ | ⟨hopen, -⟩)
    · exact absurd harg (hmail arg)
    · exact hopen
  · exact fun hopen => .inr ⟨hopen, hresets, hsaves⟩

theorem openLetter_concat_of_scan {chunk : CStr} {type : PatternType} {content : Option CStr}
    {replies : List CStr} (hscan : patternScan chunk = (type, content)) (htype : type ≠ .ptRset)
    (hargument : content = none ∨ type ≠ .ptMail) (hreplies : replies ≠ [responseSaved]) :
    OpenLetter (h ++ [⟨chunk, replies⟩]) ↔ OpenLetter h := by
  refine openLetter_concat (fun arg hx => ?_) (fun hx => ?_) hreplies
  · cases hscan.symm.trans hx.1
    simp at hargument
  · exact htype ((congrArg Prod.fst hscan).symm.trans hx.1)

theorem openLetter_of_mail {arg : CStr} (hx : x.Mail arg) : OpenLetter (h ++ [x]) :=
  since_concat.mpr (.inl ⟨arg, hx⟩)

theorem not_openLetter_of_closes (hmail : ∀ arg, ¬x.Mail arg) (hx : x.Resets ∨ x.Saves) :
    ¬OpenLetter (h ++ [x]) := by
  intro hopen
  rcases since_concat.mp hopen with ⟨arg, harg⟩ | ⟨-, hresets, hsaves⟩
  · exact hmail arg harg
  · exact hx.elim hresets hsaves

/-! ### The invariant -/

variable {e : Env} {s s' : Session}

/-- The end of the mail input frees the letter exactly if it saves it. -/
theorem isLive_endOfData {letter : Letter} {chunk : CStr} (hopen : OpenLetter h)
    (hmail : (patternScan chunk).1 ≠ .ptMail) (hrset : (patternScan chunk).1 ≠ .ptRset) :
    (endOfData e letter).letter.isLive ↔
      OpenLetter (h ++ [⟨chunk, (endOfData e letter).reply.toList⟩]) := by
  unfold endOfData
  split_ifs
  · exact iff_of_false not_isLive_freed
      (not_openLetter_of_closes (fun _ => Exchange.not_mail hmail) (.inr rfl))
  · have hne : [response554] ≠ [responseSaved] := by decide
    exact iff_of_true (isLive_live letter)
      ((openLetter_concat_of_scan rfl hrset (.inr hmail) hne).mpr hopen)

theorem isLive_serves {type : PatternType} {content : Option CStr} {o : Effect} {chunk : CStr}
    (hs : s.letter.isLive ↔ OpenLetter h) (hscan : patternScan chunk = (type, content))
    (ho : Serves e s type content o) :
    o.letter.isLive ↔ OpenLetter (h ++ [⟨chunk, o.reply.toList⟩]) := by
  have hne : ∀ {text : CStr}, text ≠ responseSaved → [text] ≠ [responseSaved] := by simp
  cases ho with
  | helo | ehlo | data | vrfy | quit =>
      refine hs.trans (openLetter_concat_of_scan hscan (by simp) (.inr (by simp)) ?_).symm
      exact hne (by decide)
  | mail => exact iff_of_true (isLive_live _) (openLetter_of_mail ⟨hscan, rfl⟩)
  | mailNone =>
      refine hs.trans (openLetter_concat_of_scan hscan (by simp) (.inl rfl) ?_).symm
      exact hne (by decide)
  | rcptNone =>
      refine hs.trans (openLetter_concat_of_scan hscan (by simp) (.inl rfl) ?_).symm
      exact hne (by decide)
  | rcpt hst hletter | text hst hletter =>
      have hopen : OpenLetter h := hs.mp ⟨_, hletter⟩
      refine iff_of_true (isLive_live _)
        ((openLetter_concat_of_scan hscan (by simp) (.inr (by simp)) ?_).mpr hopen)
      first | exact hne (by decide) | simp
  | mark hst hletter | dot hst hletter =>
      exact isLive_endOfData (hs.mp ⟨_, hletter⟩) (by simp [hscan]) (by simp [hscan])
  | rset =>
      refine iff_of_false not_isLive_freed (not_openLetter_of_closes (fun _ => ?_) (.inl ⟨?_, rfl⟩))
      · exact Exchange.not_mail (by simp [hscan])
      · simp [hscan]

/-! ### Passes -/

/-- The only letter that a pass can miss is the one that RSET is to free. -/
theorem protocolUpdate_badLetter_iff (hinit : s.state ≠ .init) (hready : LetterReady s) :
    protocolUpdate e s = .error .badLetter ↔
      (s.state.isOpen = true ∧ (patternScan s.recvBuf).1 = .ptRset) ∧ ¬s.letter.isLive := by
  by_cases hrecv : s.recvBuf = []
  · have hscan : (patternScan s.recvBuf).1 = .ptDataRecv := by
      rw [hrecv]
      decide
    rw [protocolUpdate_of_idle hrecv hinit]
    exact iff_of_false (by simp) (by simp [hscan])
  rw [protocolUpdate_of_chunk hrecv hinit]
  cases hno : noMatch (patternScan s.recvBuf).1 s.state with
  | true =>
      obtain ⟨htype, -⟩ := noMatch_patternScan_iff.mp hno
      rw [updateRecv_of_noMatch hno]
      exact iff_of_false (by simp) (by simp [htype])
  | false =>
      have herror : ∀ halt, updateRecv e s = .error halt ↔
          dispatch e s (patternScan s.recvBuf).1 (patternScan s.recvBuf).2 = .error halt := by
        intro halt
        rw [updateRecv_of_dispatch hno]
        cases dispatch e s (patternScan s.recvBuf).1 (patternScan s.recvBuf).2 with
        | error halt' => exact Iff.rfl
        | ok s' => exact iff_of_false (fun h => by cases h) (fun h => by cases h)
      rw [herror]
      by_cases htakes : s.state.takes (patternScan s.recvBuf).1 = true
      · have hserves : (∃ o, Serves e s (patternScan s.recvBuf).1 (patternScan s.recvBuf).2 o) ∨
            ∃ halt, Fails e s (patternScan s.recvBuf).1 (patternScan s.recvBuf).2 halt :=
          serves_or_fails hready htakes
        rcases hserves with ⟨o, ho⟩ | ⟨halt, hfails⟩
        · obtain ⟨s', hok, -⟩ := dispatch_of_serves ho
          refine iff_of_false (by simp [hok]) ?_
          rintro ⟨⟨-, htype⟩, hlive⟩
          rw [htype] at ho
          cases ho with
          | rset _ hletter => exact hlive ⟨_, hletter⟩
        · rw [dispatch_of_fails hready hfails]
          generalize (patternScan s.recvBuf).1 = type at hfails
          generalize (patternScan s.recvBuf).2 = content at hfails
          cases hfails with
          | rset hopen hnone =>
              exact iff_of_true rfl ⟨⟨hopen, rfl⟩, fun ⟨letter, hlive⟩ => hnone letter hlive⟩
          | rcpt | short => exact iff_of_false (by simp) (by simp)
      · refine iff_of_false ?_ ?_
        · have hfails : dispatch e s _ (patternScan s.recvBuf).2 = .error .badTransition ∨
              dispatch e s _ (patternScan s.recvBuf).2 = .error .nullRead :=
            dispatch_of_not_takes htakes
          rcases hfails with h | h <;> simp [h]
        · rintro ⟨⟨hopen, htype⟩, -⟩
          rw [htype] at htakes
          exact htakes hopen

namespace Link

variable {l l' : Link} {r : Round}

theorem isLive_round (hl : l.Greeted) (hs : l.session.letter.isLive ↔ OpenLetter h)
    (hok : l.round r = .ok l') :
    l'.session.letter.isLive ↔ OpenLetter (h ++ l.exchange r l') := by
  obtain ⟨-, hpassed⟩ := round_passed hl hok
  have hs₀ : (l.connUpdate r).session.letter.isLive ↔ OpenLetter h := by simpa
  cases hpassed with
  | idle hrecv hs' | timeout hrecv hs' =>
      rw [exchange_of_idle hrecv, List.append_nil, hs']
      exact hs₀
  | unknown hrecv hno hs' =>
      obtain ⟨htype, -⟩ := noMatch_patternScan_iff.mp hno
      rw [exchange_of_chunk hrecv
        (show l'.session.replies = _ ++ [response500] by rw [hs']; rfl), hs']
      have hne : [response500] ≠ [responseSaved] := by decide
      exact hs₀.trans (openLetter_concat_of_scan (Prod.ext htype rfl) (by simp) (.inr (by simp))
        hne).symm
  | served o hrecv ho hgives =>
      rw [exchange_of_chunk hrecv hgives.replies, hgives.letter]
      exact isLive_serves hs₀ rfl ho

/-! ### Runs -/

def Resets (l : Link) (r : Round) : Prop :=
  l.session.state.isOpen = true ∧ (patternScan (l.received r)).1 = .ptRset

def Creates (l : Link) (r : Round) : Prop :=
  l.session.state = .expectMail ∧ ∃ arg, patternScan (l.received r) = (.ptMail, some arg)

/-- Nothing but a live letter is used or freed, and none is made while another
one is live. -/
structure KeepsLetters (c : Link × List Exchange) (r : Round) : Prop where
  freed : c.1.round r ≠ .error (.halted .badLetter)
  created : c.1.Creates r → ¬c.1.session.letter.isLive

/-- RSET comes while a letter is open, and MAIL while none is. -/
structure InTurn (c : Link × List Exchange) (r : Round) : Prop where
  reset : c.1.Resets r → OpenLetter c.2
  mail : c.1.Creates r → ¬OpenLetter c.2

theorem round_badLetter_iff (hl : l.Greeted) :
    l.round r = .error (.halted .badLetter) ↔ l.Resets r ∧ ¬l.session.letter.isLive := by
  by_cases hclosing : l.Closing r
  · rw [round_of_closing hclosing]
    refine iff_of_false (by simp) fun h => ?_
    simp [Resets, hclosing.1, ServerState.isOpen] at h
  · have hupdate := protocolUpdate_badLetter_iff (e := r.env) (s := (l.connUpdate r).session)
      (by simpa using hl.state) (hl.ready r)
    rw [connUpdate_state, connUpdate_letter] at hupdate
    refine Iff.trans ?_ hupdate
    rw [round_of_not_closing hclosing]
    unfold protocolUpdate
    cases Server.protocolUpdate r.env (l.connUpdate r).session <;> simp

theorem keepsLetters_iff_inTurn (hl : l.Greeted)
    (hs : l.session.letter.isLive ↔ OpenLetter h) :
    KeepsLetters (l, h) r ↔ InTurn (l, h) r := by
  constructor
  · rintro ⟨hfreed, hcreated⟩
    refine ⟨fun hresets => hs.mp ?_, fun hcreates => hs.not.mp (hcreated hcreates)⟩
    by_contra hlive
    exact hfreed ((round_badLetter_iff hl).mpr ⟨hresets, hlive⟩)
  · rintro ⟨hreset, hmail⟩
    refine ⟨fun hbad => ?_, fun hcreates => hs.not.mpr (hmail hcreates)⟩
    obtain ⟨hresets, hlive⟩ := (round_badLetter_iff hl).mp hbad
    exact hlive (hs.mpr (hreset hresets))

/-- A connection frees only live letters and never drops one, in all its rounds,
exactly when every RSET finds a letter open and every MAIL finds none. -/
theorem letters_kept_iff (now : Timeval) (e : Env) (rs : List Round) :
    Along talk KeepsLetters (accepted now, []) (.greeting e :: rs) ↔
      Along talk InTurn (accepted now, []) (.greeting e :: rs) := by
  have hresets : ¬(accepted now).Resets (.greeting e) := by
    rintro ⟨hopen, -⟩
    cases hopen
  have hcreates : ¬(accepted now).Creates (.greeting e) := by
    rintro ⟨hst, -⟩
    cases hst
  have hkeeps : KeepsLetters (accepted now, []) (.greeting e) :=
    ⟨round_greeting_ne_halted now e .badLetter, fun h => absurd h hcreates⟩
  have hturn : InTurn (accepted now, []) (.greeting e) :=
    ⟨fun h => absurd h hresets, fun h => absurd h hcreates⟩
  refine along_congr_after
    (I := fun c => c.1.Greeted ∧ (c.1.session.letter.isLive ↔ OpenLetter c.2))
    (iff_of_true hkeeps hturn) (fun c₀ h₀ => ?_) (fun c r c' hc hok => ?_)
    (fun c r _ hc => keepsLetters_iff_inTurn hc.1 hc.2)
  · obtain ⟨hround, hlog⟩ := logged_eq_ok.mp h₀
    refine ⟨greeted_of_greeting hround, ?_⟩
    rw [hlog, exchange_greeting, List.append_nil]
    rw [(session_of_greeting hround).2.1]
    exact iff_of_false not_isLive_none not_since_nil
  · obtain ⟨hround, hlog⟩ := logged_eq_ok.mp hok
    rw [hlog]
    exact ⟨hc.1.round hround, isLive_round hc.1 hc.2 hround⟩

/-- RSET before any MAIL frees no letter at all, and after a save the freed one
again. -/
theorem reset_without_letter :
    let rset := Round.chunk sampleEnv "RSET\r\n".toList
    ¬Along talk KeepsLetters (accepted ⟨0, 0⟩, []) [.greeting sampleEnv, rset] ∧
      ¬Along talk KeepsLetters (accepted ⟨0, 0⟩, []) (.greeting sampleEnv :: upToData ++
        [.chunk sampleEnv ".\r\n".toList, rset]) := by
  refine ⟨?_, ?_⟩
  · rintro ⟨-, h⟩
    exact (h _ rfl).1.freed (by decide)
  · rintro ⟨-, h⟩
    have h := (h _ rfl).2 _ rfl |>.2 _ rfl |>.2 _ rfl |>.2 _ rfl |>.2 _ rfl
    exact h.1.freed (by decide)

end Link

end SmtpProj.Server
