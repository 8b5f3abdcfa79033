import SmtpProj.Server.Envelope

/-!
What the body of a letter holds.

The body of a letter is empty when MAIL creates it, and only message text adds
to it. So behind an accepted DATA it is the text received since, chunk by
chunk, each with its own line end; and the lone dot, whose pattern captures
nothing, adds nothing.
-/

namespace SmtpProj.Server

open Lib

structure TextChunk (chunk : CStr) : Prop where
  type : (patternScan chunk).1 = .ptDataRecv
  length : 5 ≤ chunk.length
  mark : ¬dataMark <:+ chunk

def bodyOf (xs : List Exchange) : CStr := (xs.map fun x => x.chunk ++ crlf).flatten

@[simp] theorem bodyOf_concat (xs : List Exchange) (x : Exchange) :
    bodyOf (xs ++ [x]) = bodyOf xs ++ x.chunk ++ crlf := by
  simp [bodyOf]

/-- What the history says about the body of the letter. -/
structure Composed (letter : LetterPtr) (h : List Exchange) (st : ServerState) : Prop where
  empty : st = .expectRcpt ∨ st = .expectData → ∃ l, letter = .live l ∧ l.body = []
  text : st ≠ .disconnected → ∀ before data texts, h = before ++ data :: texts → data.Data →
    (∀ x ∈ texts, TextChunk x.chunk) →
      st = .expectDataRecv ∧
        ∃ l, letter = .live l ∧ l.body = bodyOf texts ∧ l.Addressed before

/-! ### The invariant -/

variable {e : Env} {s s' : Session} {h : List Exchange}

theorem composed_disconnected (letter : LetterPtr) (h : List Exchange) :
    Composed letter h .disconnected :=
  ⟨by simp, fun h => absurd rfl h⟩

theorem composed_of_answered {letter : LetterPtr} {st : ServerState} {x : Exchange}
    (hempty : st = .expectRcpt ∨ st = .expectData → ∃ l, letter = .live l ∧ l.body = [])
    (hdata : ¬x.Data) (htext : ¬TextChunk x.chunk) : Composed letter (h ++ [x]) st := by
  refine ⟨hempty, fun _ before data texts heq hdata' htexts => ?_⟩
  rcases concat_eq_append_cons.mp heq with ⟨-, -, rfl⟩ | ⟨rest, rfl, -⟩
  · exact absurd hdata' hdata
  · exact absurd (htexts x (by simp)) htext

theorem Composed.serves {type : PatternType} {content : Option CStr} {o : Effect}
    (hs : Agrees s.letter h s.state) (hc : Composed s.letter h s.state)
    (hscan : patternScan s.recvBuf = (type, content)) (ho : Serves e s type content o) :
    Composed o.letter (h ++ [⟨s.recvBuf, o.reply.toList⟩]) o.state := by
  have hscan₁ : (patternScan s.recvBuf).1 = type := by rw [hscan]
  -- only message text can be behind the text of a message
  have hanswered : type ≠ .ptData → (type = .ptDataRecv → dataMark <:+ s.recvBuf) →
      (o.state = .expectRcpt ∨ o.state = .expectData → ∃ l, o.letter = .live l ∧ l.body = []) →
        Composed o.letter (h ++ [⟨s.recvBuf, o.reply.toList⟩]) o.state := by
    intro hdata hmark hempty
    refine composed_of_answered hempty (fun hx => hdata (hscan₁.symm.trans hx.1)) fun hx => ?_
    exact hx.mark (hmark (hscan₁.symm.trans hx.type))
  cases ho with
  | helo | ehlo | quit => exact hanswered (by simp) (by simp) (by simp)
  | mail => exact hanswered (by simp) (by simp) fun _ => ⟨_, rfl, rfl⟩
  | mailNone hst => exact hanswered (by simp) (by simp) (by simp)
  | @rcpt _ _ _ letter hst hletter =>
      refine hanswered (by simp) (by simp) fun _ => ?_
      obtain ⟨l, hl, hbody⟩ := hc.empty (.inl hst)
      rw [hletter] at hl
      cases hl
      exact ⟨_, rfl, hbody⟩
  | rcptNone hst => exact hanswered (by simp) (by simp) fun _ => hc.empty (.inl hst)
  | vrfy => exact hanswered (by simp) (by simp) hc.empty
  | rset => exact hanswered (by simp) (by simp) (by simp)
  | mark hst hletter hmark | dot hst hletter =>
      refine hanswered (by simp) (by simp [*]) fun hst => ?_
      rcases hst with hst | hst <;> simpa using endOfData_state hst
  | data hst =>
      refine ⟨by simp, fun _ before data texts heq hdata htexts => ⟨rfl, ?_⟩⟩
      rcases concat_eq_append_cons.mp heq with ⟨rfl, rfl, rfl⟩ | ⟨rest, rfl, -⟩
      · obtain ⟨l, hl, hbody⟩ := hc.empty (.inr hst)
        rw [hst, hl] at hs
        obtain ⟨_, heq, haddressed⟩ := hs
        cases heq
        exact ⟨l, hl, hbody, haddressed⟩
      · have htext : TextChunk s.recvBuf := htexts ⟨s.recvBuf, [response354]⟩ (by simp)
        exact absurd (hscan₁.symm.trans htext.type) (by simp)
  | @text _ letter hst hletter hlen hmark =>
      refine ⟨by simp, fun _ before data texts heq hdata htexts => ⟨rfl, ?_⟩⟩
      rcases concat_eq_append_cons.mp heq with ⟨-, -, rfl⟩ | ⟨rest, rfl, hbefore⟩
      · exact absurd (hscan₁.symm.trans hdata.1) (by simp)
      · obtain ⟨-, l, hl, hbody, haddressed⟩ := hc.text (by simp [hst]) before data rest hbefore
          hdata fun x hx => htexts x (by simp [hx])
        rw [hletter] at hl
        cases hl
        refine ⟨_, rfl, ?_, haddressed.recipient, haddressed.halves⟩
        rw [bodyOf_concat, ← hbody]
        rfl

namespace Link

variable {l l' : Link} {r : Round}

theorem composed_round (hl : l.Greeted) (hs : Agrees l.session.letter h l.session.state)
    (hc : Composed l.session.letter h l.session.state) (hok : l.round r = .ok l') :
    Composed l'.session.letter (h ++ l.exchange r l') l'.session.state := by
  obtain ⟨-, hpassed⟩ := round_passed hl hok
  have hs₀ : Agrees (l.connUpdate r).session.letter h (l.connUpdate r).session.state := by simpa
  have hc₀ : Composed (l.connUpdate r).session.letter h (l.connUpdate r).session.state := by simpa
  cases hpassed with
  | idle hrecv hs' =>
      rw [exchange_of_idle hrecv, List.append_nil, hs']
      exact hc₀
  | timeout hrecv hs' =>
      rw [hs']
      exact composed_disconnected _ _
  | unknown hrecv hno hs' =>
      obtain ⟨htype, hst⟩ := noMatch_patternScan_iff.mp hno
      rw [exchange_of_chunk hrecv
        (show l'.session.replies = _ ++ [response500] by rw [hs']; rfl), hs']
      refine ⟨hc₀.empty, fun hopen before data texts heq hdata htexts => ?_⟩
      rcases concat_eq_append_cons.mp heq with ⟨-, -, rfl⟩ | ⟨rest, rfl, hbefore⟩
      · exact absurd hdata.2 (by simp [show response500 ≠ response354 by decide])
      · exact absurd (hc₀.text hopen before data rest hbefore hdata
          fun x hx => htexts x (by simp [hx])).1 hst
  | served o hrecv ho hgives =>
      rw [exchange_of_chunk hrecv hgives.replies, hgives.letter, hgives.state]
      exact Composed.serves hs₀ hc₀ rfl ho

/-- The invariant of the run, from the greeting on. -/
theorem composed_of_run {now : Timeval} {e : Env} {rs : List Round}
    (hrun : run talk (accepted now, []) (.greeting e :: rs) = .ok (l, h)) :
    Composed l.session.letter h l.session.state := by
  obtain ⟨⟨l₀, h₀⟩, hgreeting, hrest⟩ := bind_eq_ok.mp hrun
  obtain ⟨hround, hh₀⟩ := logged_eq_ok.mp hgreeting
  have hagrees : l₀.Greeted ∧ Agrees l₀.session.letter h₀ l₀.session.state :=
    agrees_of_run (show run talk (accepted now, []) [.greeting e] = .ok (l₀, h₀) from
      run_cons_ok hgreeting)
  have hstate : Composed l₀.session.letter h₀ l₀.session.state := by
    obtain rfl : h₀ = [] := hh₀.trans (by rw [exchange_greeting]; rfl)
    refine ⟨fun hst => ?_, fun _ before data texts heq => by simp at heq⟩
    rcases (session_of_greeting (l := l₀) hround).1 with hst' | hst' <;> simp [hst'] at hst
  refine (run_invariant (P := fun c => (c.1.Greeted ∧
    Agrees c.1.session.letter c.2 c.1.session.state) ∧
      Composed c.1.session.letter c.2 c.1.session.state)
    (fun c r c' hc _ hok => ?_) ⟨hagrees, hstate⟩ (guarded_true _ rs) hrest).2
  obtain ⟨hround, hlog⟩ := logged_eq_ok.mp hok
  rw [hlog]
  exact ⟨⟨hc.1.1.round hround, agrees_round hc.1.1 hc.1.2 hround⟩,
    composed_round hc.1.1 hc.1.2 hc.2 hround⟩

end Link

/-! ### The lone dot -/

/-- The lone dot is the end of the message, and nothing is captured. -/
theorem patternScan_of_loneDot {chunk : CStr} (h : LoneDot chunk) :
    patternScan chunk = (.ptDataEnd, none) := by
  obtain ⟨before, hbefore, tail, htail, rfl⟩ := h
  simp only [List.mem_cons, List.not_mem_nil, or_false] at hbefore
  simp only [lineTails, List.mem_cons, List.not_mem_nil, or_false] at htail
  rcases hbefore with rfl | rfl | rfl <;> rcases htail with rfl | rfl | rfl | rfl | rfl <;>
    decide

theorem protocolUpdate_of_loneDot {letter : Letter} (hst : s.state = .expectDataRecv)
    (hletter : s.letter = .live letter) (hdot : LoneDot s.recvBuf)
    (hfile : e.creatable (letter.filename e) = true) :
    ∃ s', protocolUpdate e s = .ok s' ∧
      s'.files = s.files ++ [(letter.filename e, letter.text)] := by
  have hrecv : s.recvBuf ≠ [] := by
    obtain ⟨before, -, tail, -, heq⟩ := hdot
    simp [heq]
  have hserves : Serves e s .ptDataEnd none (endOfData e letter) := .dot hst hletter
  obtain ⟨s', hok, hgives⟩ := protocolUpdate_of_scan hrecv (patternScan_of_loneDot hdot) hserves
  have hfiles := hgives.files
  rw [endOfData, if_pos hfile] at hfiles
  exact ⟨s', hok, hfiles⟩

end SmtpProj.Server
