import SmtpProj.Client.Spool
import SmtpProj.Server.Overrun

/-!
The envelope of a letter on its way through the spool.

The server writes the sender and the recipient as the first two lines of the
letter's file, and the client sends the first two lines that are not empty. The
two programs share no format. What makes them agree is what the line patterns
can capture: an argument is never empty and holds no newline, so each of the
addresses is a line, and a line that `strtok` does not skip. The recipient comes
through a field of the letter, though, and one that does not fit it may be
another when it is saved.
-/

namespace SmtpProj.Joint

open Lib

/-! ### What the patterns let through -/

structure OneLine (text : CStr) : Prop where
  ne_nil : text ≠ []
  newline : '\n' ∉ text
  nul : nul ∉ text

variable {h : List Server.Exchange} {mailFrom rcptTo body : CStr}

theorem oneLine_of_scan {chunk arg : CStr} {type : Server.PatternType}
    (htype : type.takesArgument = true) (hnul : nul ∉ chunk)
    (hscan : Server.patternScan chunk = (type, some arg)) : OneLine arg := by
  obtain ⟨hne, hline, hsub⟩ := Server.patternScan_some htype hscan
  exact ⟨hne, hline, fun hmem => hnul (hsub.subset hmem)⟩

/-- The envelope of a letter consists of two lines. -/
theorem oneLine_of_recipient (hstrings : ∀ x ∈ h, nul ∉ x.chunk)
    (hr : Server.Recipient mailFrom rcptTo h) : OneLine mailFrom ∧ OneLine rcptTo := by
  obtain ⟨⟨x, hx, hmail⟩, y, hy, hrcpt⟩ := hr.arguments
  exact ⟨oneLine_of_scan rfl (hstrings x hx) hmail, oneLine_of_scan rfl (hstrings y hy) hrcpt⟩

/-! ### Reading the file -/

theorem readMsgFile_letter (hfrom : OneLine mailFrom) (hto : OneLine rcptTo) (rest : CStr) :
    Client.readMsgFile (some (mailFrom ++ ['\n'] ++ rcptTo ++ ['\n'] ++ rest)) =
      .ok (some (mailFrom ++ '\n' :: (rcptTo ++ '\n' :: upToNul rest))) := by
  have hcontent : mailFrom ++ ['\n'] ++ rcptTo ++ ['\n'] ++ rest ≠ [] := by simp
  have hstring : nul ∉ mailFrom ++ ['\n'] ++ rcptTo ++ ['\n'] := by
    simp [hfrom.nul, hto.nul, show nul ≠ '\n' by decide]
  unfold Client.readMsgFile
  split
  next heq => cases heq
  next heq => exact absurd (Option.some.inj heq) hcontent
  next content heq =>
    cases heq
    rw [upToNul_append_of_notMem hstring]
    simp

theorem sendMailFrom_line {place : Option CStr} {rest : CStr} (h : OneLine mailFrom) :
    Client.sendMailFrom place (some (mailFrom ++ '\n' :: rest)) =
      .ok ("MAIL FROM: <".toList ++ mailFrom ++ ">\n".toList, rest) := by
  simp [Client.sendMailFrom, Client.strtok, nextToken_line h.ne_nil h.newline, bind, Except.bind]

theorem sendRcptTo_line {msg : Option CStr} {rest : CStr} (h : OneLine rcptTo) :
    Client.sendRcptTo (some (rcptTo ++ '\n' :: rest)) msg =
      .ok ("RCPT TO:<".toList ++ rcptTo ++ ">\n".toList, rest) := by
  simp [Client.sendRcptTo, Client.strtok, nextToken_line h.ne_nil h.newline, bind, Except.bind]

/-- Neither of the addresses adds a line to the letter. -/
theorem tokens_letter (hfrom : OneLine mailFrom) (hto : OneLine rcptTo) (rest : CStr) :
    tokens '\n' (mailFrom ++ '\n' :: (rcptTo ++ '\n' :: rest)) =
      mailFrom :: rcptTo :: tokens '\n' rest := by
  rw [tokens_of_nextToken (nextToken_line hfrom.ne_nil hfrom.newline),
    tokens_of_nextToken (nextToken_line hto.ne_nil hto.newline)]

/-! ### The round trip -/

/-- The file is read back with the envelope of the transaction of `h`, each
address in a command of its own, and the lines behind them are those of the
body. -/
def RoundTrips (h : List Server.Exchange) (text : CStr) (place : Option CStr) : Prop :=
  ∃ mailFrom rcptTo body msg place₁ place₂, Server.Recipient mailFrom rcptTo h ∧
    text = mailFrom ++ ['\n'] ++ rcptTo ++ ['\n'] ++ body ++ ['\n'] ∧
      Client.readMsgFile (some text) = .ok (some msg) ∧
        Client.sendMailFrom place (some msg) =
          .ok ("MAIL FROM: <".toList ++ mailFrom ++ ">\n".toList, place₁) ∧
        Client.sendRcptTo (some place₁) (some msg) =
          .ok ("RCPT TO:<".toList ++ rcptTo ++ ">\n".toList, place₂) ∧
        tokens '\n' msg = mailFrom :: rcptTo :: tokens '\n' (upToNul (body ++ ['\n']))

theorem roundTrips_of_addressed {letter : Server.Letter} (hstrings : ∀ x ∈ h, nul ∉ x.chunk)
    (haddressed : letter.Addressed h) (body : CStr) (place : Option CStr) :
    RoundTrips h ({ letter with body := body } : Server.Letter).text place := by
  obtain ⟨hfrom, hto⟩ := oneLine_of_recipient hstrings haddressed.recipient
  refine ⟨letter.mailFrom, letter.rcptTo, body, _, _, _, haddressed.recipient, rfl, ?_,
    sendMailFrom_line hfrom, sendRcptTo_line hto, tokens_letter hfrom hto _⟩
  have hread := readMsgFile_letter hfrom hto (body ++ ['\n'])
  rwa [← List.append_assoc] at hread

/-- Whatever the machine is, and the session before it was: as long as its passes
stay inside the fields, the file that a pass saves makes the round trip. -/
theorem envelope_round_trip {now : Server.Timeval} {e : Server.Env} {x₀ : Server.Outside}
    {rs : List (Server.Round × Server.Outside)} {l : Server.Link}
    {r : Server.Round × Server.Outside} {filename text : CStr}
    (hrun : run Server.Link.talkWith (.accepted now, []) ((.greeting e, x₀) :: rs) = .ok (l, h))
    (hinside : Guarded Server.Link.talkWith (fun c r => c.1.InsideAt r) (.accepted now, [])
      ((.greeting e, x₀) :: rs))
    (hlast : l.InsideAt r) (hstrings : ∀ x ∈ h, nul ∉ x.chunk)
    (hsaved : (filename, text) ∈ (r.2.pass r.1.env (l.connUpdate r.1).session).saved)
    (place : Option CStr) : RoundTrips h text place := by
  obtain ⟨hknown, -⟩ := Server.Link.known_of_runWith hrun hinside
  obtain ⟨hst, letter, body, hletter, hfile⟩ := Server.Link.saved_of_known hknown hlast hsaved
  have hagrees := hknown.agrees
  rw [hst] at hagrees
  obtain ⟨l₁, hl₁, haddressed, -⟩ := hagrees
  obtain rfl := Server.LetterPtr.live.inj (hl₁.symm.trans hletter)
  obtain ⟨-, rfl⟩ := Prod.mk.inj hfile
  exact roundTrips_of_addressed hstrings haddressed body place

/-- A letter without any text. -/
theorem envelope_round_trip_noText : ∃ l h filename text,
    run Server.Link.talkWith (.accepted ⟨0, 0⟩, []) ((.greeting Server.sampleEnv, Server.heap) ::
        Server.Link.upToData.map (·, Server.heap)) = .ok (l, h) ∧
      (Server.heap.pass Server.sampleEnv
        (l.connUpdate (.chunk Server.sampleEnv ".\r\n".toList)).session).saved =
          [(filename, text)] ∧ RoundTrips h text none := by
  have hrun : run Server.Link.talkWith (.accepted ⟨0, 0⟩, [])
      ((.greeting Server.sampleEnv, Server.heap) :: Server.Link.upToData.map (·, Server.heap)) =
        .ok (_, _) := rfl
  have hinside : Along Server.Link.talkWith (fun c r => c.1.InsideAt r) (.accepted ⟨0, 0⟩, [])
      ((.greeting Server.sampleEnv, Server.heap) ::
        Server.Link.upToData.map (·, Server.heap)) := by
    decide +kernel
  refine ⟨_, _, _, _, hrun, rfl, ?_⟩
  exact envelope_round_trip (r := (.chunk Server.sampleEnv ".\r\n".toList, Server.heap)) hrun
    hinside.guarded (by decide +kernel) (by decide) (List.mem_singleton.mpr rfl) none

/-- A recipient of 281 bytes comes back as another one, where the fields of a
letter lie side by side. -/
theorem overlong_recipient_shifted : ∃ l h filename text,
    run Server.Link.talkWith (.accepted ⟨0, 0⟩, []) ((.greeting Server.sampleEnv, Server.heap) ::
        Server.overlongRounds) = .ok (l, h) ∧
      (∀ x ∈ h, nul ∉ x.chunk) ∧
      (Server.heap.pass Server.sampleEnv
        (l.connUpdate (.chunk Server.sampleEnv ".\r\n".toList)).session).saved =
          [(filename, text)] ∧ ∀ place, ¬RoundTrips h text place := by
  have hall : (run Server.Link.talkWith (.accepted ⟨0, 0⟩, [])
      ((.greeting Server.sampleEnv, Server.heap) :: Server.overlongRounds)).map (fun c =>
        (c.2, (Server.heap.pass Server.sampleEnv
          (c.1.connUpdate (.chunk Server.sampleEnv ".\r\n".toList)).session).saved.map
            Prod.snd)) =
      .ok (Server.overlongExchanges ++ [⟨"DATA\r\n".toList, [Server.response354]⟩],
        [Server.overlongText]) := by
    decide +kernel
  cases hrun : run Server.Link.talkWith (.accepted ⟨0, 0⟩, [])
      ((.greeting Server.sampleEnv, Server.heap) :: Server.overlongRounds) with
  | error stop =>
      rw [hrun] at hall
      cases hall
  | ok c =>
      obtain ⟨l, h⟩ := c
      rw [hrun] at hall
      obtain ⟨rfl, hsaved⟩ := Prod.mk.inj (Except.ok.inj hall)
      obtain ⟨⟨filename, text⟩, hfile, rfl⟩ := List.map_eq_singleton_iff.mp hsaved
      refine ⟨l, _, filename, _, rfl, by decide +kernel, hfile, fun place => ?_⟩
      rintro ⟨mailFrom, rcptTo, body, -, -, -, hr, htext, -⟩
      have hfront : mailFrom ++ ['\n'] ++ rcptTo <+: Server.overlongText := by
        rw [htext, List.append_assoc _ body]
        exact (List.prefix_append _ _).trans (List.prefix_append _ _)
      obtain ⟨rfl, rfl⟩ := Server.overlong_arguments (by decide) hr
      -- the second line starts like the recipient, and is another one from byte 272 on
      exact absurd (List.isPrefixOf_iff_prefix.mpr hfront) (by decide +kernel)

end SmtpProj.Joint
