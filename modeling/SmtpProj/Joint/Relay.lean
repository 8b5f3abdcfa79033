import SmtpProj.Joint.Wire
import SmtpProj.Server.EndOfData

/-!
A letter on its second way.

The server adds CRLF to every chunk that it takes as text, and the client sends
every line with its newline. So in the file of a letter that came from this
client, a line with nothing but CR follows each line of the text. When the file
is sent on, that line is a chunk of two bytes, and `process_data_recv` reads the
five bytes before the end of it: three of them lie in front of `recv_buf`. The
session saves the letters in front of the delivered one, and in the body of that
one it comes to this read, which nothing defines. The model goes no further.
-/

namespace SmtpProj.Joint

open Lib

/-! ### The file of a letter that was delivered -/

theorem tokens_line {line rest : CStr} (hne : line ≠ []) (hline : '\n' ∉ line) :
    tokens '\n' (line ++ '\n' :: rest) = line :: tokens '\n' rest :=
  tokens_of_nextToken (nextToken_line hne hline)

/-- A line with nothing but CR is the first line of a body, or the second. -/
theorem tokens_received {lines : List CStr} (hlines : ∀ line ∈ lines, line ≠ [] ∧ '\n' ∉ line) :
    ∃ rest, tokens '\n' (received (lines.map (· ++ "\n".toList) ++ [Client.endOfBody]) ++
      ['\n']) = lines.take 1 ++ ['\r'] :: rest := by
  cases lines with
  | nil => exact ⟨_, @tokens_line ['\r'] _ (by simp) (by decide)⟩
  | cons line lines =>
      obtain ⟨hne, hline⟩ := hlines line (by simp)
      have htext : received ((line :: lines).map (· ++ "\n".toList) ++ [Client.endOfBody]) ++
          ['\n'] = line ++ '\n' :: (['\r'] ++ '\n' ::
            (received (lines.map (· ++ "\n".toList) ++ [Client.endOfBody]) ++ ['\n'])) := by
        simp [received, Server.crlf]
      rw [htext, tokens_line hne hline, tokens_line (by simp) (by decide)]
      exact ⟨_, rfl⟩

/-- The lines of the file of a letter, as the next client sends them. -/
theorem SavedAs.tokens_eq {text : CStr} {file : CStr × CStr} (h : SavedAs text file)
    (hnul : nul ∉ text) :
    ∃ sender rcpt lines rest, tokens '\n' text = sender :: rcpt :: lines ∧
      tokens '\n' (upToNul file.2) = sender :: rcpt :: (lines.take 1 ++ ['\r'] :: rest) := by
  obtain ⟨sender, rcpt, lines, -, -, -, htokens, -, -, hfile⟩ := h
  have hline : ∀ line ∈ sender :: rcpt :: lines, line ≠ [] ∧ '\n' ∉ line :=
    fun line hmem => of_mem_tokens (htokens ▸ hmem)
  have hstring : ∀ line ∈ sender :: rcpt :: lines, nul ∉ line := by
    intro line hmem hin
    have hflat : nul ∈ (tokens '\n' text).flatten := by
      rw [htokens]
      exact List.mem_flatten_of_mem hmem hin
    rw [flatten_tokens] at hflat
    exact hnul (List.mem_of_mem_filter hflat)
  have hbody : nul ∉ received (lines.map (· ++ "\n".toList) ++ [Client.endOfBody]) := by
    simp only [received, List.mem_flatten, List.mem_map, List.mem_append, List.mem_singleton]
    rintro ⟨-, ⟨chunk, ⟨line, hmem, rfl⟩ | rfl, rfl⟩, hin⟩
    · have hstring := hstring line (by simp [hmem])
      simp [hstring, Server.crlf, show nul ≠ '\n' by decide, show nul ≠ '\r' by decide] at hin
    · revert hin
      decide
  obtain ⟨rest, hrest⟩ := @tokens_received lines
    fun line hmem => hline line (by simp [hmem])
  generalize received (lines.map (· ++ "\n".toList) ++ [Client.endOfBody]) = body
    at hfile hbody hrest
  have hfile' : file.2 = sender ++ '\n' :: (rcpt ++ '\n' :: (body ++ ['\n'])) := by
    rw [hfile]
    simp
  have hwhole : upToNul file.2 = file.2 := by
    refine upToNul_eq_self ?_
    rw [hfile']
    simp [hstring sender (by simp), hstring rcpt (by simp), hbody, show nul ≠ '\n' by decide]
  refine ⟨sender, rcpt, lines, rest, htokens, ?_⟩
  rw [hwhole, hfile', tokens_line (hline sender (by simp)).1 (hline sender (by simp)).2,
    tokens_line (hline rcpt (by simp)).1 (hline rcpt (by simp)).2, hrest]

namespace Wire

variable {x : Wire} {c : Client.Child} {j : ℕ} {d : Client.Dscrptr} {p : Server.LetterPtr}
  {l : Server.Letter} {files : List (CStr × CStr)} {e : Server.Env} {es : ℕ → Server.Env}
  {t : Turn} {ts : List Turn} {path place : CStr} {letters after front back : List CStr}

/-! ### A short line -/

/-- A text of less than five bytes is read in front of the buffer. -/
theorem Hears.short (hx : x.Hears c .expectDataRecv (.live l) [] files) {text : CStr}
    (hscan : (Server.patternScan text).1 = .ptDataRecv) (hne : text ≠ [])
    (hlen : text.length < 5) : x.round (.chunk e text) = .error (.server .outOfBounds) := by
  have hrecv : (x.link.connUpdate (.chunk e text)).session.recvBuf = text := by
    rw [Server.Link.connUpdate_chunk hx.link.inRead]
  have hstate := (Server.Link.connUpdate_state (.chunk e text) x.link).trans hx.link.state
  have hletter := (Server.Link.connUpdate_letter (.chunk e text) x.link).trans hx.link.letter
  have hnclosing : ¬x.link.Closing (.chunk e text) := fun h => by
    have := hx.link.state.symm.trans h.1
    cases this
  have hround : x.link.round (.chunk e text) = .error (.halted .outOfBounds) := by
    rw [Server.Link.round_of_not_closing hnclosing, Server.Link.protocolUpdate,
      Server.protocolUpdate_of_short (fun _ => ⟨l, hletter⟩) hstate (by rwa [hrecv])
        (by rwa [hrecv]) (by rwa [hrecv])]
  simp [round, hx.isOpen, hround]

theorem Hears.front_short (hx : x.Hears c .expectDataRecv (.live l) [] files)
    (hfront : ∀ line ∈ front, '\n' ∉ line ∧ 4 ≤ line.length ∧ Server.NoKeyword line) :
    run round x (arrivals es (front.map (· ++ "\n".toList) ++ "\r\n".toList :: back)) =
      .error (.server .outOfBounds) := by
  induction front generalizing x l es with
  | nil =>
      rw [List.map_nil, List.nil_append, arrivals_cons, run_cons,
        hx.short (by decide) (by decide) (by decide)]
      rfl
  | cons line front ih =>
      obtain ⟨⟨hline, hlen, hkey⟩, hfront⟩ := List.forall_mem_cons.mp hfront
      obtain ⟨x₁, hround, hx₁⟩ := hx.line (e := es 0) hline hlen hkey
      rw [List.map_cons, List.cons_append, arrivals_cons, run_cons_ok hround]
      exact ih hx₁ hfront

/-- With a line of less than five bytes in the body the server comes to that read. -/
theorem Level.body_short (ht : t.Calm) (hx : x.Level j d .expectDataRecv (.live l) files)
    (hstate : d.state = .sendBody) (hplace : x.GoesOn j place)
    (htokens : tokens '\n' place = front ++ ['\r'] :: back)
    (hfront : ∀ line ∈ front, 4 ≤ line.length ∧ Server.NoKeyword line)
    (hfits : ∀ text ∈ (tokens '\n' place).map (· ++ "\n".toList) ++ [Client.endOfBody],
      text.length < Server.bufSize) :
    x.step j (.write t.kernel t.arrivals) = .error (.server .outOfBounds) := by
  have hfront' : ∀ line ∈ front, '\n' ∉ line ∧ 4 ≤ line.length ∧ Server.NoKeyword line :=
    fun line h => ⟨(of_mem_tokens (htokens ▸ List.mem_append_left _ h)).2, hfront line h⟩
  have hsend : (x.child.dscrptrs j).sendCommand x.child.conf.hostName x.child.files
      (x.child.placeAt t.kernel) = .ok ⟨x.child.dscrptrs j, some [], none,
        (tokens '\n' place).map (· ++ "\n".toList) ++ [Client.endOfBody], none⟩ := by
    rw [hx.dscrptr]
    simp [Client.Dscrptr.sendCommand, hstate, hplace.placeAt, Client.sendMsgBody, bind, Except.bind]
  have hsmooth : Client.Child.Smooth j x.child (.write j t.kernel) := by
    refine ⟨rfl, fun r' hr' n text hn => ?_⟩
    cases (hx.usable.sendMsgToServer hsend _).symm.trans hr'
    obtain ⟨m, hm, hle⟩ := ht.writes n
    exact ⟨m, hm, (hfits text (List.mem_of_getElem? hn)).le.trans hle⟩
  obtain ⟨c, hok, hc⟩ := Client.Child.write_smooth hx.usable hsend hsmooth
  have hok : x.child.handleWriteSocket t.kernel j = .ok c := hok
  have hx₁ : Hears c .expectDataRecv (.live l) [] files { x with child := c } :=
    ⟨rfl, hx.server.isOpen, hx.server.unread, hx.server.link⟩
  simp only [step, Wire.write, hok, hc.sent, List.drop_left, htokens, List.map_append,
    List.map_cons, List.append_assoc, List.cons_append]
  exact hx₁.front_short hfront'

/-! ### The letters of a queue -/

theorem Level.letters_saved (hx : x.Level j d .expectMail p files)
    (hstate : d.state = .sendMailFrom)
    (hmails : d.mailsList = (letters ++ path :: after).map some ++ [none])
    (hread : ∀ q ∈ letters, Client.Readable x.child.files q ∧
      Sendable (Client.textOf x.child.files q))
    (hapart : Client.Child.Apart (letters ++ path :: after))
    (hfits : ∀ q ∈ letters, ∀ text ∈ Client.letterTexts (Client.textOf x.child.files q),
      text.length < Server.bufSize)
    (hlen : ts.length = 4 * letters.length) (hcalm : ∀ t ∈ ts, t.Calm) :
    ∃ x' d' p' saved, run (step j) x (ts.flatMap Turn.moves) = .ok x' ∧
      x'.Level j d' .expectMail p' (files ++ saved) ∧
        List.Forall₂ SavedAs (letters.map (Client.textOf x.child.files)) saved ∧
          d'.state = .sendMailFrom ∧ d'.mailsList = (path :: after).map some ++ [none] ∧
            x'.child.files path = x.child.files path := by
  induction letters generalizing x d p files ts with
  | nil =>
      obtain rfl := List.length_eq_zero_iff.mp hlen
      exact ⟨x, d, p, [], rfl, by simpa using hx, .nil, hstate, hmails, rfl⟩
  | cons q letters ih =>
      rw [List.length_cons] at hlen
      obtain ⟨x₁, d₁, file, hrun₁, hx₁, hsaved, hstate₁, hmails₁, hfiles₁⟩ :=
        hx.letter_saved [] hstate hmails (hread q (by simp)).1 (hread q (by simp)).2
          hapart.others (hfits q (by simp))
          (show (ts.take 4).length = 4 by rw [List.length_take]; omega)
          fun t ht => hcalm t (List.mem_of_mem_take ht)
      have hsame : ∀ q ∈ letters, x₁.child.files q = x.child.files q :=
        fun q hq => hfiles₁ q (List.mem_append_left _ hq)
      have htext : ∀ q ∈ letters, Client.textOf x₁.child.files q = Client.textOf x.child.files q :=
        fun q hq => by rw [Client.textOf, Client.textOf, hsame q hq]
      obtain ⟨x', d', p', saved, hrun', hx', hall, hstate', hmails', hpath⟩ := ih hx₁
        (by simpa using hstate₁) hmails₁
        (fun q hq => ⟨(hread q (by simp [hq])).1.congr (hsame q hq),
          htext q hq ▸ (hread q (by simp [hq])).2⟩)
        hapart.tail (fun q hq => htext q hq ▸ hfits q (by simp [hq]))
        (show (ts.drop 4).length = _ by rw [List.length_drop]; omega)
        fun t ht => hcalm t (List.mem_of_mem_drop ht)
      refine ⟨x', d', p', file :: saved, ?_, by simpa using hx', ?_, hstate', hmails',
        hpath.trans (hfiles₁ path (by simp))⟩
      · rw [← List.take_append_drop 4 ts, List.flatMap_append,
          run_append_ok (run_of_run_logged hrun₁), hrun']
      · rw [List.map_cons, ← Client.Child.textOf_congr hsame]
        exact .cons hsaved hall

theorem readable_of_tokens {files : CStr → Option (List Char)} {sender rcpt content : CStr}
    {lines : List CStr} (hfile : files path = some content)
    (htokens : tokens '\n' (upToNul content) = sender :: rcpt :: lines) :
    Client.Readable files path ∧ Client.textOf files path = upToNul content := by
  have htext : Client.textOf files path = upToNul content := by simp [Client.textOf, hfile]
  refine ⟨⟨⟨content, hfile, ?_⟩, by rw [htext, htokens]; simp⟩, htext⟩
  rintro rfl
  simp [upToNul] at htokens

/-- The letter that was delivered before gets as far as its body. -/
theorem Level.relayed_short {text : CStr} {file : CStr × CStr} {t₁ t₂ t₃ : Turn}
    (hx : x.Level j d .expectMail p files) (hstate : d.state = .sendMailFrom)
    (hmails : d.mailsList = (path :: after).map some ++ [none]) (hsendable : Sendable text)
    (hnul : nul ∉ text) (hsaved : SavedAs text file) (hfile : x.child.files path = some file.2)
    (hfits : ∀ text ∈ Client.letterTexts (Client.textOf x.child.files path),
      text.length < Server.bufSize)
    (ht₁ : t₁.Calm) (ht₂ : t₂.Calm) (ht₃ : t₃.Calm) (ht : t.Calm) :
    ∃ x', run (step j) x ([t₁, t₂, t₃].flatMap Turn.moves) = .ok x' ∧
      x'.link.session.files = files ∧
        x'.step j (.write t.kernel t.arrivals) = .error (.server .outOfBounds) := by
  obtain ⟨sender, username, domain, lines, htokens, huser, hdomain, -, hlines⟩ := hsendable
  obtain ⟨_, _, _, rest, htokens', hcontent⟩ := hsaved.tokens_eq hnul
  cases htokens.symm.trans htokens'
  have hline : '\n' ∉ username ++ '@' :: domain :=
    (of_mem_tokens (htokens ▸ List.mem_cons_of_mem _ List.mem_cons_self)).2
  obtain ⟨⟨u, v⟩, hemail⟩ := Option.isSome_iff_exists.mp (Server.patternEmail_isSome huser hdomain
    (fun h => hline (by simp [h])) (fun h => hline (by simp [h])))
  obtain ⟨hread, htext⟩ := readable_of_tokens hfile hcontent
  rw [htext] at hfits
  rw [Client.letterTexts, hcontent] at hfits
  obtain ⟨hcommands, hfits₄⟩ := List.forall_mem_append.mp hfits
  simp only [List.forall_mem_cons] at hcommands
  obtain ⟨hfits₁, hfits₂, -⟩ := hcommands
  obtain ⟨x₁, place₁, hrun₁, hx₁, hplace₁, htokens₁, -⟩ := hx.mail [] ht₁ hstate hmails
    hread.readMsgFile (htext ▸ hcontent) hfits₁
  obtain ⟨x₂, place₂, hrun₂, hx₂, hplace₂, htokens₂, -⟩ :=
    hx₁.rcpt [] ht₂ rfl hplace₁ htokens₁ hemail hfits₂
  obtain ⟨x₃, hrun₃, hx₃, hplace₃, -⟩ := hx₂.data [] ht₃ rfl hplace₂
  refine ⟨x₃, ?_, hx₃.server.link.files, hx₃.body_short ht rfl hplace₃ htokens₂
    (fun line h => hlines line (List.mem_of_mem_take h)) (htokens₂ ▸ hfits₄)⟩
  rw [List.flatMap_cons, run_append_ok (run_of_run_logged hrun₁), List.flatMap_cons,
    run_append_ok (run_of_run_logged hrun₂), List.flatMap_cons,
    run_append_ok (run_of_run_logged hrun₃)]
  rfl

/-- What a session has delivered makes the next one read out of bounds. The file
that it left with the letter's text, put into a client's queue behind any letters
that can be sent, lets the next session save these; and when the body of the
letter is sent, the server reads in front of `recv_buf`. -/
theorem relayed_letter_underruns {c : Client.Child} {text : CStr} {file : CStr × CStr}
    {now : Server.Timeval} {e₀ e₁ : Server.Env} (hsendable : Sendable text) (hnul : nul ∉ text)
    (hsaved : SavedAs text file) (hfile : c.files path = some file.2)
    (hstate : (c.dscrptrs j).state = .connect) (hattempt : (c.dscrptrs j).lastAttemptTime = 0)
    (hsocket : c.sockets (c.dscrptrs j).socketFd = some j)
    (hqueue : (c.dscrptrs j).mailsList = (letters ++ path :: after).map some ++ [none])
    (hhost : c.conf.hostName ≠ []) (hline : '\n' ∉ c.conf.hostName)
    (hread : ∀ q ∈ letters, Client.Readable c.files q ∧ Sendable (Client.textOf c.files q))
    (hapart : Client.Child.Apart (letters ++ path :: after))
    (hfits : ∀ text ∈ Client.sessionTexts c.conf.hostName
      ((letters ++ [path]).map (Client.textOf c.files)), text.length < Server.bufSize)
    (hgreet : Server.stopwatchWatch e₀.now now ≤ Server.connTimeout)
    (hwait : Server.stopwatchWatch e₁.now now ≤ Server.connTimeout)
    (hlen : 4 * letters.length + 5 ≤ ts.length) (hcalm : ∀ t ∈ ts, t.Calm) :
    ∃ front, ∃ t : Turn, ∃ back x, session e₀ e₁ ts = front ++ .write t.kernel t.arrivals :: back ∧
      run (step j) ⟨c, .accepted now, true, []⟩ front = .ok x ∧
        List.Forall₂ SavedAs (letters.map (Client.textOf c.files)) x.link.session.files ∧
          x.step j (.write t.kernel t.arrivals) = .error (.server .outOfBounds) := by
  obtain ⟨t₀, ts, rfl⟩ := List.exists_cons_of_length_pos (by omega : 0 < ts.length)
  rw [List.length_cons] at hlen
  obtain ⟨t₁, t₂, t₃, t₄, ts', hts⟩ : ∃ t₁ t₂ t₃ t₄ ts',
      ts.drop (4 * letters.length) = t₁ :: t₂ :: t₃ :: t₄ :: ts' := by
    match hdrop : ts.drop (4 * letters.length) with
    | t₁ :: t₂ :: t₃ :: t₄ :: ts' => exact ⟨t₁, t₂, t₃, t₄, ts', rfl⟩
    | [] | [_] | [_, _] | [_, _, _] =>
        have := congrArg List.length hdrop
        simp only [List.length_drop, List.length_cons, List.length_nil] at this
        omega
  have hturns : ts = ts.take (4 * letters.length) ++ t₁ :: t₂ :: t₃ :: t₄ :: ts' := by
    rw [← hts, List.take_append_drop]
  obtain ⟨ht₀, hcalm⟩ := List.forall_mem_cons.mp hcalm
  have hlast : ∀ t ∈ t₁ :: t₂ :: t₃ :: t₄ :: ts', t.Calm :=
    fun t ht => hcalm t (hturns ▸ List.mem_append_right _ ht)
  simp only [List.forall_mem_cons] at hlast
  obtain ⟨ht₁, ht₂, ht₃, ht₄, -⟩ := hlast
  obtain ⟨hhelo, hrest⟩ := List.forall_mem_cons.mp hfits
  have hfits : ∀ q ∈ letters ++ [path], ∀ text ∈ Client.letterTexts (Client.textOf c.files q),
      text.length < Server.bufSize := fun q hq text htext =>
    hrest text (List.mem_append_left _ (List.mem_flatMap.mpr ⟨_, List.mem_map_of_mem hq, htext⟩))
  obtain ⟨x₀, hrun₀, hx₀, hconf₀, hfiles₀⟩ := greets ⟨hsocket, hattempt⟩ hstate hgreet hwait
  obtain ⟨x₁, hrun₁, hx₁, hfiles₁⟩ :=
    hx₀.helo [] ht₀ rfl (by rwa [hconf₀]) (by rwa [hconf₀]) (by rwa [hconf₀])
  have hfiles : x₁.child.files = c.files := hfiles₁.trans hfiles₀
  obtain ⟨x₂, d, p, saved, hrun₂, hx₂, hall, hstate₂, hmails₂, hpath⟩ := hx₁.letters_saved rfl
    hqueue (hfiles ▸ hread) hapart
    (fun q hq => hfiles ▸ hfits q (List.mem_append_left _ hq))
    (show (ts.take (4 * letters.length)).length = _ by rw [List.length_take]; omega)
    fun t ht => hcalm t (List.mem_of_mem_take ht)
  rw [hfiles] at hall hpath
  have htext : Client.textOf x₂.child.files path = Client.textOf c.files path := by
    rw [Client.textOf, Client.textOf, hpath]
  obtain ⟨x₃, hrun₃, hx₃, hstops⟩ := hx₂.relayed_short hstate₂ hmails₂ hsendable hnul hsaved
    (hpath.trans hfile) (htext ▸ hfits path (by simp)) ht₁ ht₂ ht₃ ht₄
  refine ⟨[.pass e₀, .pass e₁, .read] ++ (t₀.moves ++ ((ts.take (4 * letters.length)).flatMap
    Turn.moves ++ [t₁, t₂, t₃].flatMap Turn.moves)), t₄,
    [.pass t₄.answer, .read] ++ ts'.flatMap Turn.moves, x₃, ?_, ?_, by rwa [hx₃], hstops⟩
  · rw [session, List.flatMap_cons]
    conv_lhs => rw [hturns]
    simp [Turn.moves]
  · rw [run_append_ok (run_of_run_logged hrun₀), run_append_ok (run_of_run_logged hrun₁),
      run_append_ok hrun₂, hrun₃]

def deliveredFile : CStr × CStr :=
  (Server.maildirGetFname Server.sampleEnv "r".toList "b".toList,
    "s@a".toList ++ ['\n'] ++ "r@b".toList ++ ['\n'] ++
      received (["Text.".toList].map (· ++ "\n".toList) ++ [Client.endOfBody]) ++ ['\n'])

def relayingChild : Client.Child :=
  Client.bootChild ⟨"m/".toList, "h".toList, 120, 10⟩
    (fun path => if path = Client.sampleLetter "a.b" then some deliveredFile.2 else none)
    fun _ => Client.zeroDscrptr

theorem relayed_letter_underruns_sample : ∃ c front, ∃ t : Turn, ∃ back x,
    run Client.Child.step relayingChild [.register (Client.sampleLetter "a.b") (some 5)] = .ok c ∧
      session Server.sampleEnv Server.sampleEnv (List.replicate 5 sampleTurn) =
        front ++ .write t.kernel t.arrivals :: back ∧
      run (step 0) ⟨c, .accepted ⟨0, 0⟩, true, []⟩ front = .ok x ∧
        x.step 0 (.write t.kernel t.arrivals) = .error (.server .outOfBounds) := by
  have hall : (run Client.Child.step relayingChild
      [.register (Client.sampleLetter "a.b") (some 5)] >>= fun c =>
        .ok (decide (((c.dscrptrs 0).state = .connect ∧ (c.dscrptrs 0).lastAttemptTime = 0 ∧
          c.sockets (c.dscrptrs 0).socketFd = some 0) ∧
            (c.dscrptrs 0).mailsList = ([] ++ Client.sampleLetter "a.b" :: []).map some ++ [none] ∧
              c.conf.hostName = ['h'] ∧
                c.files (Client.sampleLetter "a.b") = some deliveredFile.2))) = .ok true := by
    decide +kernel
  obtain ⟨c, hrun, hc⟩ := bind_eq_ok.mp hall
  obtain ⟨⟨hstate, hattempt, hsocket⟩, hqueue, hhost, hfile⟩ :=
    of_decide_eq_true (Except.ok.inj hc)
  have htime : Server.stopwatchWatch Server.sampleEnv.now ⟨0, 0⟩ ≤ Server.connTimeout := by
    decide
  have hsendable : Sendable "s@a\nr@b\nText.\n".toList := by
    refine ⟨"s@a".toList, "r".toList, "b".toList, ["Text.".toList], by decide, by decide,
      by decide, by decide, ?_⟩
    simp only [List.mem_singleton, forall_eq]
    exact ⟨by decide, Server.noKeyword_of_head (by simp)⟩
  have hsaved : SavedAs "s@a\nr@b\nText.\n".toList deliveredFile :=
    ⟨"s@a".toList, "r@b".toList, ["Text.".toList], "r".toList, "b".toList, Server.sampleEnv,
      by decide, by decide +kernel, rfl, rfl⟩
  have hcalm : ∀ t ∈ List.replicate 5 sampleTurn, t.Calm := by
    intro t ht
    rw [List.eq_of_mem_replicate ht]
    exact ⟨fun _ => ⟨1024, rfl, le_rfl⟩, fun _ _ => rfl, fun _ => htime⟩
  have htext : Client.textOf c.files (Client.sampleLetter "a.b") = upToNul deliveredFile.2 := by
    rw [Client.textOf, hfile]
  obtain ⟨front, t, back, x, hmoves, hfront, -, hstops⟩ := relayed_letter_underruns hsendable
    (by decide) hsaved hfile hstate hattempt hsocket hqueue (by simp [hhost]) (by simp [hhost])
    (by simp) ⟨by simp, by simp⟩ (by rw [hhost, List.nil_append, List.map_singleton, htext]; decide)
    htime htime (by decide) hcalm
  exact ⟨c, front, t, back, x, hrun, hmoves, hfront, hstops⟩

end Wire

end SmtpProj.Joint
