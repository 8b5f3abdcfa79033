import SmtpProj.Client.Spool

/-!
An undisturbed session delivers its queue.

A reply is read and the next command is written, again and again. A letter takes
four such exchanges: its sender, its recipient, DATA, and its body. `strtok`
takes the lines off the letter on the way, and what it leaves at one step is
what the next one finds, so the lines of a letter stay together. The reply to a
body removes the letter from the front of the queue, and the session turns to
the next one, or to QUIT.

All this does not depend on how much a `write` takes of its text, as long as it
does not fail. What arrives does: `send_data` asks for nothing more.
-/

namespace SmtpProj.Client

open Lib

/-! ### The texts of a session -/

def textOf (files : CStr → Option (List Char)) (path : CStr) : CStr :=
  match files path with
  | some content => upToNul content
  | none => []

structure Readable (files : CStr → Option (List Char)) (path : CStr) : Prop where
  file : ∃ content, files path = some content ∧ content ≠ []
  lines : 2 ≤ (tokens '\n' (textOf files path)).length

theorem Readable.tokens_eq {files : CStr → Option (List Char)} {path : CStr}
    (h : Readable files path) :
    ∃ sender rcpt lines, tokens '\n' (textOf files path) = sender :: rcpt :: lines := by
  have hlines := h.lines
  generalize tokens '\n' (textOf files path) = lines at hlines ⊢
  match lines, hlines with
  | sender :: rcpt :: lines, _ => exact ⟨sender, rcpt, lines, rfl⟩

theorem Readable.congr {files files' : CStr → Option (List Char)} {path : CStr}
    (h : Readable files path) (heq : files' path = files path) : Readable files' path :=
  ⟨by rw [heq]; exact h.file, by rw [textOf, heq]; exact h.lines⟩

theorem Readable.readMsgFile {files : CStr → Option (List Char)} {path : CStr}
    (h : Readable files path) : readMsgFile (files path) = .ok (some (textOf files path)) := by
  obtain ⟨content, hfile, hcontent⟩ := h.file
  cases content with
  | nil => exact absurd rfl hcontent
  | cons c rest => simp [textOf, hfile, Client.readMsgFile]

def letterTexts (text : CStr) : List CStr :=
  match tokens '\n' text with
  | sender :: rcpt :: lines =>
      ["MAIL FROM: <".toList ++ sender ++ ">\n".toList, "RCPT TO:<".toList ++ rcpt ++ ">\n".toList,
        sendDataMsg] ++ (lines.map (· ++ "\n".toList) ++ [endOfBody])
  | _ => []

def sessionTexts (hostName : CStr) (texts : List CStr) : List CStr :=
  sendHelo hostName :: (texts.flatMap letterTexts ++ [sendQuit])

/-! ### One call of `strtok` after the other -/

theorem sendMailFrom_of_tokens {place : Option CStr} {text token : CStr} {rest : List CStr}
    (h : tokens '\n' text = token :: rest) : ∃ place', tokens '\n' place' = rest ∧
      sendMailFrom place (some text) =
        .ok ("MAIL FROM: <".toList ++ token ++ ">\n".toList, place') := by
  obtain ⟨place', hnext, hrest⟩ := nextToken_of_tokens h
  refine ⟨place', hrest, ?_⟩
  simp [sendMailFrom, strtok, hnext, bind, Except.bind]

theorem sendRcptTo_of_tokens {msg : Option CStr} {place token : CStr} {rest : List CStr}
    (h : tokens '\n' place = token :: rest) : ∃ place', tokens '\n' place' = rest ∧
      sendRcptTo (some place) msg =
        .ok ("RCPT TO:<".toList ++ token ++ ">\n".toList, place') := by
  obtain ⟨place', hnext, hrest⟩ := nextToken_of_tokens h
  refine ⟨place', hrest, ?_⟩
  simp [sendRcptTo, strtok, hnext, bind, Except.bind]

/-! ### Writes that take everything -/

/-- Every `write` takes the whole text it is given. -/
def WriteKernel.TakesAll (k : WriteKernel) (data : List CStr) : Prop :=
  ∀ n text, data[n]? = some text → ∃ m, k.writes n = some m ∧ text.length ≤ m

instance (k : WriteKernel) (data : List CStr) : Decidable (k.TakesAll data) :=
  decidable_of_iff (∀ n : Fin data.length, ((k.writes n).any (data[n].length ≤ ·)) = true) <| by
    simp only [Option.any_eq_true, decide_eq_true_eq]
    constructor
    · intro h n text hn
      obtain ⟨hlt, rfl⟩ := List.getElem?_eq_some_iff.mp hn
      exact h ⟨n, hlt⟩
    · exact fun h n => h n _ (List.getElem?_eq_getElem n.isLt)

theorem sendAll_of_takesAll (o : ℕ) {writes : ℕ → Option ℕ} {data : List CStr} {n : ℕ}
    (h : ∀ i text, data[i]? = some text → ∃ m, writes (n + i) = some m ∧ text.length ≤ m) :
    sendAll (some o) writes n data = (.sent, data.map fun text => .sent o text) := by
  induction data generalizing n with
  | nil => rfl
  | cons text rest ih =>
      obtain ⟨m, hm, hlen⟩ := h 0 text rfl
      have hrest := ih (n := n + 1) fun i text' hi => by
        have hi' := h (i + 1) text' hi
        rwa [show n + (i + 1) = n + 1 + i by omega] at hi'
      rw [Nat.add_zero] at hm
      simp only [sendAll, sendData, hm, hrest, List.take_of_length_le hlen]
      split_ifs <;> rfl

theorem sentTo_map_sent (o : ℕ) (data : List CStr) :
    sentTo o (data.map fun text => .sent o text) = data := by
  induction data with
  | nil => rfl
  | cons text rest ih =>
      have hcons : sentTo o (Event.sent o text :: rest.map fun text => .sent o text) =
          text :: sentTo o (rest.map fun text => .sent o text) := by
        simp [sentTo]
      rw [List.map_cons, hcons, ih]

/-! ### One exchange -/

/-- Away from the body a positive reply only moves the state. -/
theorem Dscrptr.advance_of_step {d : Dscrptr} {st : ClientState} (hst : d.state ≠ .sendBody)
    (h : clientFsmStep d.state .ok = .ok st) : d.advance .ok = .ok { d with state := st } := by
  simp [advance, hst, h, bind, Except.bind]

namespace Child

/-- The session of slot `j` can go on: its socket was opened for `o`, and it
waits for no retry. -/
structure Usable (j o : ℕ) (c : Child) : Prop where
  socket : c.sockets (c.dscrptrs j).socketFd = some o
  attempt : (c.dscrptrs j).lastAttemptTime = 0

/-- The call belongs to the session of slot `j`; its reply is a positive one, or
its writes take everything. -/
def Smooth (j : ℕ) (c : Child) : Op → Prop
  | .read i results => i = j ∧ ∃ reply, c.receive results (c.dscrptrs j) = some reply ∧
      checkServerCode reply = .ok
  | .write i k => i = j ∧ ∀ r, (c.dscrptrs j).sendMsgToServer k.now c.conf.hostName c.files
      (c.placeAt k) = .ok r → k.TakesAll r.data
  | .register _ _ => False
  | .select _ _ _ => False

instance (j : ℕ) (c : Child) : DecidablePred (Smooth j c)
  | .read i results =>
      decidable_of_iff (i = j ∧ (c.receive results (c.dscrptrs j)).any
        (fun reply => checkServerCode reply == .ok) = true) (by simp [Smooth, Option.any_eq_true])
  | .write i k =>
      match h : (c.dscrptrs j).sendMsgToServer k.now c.conf.hostName c.files (c.placeAt k) with
      | .ok r => decidable_of_iff (i = j ∧ k.TakesAll r.data) (by simp [Smooth, h])
      | .error e => decidable_of_iff (i = j) (by simp [Smooth, h])
  | .register _ _ => inferInstanceAs (Decidable False)
  | .select _ _ _ => inferInstanceAs (Decidable False)

def exchanges (j : ℕ) (xs : List (List RecvResult × WriteKernel)) : List Op :=
  xs.flatMap fun x => [.read j x.1, .write j x.2]

/-- What an exchange leaves when the reply has led to `d` and the command was
prepared as `r`. -/
structure Exchanged (j o : ℕ) (r : Sending) (c c' : Child) : Prop extends Usable j o c' where
  dscrptr : c'.dscrptrs j = r.dscrptr
  conf : c'.conf = c.conf
  place : c'.place = r.place.or c.place
  placeOwner : c'.placeOwner =
    if r.taken.isSome ∧ r.dscrptr.buffer.isSome then some j else c.placeOwner
  files : c'.files = c.files ∨ ∃ path, r.taken = some path ∧ c'.files = moveFile path c.files
  sent : sentTo o c'.log = sentTo o c.log ++ r.data

variable {j o : ℕ} {c : Child} {d : Dscrptr} {r : Sending}

theorem read_smooth {results : List RecvResult} (hc : c.Usable j o)
    (hadvance : (c.dscrptrs j).advance .ok = .ok d) (hst : d.state ≠ .init)
    (hsmooth : Smooth j c (.read j results)) : ∃ c', c.step (.read j results) = .ok c' ∧
      c'.dscrptrs j = d ∧ c'.sockets d.socketFd = some o ∧ d.lastAttemptTime = 0 ∧
        c'.conf = c.conf ∧ c'.place = c.place ∧ c'.placeOwner = c.placeOwner ∧
          c'.files = c.files ∧ sentTo o c'.log = sentTo o c.log := by
  obtain ⟨-, reply, hreply, hcode⟩ := hsmooth
  have hsocket : d.socketFd = (c.dscrptrs j).socketFd := (Dscrptr.advance_kept hadvance).2.1
  have hattempt : d.lastAttemptTime = 0 := (Dscrptr.advance_attempt hadvance).trans hc.attempt
  refine ⟨_, handleReadSocket_ok.mpr ⟨reply, d, hreply, by rw [hcode]; exact hadvance, rfl⟩, ?_⟩
  refine ⟨by simp [afterReply, record, setDscrptr], ?_, hattempt, rfl, rfl, rfl, rfl, ?_⟩
  · simp only [afterReply, record, setDscrptr, if_neg hst]
    rw [hsocket]
    exact hc.socket
  · simp [afterReply, record, setDscrptr]

theorem Usable.sendMsgToServer {place : Option CStr} (hc : c.Usable j o)
    (hsend : (c.dscrptrs j).sendCommand c.conf.hostName c.files place = .ok r) (now : ℤ) :
    (c.dscrptrs j).sendMsgToServer now c.conf.hostName c.files place = .ok r := by
  simpa [Dscrptr.sendMsgToServer, Dscrptr.retry, hc.attempt] using hsend

theorem write_smooth {k : WriteKernel} (hc : c.Usable j o)
    (hsend : (c.dscrptrs j).sendCommand c.conf.hostName c.files (c.placeAt k) = .ok r)
    (hsmooth : Smooth j c (.write j k)) :
    ∃ c', c.step (.write j k) = .ok c' ∧ Exchanged j o r c c' := by
  have hmsg := hc.sendMsgToServer hsend k.now
  obtain ⟨hprep, hearly⟩ := Dscrptr.sendCommand_ok hsend
  obtain ⟨buffer, textFreed, hdscrptr⟩ := Dscrptr.sendCommand_dscrptr hsend
  obtain ⟨c', hok⟩ := handleWriteSocket_of_ok hmsg
  obtain ⟨_, hmsg', hw⟩ := handleWriteSocket_ok hok
  cases hmsg.symm.trans hmsg'
  have hsocket : c.sockets r.dscrptr.socketFd = some o := by
    rw [hprep.socketFd]
    exact hc.socket
  have htransmit : c.transmit k r = (.sent, r.data.map fun text => .sent o text) := by
    simp only [transmit, hearly, hsocket]
    exact sendAll_of_takesAll o (by simpa [WriteKernel.TakesAll] using hsmooth.2 r hmsg)
  have hslot : c'.dscrptrs j = r.dscrptr := by rw [hw.dscrptrs, Function.update_self]
  refine ⟨c', hok, ⟨?_, ?_⟩, hslot, hw.conf, hw.place, hw.placeOwner, ?_, ?_⟩
  · rw [hslot, hw.sockets, htransmit, if_neg (by simp)]
    exact hsocket
  · rw [hslot, hdscrptr]
    exact hc.attempt
  · rw [hw.files]
    simp only [applySending]
    cases hrenamed : c.renamed k r with
    | none => exact .inl rfl
    | some path => exact .inr ⟨path, (Option.filter_eq_some_iff.mp hrenamed).1, rfl⟩
  · rw [hw.log, htransmit, sentTo_append, sentTo_applySending, sentTo_map_sent]

/-- A reply is read, and the next command is written. The reply moves neither
the place of `strtok` nor the letter that it is in. -/
theorem exchange_smooth {x : List RecvResult × WriteKernel} {ops : List Op} (hc : c.Usable j o)
    (hadvance : (c.dscrptrs j).advance .ok = .ok d) (hst : d.state ≠ .init)
    (hsend : ∀ c₁ : Child, c₁.dscrptrs j = d → c₁.place = c.place → c₁.placeOwner = c.placeOwner →
      d.sendCommand c.conf.hostName c.files (c₁.placeAt x.2) = .ok r)
    (hsmooth : Along step (Smooth j) c (exchanges j [x] ++ ops)) :
    ∃ c', run step c (exchanges j [x]) = .ok c' ∧ Along step (Smooth j) c' ops ∧
      Exchanged j o r c c' := by
  obtain ⟨hread, hrest⟩ := hsmooth
  obtain ⟨c₁, hok₁, hslot, hsocket, hattempt, hconf, hplace, howner, hfiles, hsent⟩ :=
    read_smooth hc hadvance hst hread
  obtain ⟨hwrite, hrest⟩ := hrest c₁ hok₁
  obtain ⟨c₂, hok₂, hx⟩ := write_smooth (r := r) ⟨hslot ▸ hsocket, hslot ▸ hattempt⟩
    (by rw [hslot, hconf, hfiles]; exact hsend c₁ hslot hplace howner) hwrite
  exact ⟨c₂, (run_cons_ok hok₁).trans (run_cons_ok hok₂), hrest c₂ hok₂, hx.toUsable, hx.dscrptr,
    hx.conf.trans hconf, hplace ▸ hx.place, howner ▸ hx.placeOwner, hfiles ▸ hx.files,
    hsent ▸ hx.sent⟩

theorem Exchanged.files_of_none {c' : Child} (h : Exchanged j o r c c') (htaken : r.taken = none) :
    c'.files = c.files := by
  rcases h.files with hfiles | ⟨path, heq, -⟩
  · exact hfiles
  · rw [htaken] at heq
    cases heq

/-! ### One letter -/

theorem count_letters (letters : List CStr) :
    count (letters.map some ++ [none]) = letters.length := by
  simp [count]

/-- The reply to a body takes the letter off the queue. -/
theorem advance_of_body {path : CStr} {letters : List CStr} (hst : d.state = .sendBody)
    (hmails : d.mailsList = some path :: (letters.map some ++ [none])) :
    d.advance .ok = .ok { d with
      mailsList := letters.map some ++ [none]
      state := if letters = [] then .sendQuit else .sendMailFrom
      textFreed := d.buffer.isSome || d.textFreed } := by
  have hcount : (count (letters.map some ++ [none]) > 0) ↔ letters ≠ [] := by
    rw [count_letters, ← List.length_pos_iff]
    omega
  by_cases hletters : letters = []
  · simp [Dscrptr.advance, hst, hmails, removeFirst, hletters, count, clientFsmStep,
      clientFsmTransTable, bind, Except.bind]
  · simp [Dscrptr.advance, hst, hmails, removeFirst, hcount.mpr hletters, hletters, clientFsmStep,
      clientFsmTransTable, bind, Except.bind]

structure TurnsTo (j o : ℕ) (letters : List CStr) (c : Child) : Prop extends Usable j o c where
  turns : ∃ d, (c.dscrptrs j).advance .ok = .ok d ∧ d.mailsList = letters.map some ++ [none] ∧
    d.state = if letters = [] then .sendQuit else .sendMailFrom

/-- Four exchanges send a letter, and leave the session at the reply to its
body. -/
theorem letter_smooth {path : CStr} {letters : List CStr}
    {xs : List (List RecvResult × WriteKernel)} {ops : List Op}
    (hc : c.TurnsTo j o (path :: letters)) (hread : Readable c.files path)
    (hothers : ∀ p ∈ letters, p ≠ path ∧ p ≠ renameTarget path) (hlen : xs.length = 4)
    (hsmooth : Along step (Smooth j) c (exchanges j xs ++ ops)) :
    ∃ c', run step c (exchanges j xs) = .ok c' ∧ Along step (Smooth j) c' ops ∧
      c'.TurnsTo j o letters ∧ c'.conf = c.conf ∧ (∀ p ∈ letters, c'.files p = c.files p) ∧
        sentTo o c'.log = sentTo o c.log ++ letterTexts (textOf c.files path) := by
  obtain ⟨x₁, x₂, x₃, x₄, rfl⟩ : ∃ x₁ x₂ x₃ x₄, xs = [x₁, x₂, x₃, x₄] := by
    match xs, hlen with
    | [x₁, x₂, x₃, x₄], _ => exact ⟨x₁, x₂, x₃, x₄, rfl⟩
  obtain ⟨d, hadvance, hmails, hst⟩ := hc.turns
  rw [if_neg (by simp)] at hst
  obtain ⟨sender, rcpt, lines, htokens⟩ := hread.tokens_eq
  -- the sender
  obtain ⟨place₁, hplace₁, hsender⟩ : ∃ place', tokens '\n' place' = rcpt :: lines ∧
      ∀ place, sendMailFrom place (some (textOf c.files path)) =
        .ok ("MAIL FROM: <".toList ++ sender ++ ">\n".toList, place') := by
    obtain ⟨place', hrest, hsender⟩ := @sendMailFrom_of_tokens none _ _ _ htokens
    exact ⟨place', hrest, fun place => hsender⟩
  have hsend₁ : ∀ place, d.sendCommand c.conf.hostName c.files place =
      .ok ⟨{ d with buffer := some (textOf c.files path), textFreed := false }, some place₁,
        some path, ["MAIL FROM: <".toList ++ sender ++ ">\n".toList], none⟩ := by
    intro place
    simp [Dscrptr.sendCommand, hst, hmails, hread.readMsgFile, hsender, bind, Except.bind]
  obtain ⟨c₁, hrun₁, hsmooth, hx₁⟩ := exchange_smooth hc.toUsable hadvance (by simp [hst])
    (fun _ _ _ _ => hsend₁ _)
    (show Along step (Smooth j) c (exchanges j [x₁] ++ (exchanges j [x₂, x₃, x₄] ++ ops)) from
      hsmooth)
  have howner₁ : c₁.placeOwner = some j := by simp [hx₁.placeOwner]
  -- the recipient
  have hadvance₁ : (c₁.dscrptrs j).advance .ok = .ok { c₁.dscrptrs j with state := .sendRcptTo } :=
    Dscrptr.advance_of_step (by simp [hx₁.dscrptr, hst]) (by simp [hx₁.dscrptr, hst]; rfl)
  obtain ⟨place₂, hplace₂, hrcpt⟩ : ∃ place', tokens '\n' place' = lines ∧
      sendRcptTo (some place₁) (c₁.dscrptrs j).buffer =
        .ok ("RCPT TO:<".toList ++ rcpt ++ ">\n".toList, place') :=
    sendRcptTo_of_tokens hplace₁
  obtain ⟨c₂, hrun₂, hsmooth, hx₂⟩ := exchange_smooth hx₁.toUsable hadvance₁ (by simp)
    (r := ⟨{ c₁.dscrptrs j with state := .sendRcptTo }, some place₂, none,
      ["RCPT TO:<".toList ++ rcpt ++ ">\n".toList], none⟩)
    (fun c' hslot hplace howner => by
      rw [placeAt_of_owner x₂.2 (howner.trans howner₁) (by simp [hslot, hx₁.dscrptr]), hplace]
      simp [Dscrptr.sendCommand, hx₁.place, hrcpt, bind, Except.bind])
    (show Along step (Smooth j) c₁ (exchanges j [x₂] ++ (exchanges j [x₃, x₄] ++ ops)) from hsmooth)
  have howner₂ : c₂.placeOwner = some j := by simp [hx₂.placeOwner, howner₁]
  -- DATA
  have hadvance₂ : (c₂.dscrptrs j).advance .ok = .ok { c₂.dscrptrs j with state := .sendData } :=
    Dscrptr.advance_of_step (by simp [hx₂.dscrptr]) (by simp [hx₂.dscrptr]; rfl)
  obtain ⟨c₃, hrun₃, hsmooth, hx₃⟩ := exchange_smooth hx₂.toUsable hadvance₂ (by simp)
    (r := ⟨{ c₂.dscrptrs j with state := .sendData }, none, none, [sendDataMsg], none⟩)
    (fun _ _ _ _ => by simp [Dscrptr.sendCommand])
    (show Along step (Smooth j) c₂ (exchanges j [x₃] ++ (exchanges j [x₄] ++ ops)) from hsmooth)
  have howner₃ : c₃.placeOwner = some j := by simp [hx₃.placeOwner, howner₂]
  -- the body
  have hadvance₃ : (c₃.dscrptrs j).advance .ok = .ok { c₃.dscrptrs j with state := .sendBody } :=
    Dscrptr.advance_of_step (by simp [hx₃.dscrptr]) (by simp [hx₃.dscrptr]; rfl)
  obtain ⟨c₄, hrun₄, hsmooth, hx₄⟩ := exchange_smooth hx₃.toUsable hadvance₃ (by simp)
    (r := ⟨{ c₃.dscrptrs j with state := .sendBody }, some [], none,
      lines.map (· ++ "\n".toList) ++ [endOfBody], none⟩)
    (fun c' hslot hplace howner => by
      rw [placeAt_of_owner x₄.2 (howner.trans howner₃)
        (by simp [hslot, hx₃.dscrptr, hx₂.dscrptr, hx₁.dscrptr]), hplace]
      simp [Dscrptr.sendCommand, hx₃.place, hx₂.place, sendMsgBody, hplace₂, bind, Except.bind])
    hsmooth
  have hfiles : ∀ p ∈ letters, c₄.files p = c.files p := by
    intro p hp
    obtain ⟨hne, hne'⟩ := hothers p hp
    have h₁ : c₁.files p = c.files p := by
      rcases hx₁.files with h | ⟨_, heq, h⟩
      · rw [h]
      · cases heq
        rw [h, moveFile, Function.update_of_ne hne', Function.update_of_ne hne]
    rw [hx₄.files_of_none rfl, hx₃.files_of_none rfl, hx₂.files_of_none rfl, h₁]
  have hmails₄ : (c₄.dscrptrs j).mailsList = some path :: (letters.map some ++ [none]) := by
    simp [hx₄.dscrptr, hx₃.dscrptr, hx₂.dscrptr, hx₁.dscrptr, hmails]
  refine ⟨c₄, ?_, hsmooth, ⟨hx₄.toUsable, ?_⟩, ?_, hfiles, ?_⟩
  · exact (run_append_ok hrun₁).trans ((run_append_ok hrun₂).trans ((run_append_ok hrun₃).trans
      hrun₄))
  · refine ⟨_, advance_of_body (by simp [hx₄.dscrptr]) hmails₄, rfl, rfl⟩
  · rw [hx₄.conf, hx₃.conf, hx₂.conf, hx₁.conf]
  · rw [hx₄.sent, hx₃.sent, hx₂.sent, hx₁.sent, letterTexts, htokens]
    simp

/-! ### The queue -/

/-- A session that has come to its end: all letters are gone, and the socket is
given up. -/
structure Delivered (j o : ℕ) (texts : List CStr) (c c' : Child) : Prop where
  sent : sentTo o c'.log = sentTo o c.log ++ texts
  state : (c'.dscrptrs j).state = .init
  count : count (c'.dscrptrs j).mailsList = 0

/-- No letter is in the queue twice, and none is in the way of another one. -/
structure Apart (letters : List CStr) : Prop where
  nodup : letters.Nodup
  targets : ∀ p ∈ letters, ∀ q ∈ letters, p ≠ q → renameTarget p ≠ q

theorem Apart.tail {path : CStr} {letters : List CStr} (h : Apart (path :: letters)) :
    Apart letters :=
  ⟨h.nodup.of_cons, fun p hp q hq => h.targets p (by simp [hp]) q (by simp [hq])⟩

/-- The letters behind the first one are not in its way. -/
theorem Apart.others {path : CStr} {letters : List CStr} (h : Apart (path :: letters)) :
    ∀ p ∈ letters, p ≠ path ∧ p ≠ renameTarget path := by
  intro p hp
  have hne : p ≠ path := fun heq => (List.nodup_cons.mp h.nodup).1 (heq ▸ hp)
  exact ⟨hne, (h.targets path (by simp) p (by simp [hp]) hne.symm).symm⟩

theorem textOf_congr {files files' : CStr → Option (List Char)} {letters : List CStr}
    (h : ∀ p ∈ letters, files' p = files p) :
    letters.map (textOf files') = letters.map (textOf files) :=
  List.map_congr_left fun p hp => by simp [textOf, h p hp]

theorem read_last {results : List RecvResult} (hst : (c.dscrptrs j).state = .sendQuit)
    (hmails : (c.dscrptrs j).mailsList = [none]) (hsmooth : Smooth j c (.read j results)) :
    ∃ c', c.step (.read j results) = .ok c' ∧ Delivered j o [] c c' := by
  obtain ⟨-, reply, hreply, hcode⟩ := hsmooth
  have hadvance : (c.dscrptrs j).advance .ok = .ok { c.dscrptrs j with state := .init } :=
    Dscrptr.advance_of_step (by simp [hst]) (by rw [hst]; rfl)
  refine ⟨_, handleReadSocket_ok.mpr ⟨reply, _, hreply, by rw [hcode]; exact hadvance, rfl⟩, ?_⟩
  constructor
  · simp [afterReply, record, setDscrptr]
  · simp [afterReply, record, setDscrptr]
  · simp [afterReply, record, setDscrptr, hmails, Client.count]

theorem quit_smooth {x : List RecvResult × WriteKernel} {last : List RecvResult}
    (hc : c.TurnsTo j o [])
    (hsmooth : Along step (Smooth j) c (exchanges j [x] ++ [.read j last])) :
    ∃ c', run step c (exchanges j [x] ++ [.read j last]) = .ok c' ∧
      Delivered j o [sendQuit] c c' := by
  obtain ⟨d, hadvance, hmails, hst⟩ := hc.turns
  rw [if_pos rfl] at hst
  obtain ⟨c₁, hrun₁, ⟨hlast, -⟩, hx₁⟩ := exchange_smooth hc.toUsable hadvance
    (by simp [hst]) (r := ⟨d, none, none, [sendQuit], none⟩)
    (fun _ _ _ _ => by simp [Dscrptr.sendCommand, hst]) hsmooth
  obtain ⟨c', hread, hdelivered⟩ := read_last (o := o) (by simp [hx₁.dscrptr, hst])
    (by simp [hx₁.dscrptr, hmails]) hlast
  refine ⟨c', (run_append_ok hrun₁).trans (run_cons_ok hread), ?_, hdelivered.state,
    hdelivered.count⟩
  rw [hdelivered.sent, hx₁.sent, List.append_nil]

theorem queue_smooth {letters : List CStr} {xs : List (List RecvResult × WriteKernel)}
    {last : List RecvResult} (hc : c.TurnsTo j o letters)
    (hread : ∀ p ∈ letters, Readable c.files p) (hapart : Apart letters)
    (hlen : xs.length = 4 * letters.length + 1)
    (hsmooth : Along step (Smooth j) c (exchanges j xs ++ [.read j last])) :
    ∃ c', run step c (exchanges j xs ++ [.read j last]) = .ok c' ∧ Delivered j o
      ((letters.map (textOf c.files)).flatMap letterTexts ++ [sendQuit]) c c' := by
  induction letters generalizing c xs with
  | nil =>
      match xs, hlen with
      | [x], _ => exact quit_smooth hc hsmooth
  | cons path letters ih =>
      have hsplit : exchanges j xs ++ [.read j last] =
          exchanges j (xs.take 4) ++ (exchanges j (xs.drop 4) ++ [.read j last]) := by
        rw [← List.append_assoc, exchanges, exchanges, exchanges, ← List.flatMap_append,
          List.take_append_drop]
      rw [List.length_cons] at hlen
      rw [hsplit] at hsmooth ⊢
      obtain ⟨c₁, hrun₁, hsmooth, hc₁, -, hfiles, hsent⟩ := letter_smooth hc
        (hread path (by simp)) hapart.others (by rw [List.length_take]; omega) hsmooth
      have hread₁ : ∀ p ∈ letters, Readable c₁.files p := fun p hp =>
        (hread p (by simp [hp])).congr (hfiles p hp)
      obtain ⟨c', hrun', hdelivered⟩ := ih hc₁ hread₁ hapart.tail
        (by rw [List.length_drop]; omega) hsmooth
      refine ⟨c', (run_append_ok hrun₁).trans hrun', ?_, hdelivered.state, hdelivered.count⟩
      rw [hdelivered.sent, hsent, textOf_congr hfiles]
      simp

/-- An undisturbed session that starts when its connection is made sends every
letter of its queue once, from head to tail, each with its own lines, and ends
where it began, with nothing left to send. -/
theorem queue_delivered {letters : List CStr} {xs : List (List RecvResult × WriteKernel)}
    {last : List RecvResult} (hstate : (c.dscrptrs j).state = .connect)
    (hattempt : (c.dscrptrs j).lastAttemptTime = 0)
    (hqueue : (c.dscrptrs j).mailsList = letters.map some ++ [none]) (hne : letters ≠ [])
    (hread : ∀ p ∈ letters, Readable c.files p) (hapart : Apart letters)
    (hlen : xs.length = 4 * letters.length + 2)
    (hsmooth : Along step (Smooth j) c (exchanges j xs ++ [.read j last])) :
    ∃ c' o, run step c (exchanges j xs ++ [.read j last]) = .ok c' ∧
      c.sockets (c.dscrptrs j).socketFd = some o ∧
        Delivered j o (sessionTexts c.conf.hostName (letters.map (textOf c.files))) c c' := by
  match xs, hlen with
  | x :: xs, hlen =>
      -- the greeting can only be read if the socket is open
      obtain ⟨o, hsocket⟩ : ∃ o, c.sockets (c.dscrptrs j).socketFd = some o := by
        obtain ⟨-, reply, hreply, -⟩ := hsmooth.1
        unfold receive at hreply
        split_ifs at hreply with hopen
        exact Option.isSome_iff_exists.mp hopen
      have hadvance : (c.dscrptrs j).advance .ok = .ok { c.dscrptrs j with state := .sendHelo } :=
        Dscrptr.advance_of_step (by simp [hstate]) (by simp [hstate]; rfl)
      obtain ⟨c₁, hrun₁, hsmooth, hx₁⟩ := exchange_smooth ⟨hsocket, hattempt⟩ hadvance (by simp)
        (r := ⟨{ c.dscrptrs j with state := .sendHelo }, none, none,
          [sendHelo c.conf.hostName], none⟩) (fun _ _ _ _ => by simp [Dscrptr.sendCommand])
        (show Along step (Smooth j) c (exchanges j [x] ++ (exchanges j xs ++ [.read j last])) from
          hsmooth)
      have hadvance₁ : (c₁.dscrptrs j).advance .ok =
          .ok { c₁.dscrptrs j with state := .sendMailFrom } :=
        Dscrptr.advance_of_step (by simp [hx₁.dscrptr]) (by simp [hx₁.dscrptr]; rfl)
      have hc₁ : c₁.TurnsTo j o letters :=
        ⟨hx₁.toUsable, _, hadvance₁, by simp [hx₁.dscrptr, hqueue], by rw [if_neg hne]⟩
      have hfiles : c₁.files = c.files := hx₁.files_of_none rfl
      obtain ⟨c', hrun', hdelivered⟩ := queue_smooth hc₁ (hfiles ▸ hread) hapart
        (by simpa using hlen) hsmooth
      refine ⟨c', o, (run_append_ok hrun₁).trans hrun', hsocket, ?_, hdelivered.state,
        hdelivered.count⟩
      rw [hdelivered.sent, hx₁.sent, hfiles, sessionTexts]
      simp

def sampleReplies : List (List RecvResult × WriteKernel) :=
  ["220", "250", "250", "250", "354", "250"].map fun code => (sampleReply code, sampleWrites)

theorem queue_delivered_sample : ∃ c c' o text,
    run step sampleChild [.register (sampleLetter "a.b") (some 5)] = .ok c ∧
      run step c (exchanges 0 sampleReplies ++ [.read 0 (sampleReply "221")]) = .ok c' ∧
        Delivered 0 o (sessionTexts c.conf.hostName [text]) c c' := by
  have hall : (run step sampleChild [.register (sampleLetter "a.b") (some 5)]).map (fun c =>
      decide (((c.dscrptrs 0).state = .connect ∧ (c.dscrptrs 0).lastAttemptTime = 0) ∧
        (c.dscrptrs 0).mailsList = [sampleLetter "a.b"].map some ++ [none] ∧
          c.files (sampleLetter "a.b") = some "s@a\nr@a\nhi\n".toList ∧
            Along step (Smooth 0) c (exchanges 0 sampleReplies ++ [.read 0 (sampleReply "221")]))) =
              .ok true := by
    decide +kernel
  cases hrun : run step sampleChild [.register (sampleLetter "a.b") (some 5)] with
  | error stop =>
      rw [hrun] at hall
      cases hall
  | ok c =>
      rw [hrun] at hall
      obtain ⟨⟨hstate, hattempt⟩, hqueue, hfile, hsmooth⟩ :=
        of_decide_eq_true (Except.ok.inj hall)
      have hread : ∀ p ∈ [sampleLetter "a.b"], Readable c.files p := by
        simp only [List.mem_singleton, forall_eq]
        refine ⟨⟨_, hfile, by decide⟩, ?_⟩
        rw [textOf, hfile]
        decide
      have hapart : Apart [sampleLetter "a.b"] := ⟨by simp, by simp⟩
      obtain ⟨c', o, hok, -, hdelivered⟩ :=
        queue_delivered hstate hattempt hqueue (by simp) hread hapart rfl hsmooth
      exact ⟨c, c', o, _, rfl, hok, hdelivered⟩

/-- Of the first line of the body one byte is taken. -/
def shortReplies : List (List RecvResult × WriteKernel) :=
  sampleReplies.set 4 (sampleReply "354", { sampleWrites with
    writes := fun n => if n = 0 then some 1 else some 1024 })

/-- No write fails and every reply is positive, and the letter is gone from the
queue. But it was not sent: a write that takes a part of a line passes for one
that takes all of it. -/
theorem short_write_not_delivered : ∃ c c',
    run step sampleChild [.register (sampleLetter "a.b") (some 5)] = .ok c ∧
      (c.dscrptrs 0).state = .connect ∧ (c.dscrptrs 0).lastAttemptTime = 0 ∧
      (c.dscrptrs 0).mailsList = [sampleLetter "a.b"].map some ++ [none] ∧
      (∀ p ∈ [sampleLetter "a.b"], Readable c.files p) ∧ Apart [sampleLetter "a.b"] ∧
      (∀ x ∈ shortReplies, (∃ reply, readDataFromServer x.1 = some reply ∧
        checkServerCode reply = .ok) ∧ ∀ n, x.2.writes n ≠ none) ∧
      run step c (exchanges 0 shortReplies ++ [.read 0 (sampleReply "221")]) = .ok c' ∧
      (c'.dscrptrs 0).state = .init ∧ count (c'.dscrptrs 0).mailsList = 0 ∧
      c.sockets (c.dscrptrs 0).socketFd = some 0 ∧
      ¬Delivered 0 0 (sessionTexts c.conf.hostName
        ([sampleLetter "a.b"].map (textOf c.files))) c c' := by
  have hread : ∀ p ∈ [sampleLetter "a.b"], Readable sampleFiles p := by
    simp only [List.mem_singleton, forall_eq]
    exact ⟨⟨_, rfl, by decide⟩, by decide⟩
  have htaken : ∀ n : ℕ, (if n = 0 then some 1 else some 1024 : Option ℕ) ≠ none := fun n => by
    split_ifs <;> simp
  have hcalm : ∀ x ∈ shortReplies, (∃ reply, readDataFromServer x.1 = some reply ∧
      checkServerCode reply = .ok) ∧ ∀ n, x.2.writes n ≠ none := by
    simp only [shortReplies, sampleReplies, List.map_cons, List.map_nil, List.set,
      List.forall_mem_cons, List.not_mem_nil, false_imp_iff, implies_true, and_true]
    refine ⟨?_, ?_, ?_, ?_, ⟨⟨_, rfl, by decide⟩, htaken⟩, ?_⟩ <;>
      exact ⟨⟨_, rfl, by decide⟩, fun _ => Option.some_ne_none _⟩
  refine ⟨_, _, rfl, by decide, by decide, by decide, hread, ⟨by simp, by simp⟩, hcalm, rfl,
    by decide, by decide, by decide, fun h => ?_⟩
  have hsent := h.sent
  revert hsent
  decide

end Child

end SmtpProj.Client
