import SmtpProj.Client.Delivery
import SmtpProj.Server.Lines
import SmtpProj.Server.Recipient

/-!
A client session and this server over one connection.

The two halves of the program share neither a format nor a table, so that they
agree is a fact about texts: about what the client writes, what the patterns of
the server make of it, what the server replies, and what the client makes of
that. Here both run over one connection. A write of the client arrives as one
chunk, and a reply is read whole.

A turn of the client is a write, the rounds of the server in which its texts
arrive, a round that sends the reply, and the reading of it. One lemma says what
a turn does when the server serves every text of it, and a session is the turns
one after the other: HELO, four for each letter, and QUIT.
-/

namespace SmtpProj.Joint

open Lib

/-! ### Both ends of a connection -/

inductive Stop
  | client (h : Client.Halt)
  | server (h : Server.Halt)
  deriving DecidableEq, Repr

structure Wire where
  child : Client.Child
  link : Server.Link
  /-- The server has not closed the connection. -/
  isOpen : Bool
  /-- What the server has sent and the client has not read. -/
  unread : CStr

inductive Move
  /-- The server's loop turns, and nothing arrives. -/
  | pass (e : Server.Env)
  /-- The client writes, and each of the texts arrives in a round of its own. -/
  | write (k : Client.WriteKernel) (es : ℕ → Server.Env)
  /-- The client reads what was sent to it. -/
  | read

def arrivals (es : ℕ → Server.Env) (texts : List CStr) : List Server.Round :=
  texts.mapIdx fun i text => .chunk (es i) text

structure Sight where
  reply : CStr
  client : Client.ClientState
  server : Server.ServerState
  deriving DecidableEq

namespace Wire

def round (x : Wire) (r : Server.Round) : Except Stop Wire :=
  let l := x.link.connUpdate r
  let unread := x.unread ++ l.session.wire.drop x.link.session.wire.length
  if x.isOpen then
    match x.link.round r with
    | .ok l' => .ok { x with link := l', unread := unread }
    | .error .closed => .ok { x with link := l, isOpen := false, unread := unread }
    | .error (.halted h) => .error (.server h)
  else .ok x

/-- `handle_write_socket` for slot `j`, and the rounds that it leads to. -/
def write (j : ℕ) (k : Client.WriteKernel) (es : ℕ → Server.Env) (x : Wire) :
    Except Stop Wire :=
  match x.child.handleWriteSocket k j with
  | .ok c =>
      let texts := (Client.sentTo j c.log).drop (Client.sentTo j x.child.log).length
      run round { x with child := c } (arrivals es texts)
  | .error h => .error (.client h)

def read (j : ℕ) (x : Wire) : Except Stop Wire :=
  match x.child.handleReadSocket [.bytes x.unread] j with
  | .ok c => .ok { x with child := c, unread := [] }
  | .error h => .error (.client h)

def step (j : ℕ) (x : Wire) : Move → Except Stop Wire
  | .pass e => x.round (.pass e)
  | .write k es => x.write j k es
  | .read => x.read j

def sees (j : ℕ) (x : Wire) : Move → Wire → List Sight
  | .read, x' => [⟨x.unread, (x'.child.dscrptrs j).state, x'.link.session.state⟩]
  | .pass _, _ => []
  | .write _ _, _ => []

end Wire

/-! ### Sessions -/

structure Turn where
  kernel : Client.WriteKernel
  arrivals : ℕ → Server.Env
  answer : Server.Env

def Turn.moves (t : Turn) : List Move := [.write t.kernel t.arrivals, .pass t.answer, .read]

def session (e₀ e₁ : Server.Env) (ts : List Turn) : List Move :=
  [.pass e₀, .pass e₁, .read] ++ ts.flatMap Turn.moves

/-- Nothing goes wrong: a write takes what fits into a buffer, files can be
created, and the reply goes out before the connection has timed out. -/
structure Turn.Calm (t : Turn) : Prop where
  writes : ∀ n, ∃ m, t.kernel.writes n = some m ∧ Server.bufSize ≤ m
  creatable : ∀ i name, (t.arrivals i).creatable name = true
  inTime : ∀ i, Server.stopwatchWatch t.answer.now (t.arrivals i).now ≤ Server.connTimeout

/-- A letter that both sides agree on: the recipient is an address that fits the
fields of the server's letter, and no line of the text is a command or shorter
than four bytes. -/
def Sendable (text : CStr) : Prop :=
  ∃ sender username domain lines,
    tokens '\n' text = sender :: (username ++ '@' :: domain) :: lines ∧ username ≠ [] ∧
      domain ≠ [] ∧ (username ++ '@' :: domain).length < Server.fieldSize ∧
        ∀ line ∈ lines, 4 ≤ line.length ∧ Server.NoKeyword line

def received (texts : List CStr) : CStr := (texts.map (· ++ Server.crlf)).flatten

/-- The file holds the letter: its name is made of the recipient, and its lines
are the sender, the recipient, and what was sent as the body. -/
def SavedAs (text : CStr) (file : CStr × CStr) : Prop :=
  ∃ sender rcpt lines username domain e, tokens '\n' text = sender :: rcpt :: lines ∧
    Server.patternEmail rcpt = some (username, domain) ∧
      file.1 = Server.maildirGetFname e username domain ∧
        file.2 = sender ++ ['\n'] ++ rcpt ++ ['\n'] ++
          received (lines.map (· ++ "\n".toList) ++ [Client.endOfBody]) ++ ['\n']

def letterSights (next : Client.ClientState) : List Sight :=
  [⟨Server.response250, .sendRcptTo, .expectRcpt⟩, ⟨Server.response250, .sendData, .expectData⟩,
    ⟨Server.response354, .sendBody, .expectDataRecv⟩, ⟨Server.responseSaved, next, .expectMail⟩]

def queueSights : ℕ → List Sight
  | 0 => [⟨Server.response221, .init, .disconnected⟩]
  | n + 1 => letterSights (if n = 0 then .sendQuit else .sendMailFrom) ++ queueSights n

def sessionSights (n : ℕ) : List Sight :=
  ⟨Server.response220, .sendHelo, .ready⟩ ::
    ⟨Server.responseHelo, .sendMailFrom, .expectMail⟩ :: queueSights n

/-! ### The server's rounds -/

namespace Wire

/-- The client is at `c`, nothing is on the way to it, and the server waits. -/
structure Hears (c : Client.Child) (st : Server.ServerState) (letter : Server.LetterPtr)
    (pending : CStr) (files : List (CStr × CStr)) (x : Wire) : Prop where
  child : x.child = c
  isOpen : x.isOpen = true
  unread : x.unread = []
  link : x.link.Stands st letter pending files

variable {x : Wire} {c : Client.Child} {j : ℕ} {st : Server.ServerState}
  {letter : Server.LetterPtr} {pending t : CStr} {files : List (CStr × CStr)} {e : Server.Env}
  {es : ℕ → Server.Env} {o : Server.Effect} {st' : Server.ServerState}
  {letter' : Server.LetterPtr} {files' : List (CStr × CStr)} {reply : CStr}

theorem round_of_ok {r : Server.Round} {l : Server.Link} (hopen : x.isOpen = true)
    (h : x.link.round r = .ok l) : x.round r = .ok { x with
      link := l
      unread := x.unread ++
        (x.link.connUpdate r).session.wire.drop x.link.session.wire.length } := by
  simp [round, hopen, h]

theorem round_of_closed {r : Server.Round} (hopen : x.isOpen = true)
    (h : x.link.round r = .error .closed) : x.round r = .ok { x with
      link := x.link.connUpdate r
      isOpen := false
      unread := x.unread ++
        (x.link.connUpdate r).session.wire.drop x.link.session.wire.length } := by
  simp [round, hopen, h]

/-- A text that is served is answered, and nothing is sent yet. -/
theorem Hears.chunk (hx : x.Hears c st letter [] files) (htext : t ≠ [])
    (hst : st ≠ .disconnected)
    (hserves : ∀ s : Server.Session, s.state = st → s.letter = letter → s.recvBuf = t →
      Server.Serves e s (Server.patternScan t).1 (Server.patternScan t).2 o) :
    ∃ x', x.round (.chunk e t) = .ok x' ∧
      x'.Hears c o.state o.letter (o.reply.getD []) (files ++ o.files) ∧
        x'.link.session.watch = e.now := by
  obtain ⟨l, hround, hl, hwatch⟩ := hx.link.round_chunk htext hst hserves
  refine ⟨_, round_of_ok hx.isOpen hround, ⟨hx.child, hx.isOpen, ?_, hl⟩, hwatch⟩
  rw [Server.Link.connUpdate_chunk hx.link.inRead]
  simp [hx.unread, hx.link.sendBuf]

@[simp] theorem arrivals_cons (es : ℕ → Server.Env) (t : CStr) (texts : List CStr) :
    arrivals es (t :: texts) = .chunk (es 0) t :: arrivals (fun i => es (i + 1)) texts := by
  simp [arrivals, List.mapIdx_cons]

theorem Hears.line {line : CStr} {l : Server.Letter}
    (hx : x.Hears c .expectDataRecv (.live l) [] files) (hline : '\n' ∉ line)
    (hlen : 4 ≤ line.length) (hkey : Server.NoKeyword line) :
    ∃ x', x.round (.chunk e (line ++ "\n".toList)) = .ok x' ∧
      x'.Hears c .expectDataRecv (.live (l.add (line ++ "\n".toList))) [] files := by
  have hlong : 5 ≤ (line ++ "\n".toList).length := by simpa using hlen
  have hscan : (Server.patternScan (line ++ "\n".toList)).1 = .ptDataRecv :=
    Server.patternScan_eq_dataRecv_iff.mpr ⟨hkey.concat_newline hline, fun hdot => by
      have := hdot.length_le
      omega⟩
  have hmark : ¬Server.dataMark <:+ line ++ "\n".toList := by
    rintro ⟨front, heq⟩
    have hfront : (front ++ ['\r', '\n', '.', '\r']) ++ ['\n'] = line ++ ['\n'] := by
      simpa [Server.dataMark] using heq
    obtain ⟨rfl, -⟩ := List.append_inj' hfront rfl
    simp at hline
  obtain ⟨x', hround, hx', -⟩ := hx.chunk (e := e) (t := line ++ "\n".toList)
    (o := ⟨.expectDataRecv, .live (l.add (line ++ "\n".toList)), none, []⟩) (by simp) (by decide)
    fun s hst hletter hrecv => by
      rw [hscan, ← hrecv]
      exact .text hst hletter (by rwa [hrecv]) (by rwa [hrecv])
  exact ⟨x', hround, by simpa using hx'⟩

/-- A command that is served is the only text of its turn. -/
theorem Hears.command (hx : x.Hears c st letter [] files) (htext : t ≠ [])
    (hst : st ≠ .disconnected)
    (hserves : ∀ s : Server.Session, s.state = st → s.letter = letter → s.recvBuf = t →
      Server.Serves (es 0) s (Server.patternScan t).1 (Server.patternScan t).2
        ⟨st', letter', some reply, []⟩) :
    ∃ x' i, run round x (arrivals es [t]) = .ok x' ∧ x'.Hears c st' letter' reply files ∧
      x'.link.session.watch = (es i).now := by
  obtain ⟨x', hround, hx', hwatch⟩ := hx.chunk htext hst hserves
  refine ⟨x', 0, ?_, by simpa using hx', hwatch⟩
  rw [arrivals_cons, run_cons_ok hround]
  rfl

/-- The texts of a body are added to the letter line by line, and the end mark
saves it. -/
theorem Hears.body {lines : List CStr} {l : Server.Letter}
    (hx : x.Hears c .expectDataRecv (.live l) [] files)
    (hlines : ∀ line ∈ lines, '\n' ∉ line ∧ 4 ≤ line.length ∧ Server.NoKeyword line)
    (hes : ∀ i name, (es i).creatable name = true) :
    ∃ x', run round x (arrivals es (lines.map (· ++ "\n".toList) ++ [Client.endOfBody])) =
        .ok x' ∧
      x'.Hears c .expectMail .freed Server.responseSaved (files ++ [(l.filename (es lines.length),
        ({ l with body := l.body ++ received (lines.map (· ++ "\n".toList) ++
          [Client.endOfBody]) } : Server.Letter).text)]) ∧
      x'.link.session.watch = (es lines.length).now := by
  induction lines generalizing x l es with
  | nil =>
      have hscan : (Server.patternScan Client.endOfBody).1 = .ptDataRecv := by decide
      obtain ⟨x', hround, hx', hwatch⟩ := hx.chunk (e := es 0) (t := Client.endOfBody)
        (o := Server.endOfData (es 0) (l.add Client.endOfBody)) (by decide) (by decide)
        fun s hst hletter hrecv => by
          rw [hscan, ← hrecv]
          exact .mark hst hletter (by rw [hrecv]; exact List.suffix_rfl)
      rw [Server.endOfData, if_pos (hes 0 _)] at hx'
      refine ⟨x', by simp [arrivals, run_cons, hround, bind, Except.bind], ?_, hwatch⟩
      simpa [received, Server.Letter.add, Server.Letter.filename] using hx'
  | cons line lines ih =>
      obtain ⟨⟨hline, hlen, hkey⟩, hlines⟩ := List.forall_mem_cons.mp hlines
      obtain ⟨x₁, hround, hx₁⟩ := hx.line (e := es 0) hline hlen hkey
      obtain ⟨x', hrun, hx', hwatch⟩ := ih hx₁ hlines fun i => hes (i + 1)
      refine ⟨x', ?_, ?_, hwatch⟩
      · rw [List.map_cons, List.cons_append, arrivals_cons, run_cons_ok hround, hrun]
      · simpa [received, Server.Letter.add, Server.Letter.filename] using hx'

/-! ### A turn of the client -/

def acceptances : List CStr :=
  [Server.response220, Server.responseHelo, Server.response250, Server.response354,
    Server.responseSaved, Server.response221]

theorem of_mem_acceptances {reply : CStr} (h : reply ∈ acceptances) :
    Client.checkServerCode reply = .ok ∧
      Client.readDataFromServer [.bytes reply] = some reply ∧ reply.length ≤ Server.bufSize := by
  have hall : ∀ reply ∈ acceptances, Client.checkServerCode reply = .ok ∧
      Client.readDataFromServer [.bytes reply] = some reply ∧
        reply.length ≤ Server.bufSize := by
    decide
  exact hall reply h

/-- Between two turns of the client: the two wait for each other. -/
structure Level (j : ℕ) (d : Client.Dscrptr) (st : Server.ServerState) (letter : Server.LetterPtr)
    (files : List (CStr × CStr)) (x : Wire) : Prop where
  usable : x.child.Usable j j
  dscrptr : x.child.dscrptrs j = d
  server : x.Hears x.child st letter [] files

variable {d d' : Client.Dscrptr} {r : Client.Sending} (sights : List Sight)

theorem Hears.unread_pass (hx : x.Hears c st letter reply files) (hreply : reply ∈ acceptances) :
    x.unread ++ (x.link.connUpdate (.pass e)).session.wire.drop x.link.session.wire.length =
      reply := by
  rw [Server.Link.connUpdate_pass]
  simp [hx.unread, hx.link.sendBuf, List.take_of_length_le (of_mem_acceptances hreply).2.2]

theorem Hears.pass (hx : x.Hears c st letter reply files) (hreply : reply ∈ acceptances)
    (hst : st ≠ .init ∧ st ≠ .disconnected)
    (htime : Server.stopwatchWatch e.now x.link.session.watch ≤ Server.connTimeout) :
    ∃ x', x.step j (.pass e) = .ok x' ∧ x'.child = c ∧ x'.isOpen = true ∧ x'.unread = reply ∧
      x'.link.Stands st letter [] files := by
  obtain ⟨hround, hl⟩ := hx.link.round_pass hst htime
  exact ⟨_, round_of_ok hx.isOpen hround, hx.child, hx.isOpen, hx.unread_pass hreply, hl⟩

theorem Hears.close (hx : x.Hears c .disconnected letter reply files)
    (hreply : reply ∈ acceptances) :
    ∃ x', x.step j (.pass e) = .ok x' ∧ x'.child = c ∧ x'.isOpen = false ∧ x'.unread = reply ∧
      x'.link.session.state = .disconnected ∧ x'.link.session.files = files := by
  have hclosed : x.link.round (.pass e) = .error .closed :=
    Server.Link.round_of_closing ⟨hx.link.state, by simp [Server.Round.pass]⟩
  refine ⟨_, round_of_closed hx.isOpen hclosed, hx.child, rfl, hx.unread_pass hreply, ?_, ?_⟩
  · exact (Server.Link.connUpdate_state _ _).trans hx.link.state
  · exact (Server.Link.connUpdate_files _ _).trans hx.link.files

theorem read_of_ok {c' : Client.Child} (hchild : x.child = c) (hunread : x.unread = reply)
    (hok : c.handleReadSocket [.bytes reply] j = .ok c') :
    x.step j .read = .ok { x with child := c', unread := [] } := by
  simp [step, read, hchild, hunread, hok]

/-- The reply is sent and read, and both are where the next turn begins. -/
theorem Hears.answer (hx : x.Hears c st letter reply files) (hreply : reply ∈ acceptances)
    (hst : st ≠ .init ∧ st ≠ .disconnected)
    (htime : Server.stopwatchWatch e.now x.link.session.watch ≤ Server.connTimeout)
    (hc : c.Usable j j) (hadvance : (c.dscrptrs j).advance .ok = .ok d')
    (hinit : d'.state ≠ .init) :
    ∃ x', run (logged (step j) (sees j)) (x, sights) [.pass e, .read] =
        .ok (x', sights ++ [⟨reply, d'.state, st⟩]) ∧
      x'.Level j d' st letter files ∧ x'.child.conf = c.conf ∧ x'.child.place = c.place ∧
        x'.child.placeOwner = c.placeOwner ∧ x'.child.files = c.files := by
  obtain ⟨hcode, hread, -⟩ := of_mem_acceptances hreply
  obtain ⟨x₁, hpass, hchild, hopen, hunread, hl⟩ := hx.pass (j := j) hreply hst htime
  have hsmooth : Client.Child.Smooth j c (.read j [.bytes reply]) :=
    ⟨rfl, reply, by simp [Client.Child.receive, hc.socket, hread], hcode⟩
  obtain ⟨c', hok, hslot, hsocket, hattempt, hconf, hplace, howner, hfiles, -⟩ :=
    Client.Child.read_smooth hc hadvance hinit hsmooth
  refine ⟨{ x₁ with child := c', unread := [] }, ?_,
    ⟨⟨hslot ▸ hsocket, hslot ▸ hattempt⟩, hslot, rfl, hopen, rfl, hl⟩, hconf, hplace, howner,
    hfiles⟩
  rw [run_logged_cons_ok hpass, run_logged_cons_ok (read_of_ok hchild hunread hok)]
  simp [sees, hunread, hslot, hl.state]

theorem Level.write {t : Turn} (ht : t.Calm) (hx : x.Level j d st letter files)
    (hsend : d.sendCommand x.child.conf.hostName x.child.files (x.child.placeAt t.kernel) = .ok r)
    (hfits : ∀ text ∈ r.data, text.length < Server.bufSize)
    (hserver : ∀ c (x₁ : Wire), x₁.Hears c st letter [] files →
      ∃ x₂ i, run round x₁ (arrivals t.arrivals r.data) = .ok x₂ ∧
        x₂.Hears c st' letter' reply files' ∧ x₂.link.session.watch = (t.arrivals i).now) :
    ∃ x' c, x.step j (.write t.kernel t.arrivals) = .ok x' ∧
      x'.Hears c st' letter' reply files' ∧
        Server.stopwatchWatch t.answer.now x'.link.session.watch ≤ Server.connTimeout ∧
          Client.Child.Exchanged j j r x.child c := by
  have hsend' := hx.dscrptr ▸ hsend
  have hsmooth : Client.Child.Smooth j x.child (.write j t.kernel) := by
    refine ⟨rfl, fun r' hr' n text hn => ?_⟩
    cases (hx.usable.sendMsgToServer hsend' _).symm.trans hr'
    obtain ⟨m, hm, hle⟩ := ht.writes n
    exact ⟨m, hm, (hfits text (List.mem_of_getElem? hn)).le.trans hle⟩
  obtain ⟨c, hok, hc⟩ := Client.Child.write_smooth hx.usable hsend' hsmooth
  obtain ⟨x₂, i, hrounds, hx₂, hwatch⟩ := hserver c { x with child := c }
    ⟨rfl, hx.server.isOpen, hx.server.unread, hx.server.link⟩
  refine ⟨x₂, c, ?_, hx₂, hwatch ▸ ht.inTime i, hc⟩
  have hok : x.child.handleWriteSocket t.kernel j = .ok c := hok
  simp only [step, Wire.write, hok, hc.sent, List.drop_left]
  exact hrounds

/-- A turn in which the server serves everything that is written. -/
theorem Level.turn {t : Turn} (ht : t.Calm) (hx : x.Level j d st letter files)
    (hsend : d.sendCommand x.child.conf.hostName x.child.files (x.child.placeAt t.kernel) = .ok r)
    (hfits : ∀ text ∈ r.data, text.length < Server.bufSize)
    (hserver : ∀ c (x₁ : Wire), x₁.Hears c st letter [] files →
      ∃ x₂ i, run round x₁ (arrivals t.arrivals r.data) = .ok x₂ ∧
        x₂.Hears c st' letter' reply files' ∧ x₂.link.session.watch = (t.arrivals i).now)
    (hreply : reply ∈ acceptances) (hst' : st' ≠ .init ∧ st' ≠ .disconnected)
    (hadvance : r.dscrptr.advance .ok = .ok d') (hinit : d'.state ≠ .init) :
    ∃ x', run (logged (step j) (sees j)) (x, sights) t.moves =
        .ok (x', sights ++ [⟨reply, d'.state, st'⟩]) ∧
      x'.Level j d' st' letter' files' ∧ x'.child.place = r.place.or x.child.place ∧
        (x'.child.placeOwner =
          if r.taken.isSome ∧ r.dscrptr.buffer.isSome then some j else x.child.placeOwner) ∧
        (x'.child.files = x.child.files ∨
          ∃ path, r.taken = some path ∧ x'.child.files = Client.moveFile path x.child.files) := by
  obtain ⟨x₁, c, hwrite, hx₁, htime, hc⟩ := hx.write ht hsend hfits hserver
  obtain ⟨x', hrun, hx', -, hplace, howner, hfiles⟩ := hx₁.answer sights hreply hst' htime
    hc.toUsable (hc.dscrptr ▸ hadvance) hinit
  refine ⟨x', ?_, hx', hplace.trans hc.place, howner.trans hc.placeOwner, hfiles ▸ hc.files⟩
  rw [Turn.moves, run_logged_cons_ok hwrite]
  simpa [sees] using hrun

/-! ### The commands -/

/-- `strtok` goes on in the letter of slot `j`, with `place`. -/
structure GoesOn (j : ℕ) (place : CStr) (x : Wire) : Prop where
  place : x.child.place = some place
  owner : x.child.placeOwner = some j
  kept : (x.child.dscrptrs j).textFreed = false

theorem GoesOn.placeAt {place : CStr} (h : x.GoesOn j place) (k : Client.WriteKernel) :
    x.child.placeAt k = some place :=
  (Client.Child.placeAt_of_owner k h.owner h.kept).trans h.place

theorem Level.helo {t : Turn} (ht : t.Calm) (hx : x.Level j d .ready letter files)
    (hstate : d.state = .sendHelo) (hne : x.child.conf.hostName ≠ [])
    (hline : '\n' ∉ x.child.conf.hostName)
    (hfits : (Client.sendHelo x.child.conf.hostName).length < Server.bufSize) :
    ∃ x', run (logged (step j) (sees j)) (x, sights) t.moves =
        .ok (x', sights ++ [⟨Server.responseHelo, .sendMailFrom, .expectMail⟩]) ∧
      x'.Level j { d with state := .sendMailFrom } .expectMail letter files ∧
        x'.child.files = x.child.files := by
  have hsent : Client.sendHelo x.child.conf.hostName =
      "HELO ".toList ++ x.child.conf.hostName ++ "\n".toList := rfl
  obtain ⟨x', hrun, hx', -, -, hfiles⟩ := hx.turn sights ht
    (r := ⟨d, none, none, [Client.sendHelo x.child.conf.hostName], none⟩)
    (by simp [Client.Dscrptr.sendCommand, hstate]) (by simpa using hfits)
    (fun c x₁ hx₁ => hx₁.command (by simp [hsent]) (by decide) fun s hst hletter _ => by
      rw [hsent, Server.patternScan_helo hne hline]
      exact (show Server.Serves _ s _ _ ⟨.expectMail, letter, some Server.responseHelo, []⟩ from
        hletter ▸ .helo hst))
    (by decide) (by decide)
    (Client.Dscrptr.advance_of_step (by simp [hstate]) (by rw [hstate]; rfl)) (by simp)
  exact ⟨x', hrun, hx', by simpa using hfiles⟩

theorem Level.mail {t : Turn} {path text sender : CStr} {lines : List CStr}
    {mails : List (Option CStr)} (ht : t.Calm) (hx : x.Level j d .expectMail letter files)
    (hstate : d.state = .sendMailFrom) (hmails : d.mailsList = some path :: mails)
    (hread : Client.readMsgFile (x.child.files path) = .ok (some text))
    (htokens : tokens '\n' text = sender :: lines)
    (hfits : ("MAIL FROM: <".toList ++ sender ++ ">\n".toList).length < Server.bufSize) :
    ∃ x' place, run (logged (step j) (sees j)) (x, sights) t.moves =
        .ok (x', sights ++ [⟨Server.response250, .sendRcptTo, .expectRcpt⟩]) ∧
      x'.Level j { d with buffer := some text, textFreed := false, state := .sendRcptTo }
        .expectRcpt (.live { Server.letterCreate with mailFrom := sender }) files ∧
      x'.GoesOn j place ∧ tokens '\n' place = lines ∧
        (x'.child.files = x.child.files ∨
          x'.child.files = Client.moveFile path x.child.files) := by
  obtain ⟨hne, hline⟩ := of_mem_tokens (htokens ▸ List.mem_cons_self)
  obtain ⟨place, hplace, hsend⟩ : ∃ place', tokens '\n' place' = lines ∧
      Client.sendMailFrom (x.child.placeAt t.kernel) (some text) =
        .ok ("MAIL FROM: <".toList ++ sender ++ ">\n".toList, place') :=
    Client.sendMailFrom_of_tokens htokens
  obtain ⟨x', hrun, hx', hx'place, howner, hfiles⟩ := hx.turn sights ht
    (r := ⟨{ d with buffer := some text, textFreed := false }, some place, some path,
      ["MAIL FROM: <".toList ++ sender ++ ">\n".toList], none⟩)
    (by simp [Client.Dscrptr.sendCommand, hstate, hmails, hread, hsend, bind, Except.bind])
    (by simpa using hfits)
    (fun c x₁ hx₁ => hx₁.command (by simp) (by decide) fun s hst _ _ => by
      rw [Server.patternScan_mail hne hline]
      exact .mail hst)
    (by decide) (by decide)
    (Client.Dscrptr.advance_of_step (by simp [hstate]) (by rw [hstate]; rfl)) (by simp)
  exact ⟨x', place, hrun, hx', ⟨hx'place, by simpa using howner, by rw [hx'.dscrptr]⟩, hplace,
    by simpa using hfiles⟩

theorem Level.rcpt {t : Turn} {place rcpt username domain : CStr} {lines : List CStr}
    {l : Server.Letter} (ht : t.Calm) (hx : x.Level j d .expectRcpt (.live l) files)
    (hstate : d.state = .sendRcptTo) (hplace : x.GoesOn j place)
    (htokens : tokens '\n' place = rcpt :: lines)
    (hemail : Server.patternEmail rcpt = some (username, domain))
    (hfits : ("RCPT TO:<".toList ++ rcpt ++ ">\n".toList).length < Server.bufSize) :
    ∃ x' place', run (logged (step j) (sees j)) (x, sights) t.moves =
        .ok (x', sights ++ [⟨Server.response250, .sendData, .expectData⟩]) ∧
      x'.Level j { d with state := .sendData } .expectData (.live { l with
        rcptTo := rcpt, rcptUsername := username, rcptDomain := domain }) files ∧
      x'.GoesOn j place' ∧ tokens '\n' place' = lines ∧ x'.child.files = x.child.files := by
  obtain ⟨hne, hline⟩ := of_mem_tokens (htokens ▸ List.mem_cons_self)
  obtain ⟨place', hplace', hsend⟩ : ∃ place', tokens '\n' place' = lines ∧
      Client.sendRcptTo (some place) d.buffer =
        .ok ("RCPT TO:<".toList ++ rcpt ++ ">\n".toList, place') :=
    Client.sendRcptTo_of_tokens htokens
  have hkept : d.textFreed = false := hx.dscrptr ▸ hplace.kept
  obtain ⟨x', hrun, hx', hx'place, howner, hfiles⟩ := hx.turn sights ht
    (r := ⟨d, some place', none, ["RCPT TO:<".toList ++ rcpt ++ ">\n".toList], none⟩)
    (by simp [Client.Dscrptr.sendCommand, hstate, hplace.placeAt, hsend, bind, Except.bind])
    (by simpa using hfits)
    (fun c x₁ hx₁ => hx₁.command (by simp) (by decide) fun s hst hletter _ => by
      rw [Server.patternScan_rcpt hne hline]
      exact .rcpt hst hletter hemail)
    (by decide) (by decide)
    (Client.Dscrptr.advance_of_step (by simp [hstate]) (by rw [hstate]; rfl)) (by simp)
  exact ⟨x', place', hrun, hx', ⟨hx'place, by simpa using howner.trans hplace.owner,
    by rw [hx'.dscrptr, hkept]⟩, hplace', by simpa using hfiles⟩

theorem Level.data {t : Turn} {place : CStr} (ht : t.Calm)
    (hx : x.Level j d .expectData letter files) (hstate : d.state = .sendData)
    (hplace : x.GoesOn j place) :
    ∃ x', run (logged (step j) (sees j)) (x, sights) t.moves =
        .ok (x', sights ++ [⟨Server.response354, .sendBody, .expectDataRecv⟩]) ∧
      x'.Level j { d with state := .sendBody } .expectDataRecv letter files ∧
        x'.GoesOn j place ∧ x'.child.files = x.child.files := by
  have hkept : d.textFreed = false := hx.dscrptr ▸ hplace.kept
  have hscan : (Server.patternScan Client.sendDataMsg).1 = .ptData := by decide
  obtain ⟨x', hrun, hx', hx'place, howner, hfiles⟩ := hx.turn sights ht
    (r := ⟨d, none, none, [Client.sendDataMsg], none⟩)
    (by simp [Client.Dscrptr.sendCommand, hstate])
    (by simpa using show Client.sendDataMsg.length < Server.bufSize by decide)
    (fun c x₁ hx₁ => hx₁.command (by decide) (by decide) fun s hst hletter _ => by
      rw [hscan]
      exact (show Server.Serves _ s _ _ ⟨.expectDataRecv, letter, some Server.response354, []⟩ from
        hletter ▸ .data hst))
    (by decide) (by decide)
    (Client.Dscrptr.advance_of_step (by simp [hstate]) (by rw [hstate]; rfl)) (by simp)
  exact ⟨x', hrun, hx', ⟨hx'place.trans hplace.place, by simpa using howner.trans hplace.owner,
    by rw [hx'.dscrptr, hkept]⟩, by simpa using hfiles⟩

theorem Level.body {t : Turn} {place path : CStr} {lines letters : List CStr} {l : Server.Letter}
    (ht : t.Calm) (hx : x.Level j d .expectDataRecv (.live l) files)
    (hstate : d.state = .sendBody)
    (hmails : d.mailsList = some path :: (letters.map some ++ [none]))
    (hplace : x.GoesOn j place) (htokens : tokens '\n' place = lines)
    (hlines : ∀ line ∈ lines, 4 ≤ line.length ∧ Server.NoKeyword line)
    (hfits : ∀ text ∈ lines.map (· ++ "\n".toList) ++ [Client.endOfBody],
      text.length < Server.bufSize) :
    ∃ x', run (logged (step j) (sees j)) (x, sights) t.moves =
        .ok (x', sights ++ [⟨Server.responseSaved,
          if letters = [] then .sendQuit else .sendMailFrom, .expectMail⟩]) ∧
      x'.Level j { d with
          mailsList := letters.map some ++ [none]
          state := if letters = [] then .sendQuit else .sendMailFrom
          textFreed := d.buffer.isSome || d.textFreed } .expectMail .freed
        (files ++ [(l.filename (t.arrivals lines.length), ({ l with
          body := l.body ++ received (lines.map (· ++ "\n".toList) ++ [Client.endOfBody]) } :
            Server.Letter).text)]) ∧
      x'.child.files = x.child.files := by
  have hlines' : ∀ line ∈ lines, '\n' ∉ line ∧ 4 ≤ line.length ∧ Server.NoKeyword line :=
    fun line h => ⟨(of_mem_tokens (htokens ▸ h)).2, hlines line h⟩
  obtain ⟨x', hrun, hx', -, -, hfiles⟩ := hx.turn sights ht
    (r := ⟨d, some [], none, lines.map (· ++ "\n".toList) ++ [Client.endOfBody], none⟩)
    (by simp [Client.Dscrptr.sendCommand, hstate, hplace.placeAt, Client.sendMsgBody, htokens,
      bind, Except.bind])
    hfits
    (fun c x₁ hx₁ => by
      obtain ⟨x₂, hrun, hx₂, hwatch⟩ := hx₁.body hlines' ht.creatable
      exact ⟨x₂, lines.length, hrun, hx₂, hwatch⟩)
    (by decide) (by decide) (Client.Child.advance_of_body hstate hmails)
    (by dsimp only; split <;> simp)
  exact ⟨x', hrun, hx', by simpa using hfiles⟩

/-- At QUIT the server closes the connection, and the client gives its socket
up. -/
theorem Level.quit {t : Turn} (ht : t.Calm) (hx : x.Level j d .expectMail letter files)
    (hstate : d.state = .sendQuit) (hmails : d.mailsList = [none]) :
    ∃ x', run (logged (step j) (sees j)) (x, sights) t.moves =
        .ok (x', sights ++ [⟨Server.response221, .init, .disconnected⟩]) ∧
      x'.isOpen = false ∧ x'.link.session.files = files ∧
        (x'.child.dscrptrs j).state = .init ∧
          Client.count (x'.child.dscrptrs j).mailsList = 0 := by
  have hscan : (Server.patternScan Client.sendQuit).1 = .ptQuit := by decide
  obtain ⟨x₁, c, hwrite, hx₁, -, hc⟩ := hx.write ht
    (r := ⟨d, none, none, [Client.sendQuit], none⟩)
    (by simp [Client.Dscrptr.sendCommand, hstate])
    (by simpa using show Client.sendQuit.length < Server.bufSize by decide)
    (fun c x₁ hx₁ => hx₁.command (by decide) (by decide) fun s hst hletter _ => by
      rw [hscan]
      exact (show Server.Serves _ s _ _ ⟨.disconnected, letter, some Server.response221, []⟩ from
        hletter ▸ .quit (.inl (by rw [hst]; rfl))))
  have hreply : Server.response221 ∈ acceptances := by decide
  obtain ⟨hcode, hread, -⟩ := of_mem_acceptances hreply
  obtain ⟨x₂, hpass, hchild, hopen, hunread, hserver, hfiles⟩ :=
    hx₁.close (j := j) (e := t.answer) hreply
  obtain ⟨c', hok, hc'⟩ := Client.Child.read_last (o := j) (by simp [hc.dscrptr, hstate])
    (by simp [hc.dscrptr, hmails]) (show c.Smooth j (.read j [.bytes Server.response221]) from
      ⟨rfl, _, by simp [Client.Child.receive, hc.toUsable.socket, hread], hcode⟩)
  refine ⟨{ x₂ with child := c', unread := [] }, ?_, hopen, hfiles, hc'.state, hc'.count⟩
  rw [Turn.moves, run_logged_cons_ok hwrite, run_logged_cons_ok hpass,
    run_logged_cons_ok (read_of_ok hchild hunread hok)]
  simp [sees, hunread, hserver, hc'.state]

/-! ### Letters -/

theorem run_turns_cons {t : Turn} {ts : List Turn} {x' : Wire} {sights sights' : List Sight}
    (h : run (logged (step j) (sees j)) (x, sights) t.moves = .ok (x', sights')) :
    run (logged (step j) (sees j)) (x, sights) ((t :: ts).flatMap Turn.moves) =
      run (logged (step j) (sees j)) (x', sights') (ts.flatMap Turn.moves) := by
  rw [List.flatMap_cons, run_append_ok h]

/-- Four turns take a letter from the head of the queue into its file. -/
theorem Level.letter_saved {p : Server.LetterPtr} {path : CStr} {letters : List CStr}
    {ts : List Turn} (hx : x.Level j d .expectMail p files) (hstate : d.state = .sendMailFrom)
    (hmails : d.mailsList = some path :: (letters.map some ++ [none]))
    (hread : Client.Readable x.child.files path)
    (hsendable : Sendable (Client.textOf x.child.files path))
    (hothers : ∀ q ∈ letters, q ≠ path ∧ q ≠ Client.renameTarget path)
    (hfits : ∀ text ∈ Client.letterTexts (Client.textOf x.child.files path),
      text.length < Server.bufSize)
    (hlen : ts.length = 4) (hcalm : ∀ t ∈ ts, t.Calm) :
    ∃ x' d' file, run (logged (step j) (sees j)) (x, sights) (ts.flatMap Turn.moves) =
        .ok (x', sights ++ letterSights d'.state) ∧
      x'.Level j d' .expectMail .freed (files ++ [file]) ∧
        SavedAs (Client.textOf x.child.files path) file ∧
          d'.state = (if letters = [] then .sendQuit else .sendMailFrom) ∧
            d'.mailsList = letters.map some ++ [none] ∧
              ∀ q ∈ letters, x'.child.files q = x.child.files q := by
  obtain ⟨t₁, t₂, t₃, t₄, rfl⟩ := List.length_eq_four.mp hlen
  simp only [List.forall_mem_cons] at hcalm
  obtain ⟨ht₁, ht₂, ht₃, ht₄, -⟩ := hcalm
  obtain ⟨sender, username, domain, lines, htokens, huser, hdomain, -, hlines⟩ := hsendable
  have hrcpt : '\n' ∉ username ++ '@' :: domain :=
    (of_mem_tokens (htokens ▸ List.mem_cons_of_mem _ List.mem_cons_self)).2
  obtain ⟨⟨u, v⟩, hemail⟩ := Option.isSome_iff_exists.mp (Server.patternEmail_isSome huser hdomain
    (fun h => hrcpt (by simp [h])) (fun h => hrcpt (by simp [h])))
  generalize username ++ '@' :: domain = rcpt at htokens hemail
  rw [Client.letterTexts, htokens] at hfits
  obtain ⟨hcommands, hfits₄⟩ := List.forall_mem_append.mp hfits
  simp only [List.forall_mem_cons] at hcommands
  obtain ⟨hfits₁, hfits₂, -⟩ := hcommands
  obtain ⟨x₁, place₁, hrun₁, hx₁, hplace₁, htokens₁, hfiles₁⟩ := hx.mail sights
    ht₁ hstate hmails hread.readMsgFile htokens hfits₁
  obtain ⟨x₂, place₂, hrun₂, hx₂, hplace₂, htokens₂, hfiles₂⟩ := hx₁.rcpt
    (sights ++ [_]) ht₂ rfl hplace₁ htokens₁ hemail hfits₂
  obtain ⟨x₃, hrun₃, hx₃, hplace₃, hfiles₃⟩ := hx₂.data (sights ++ [_] ++ [_]) ht₃ rfl hplace₂
  obtain ⟨x₄, hrun₄, hx₄, hfiles₄⟩ := hx₃.body (sights ++ [_] ++ [_] ++ [_]) ht₄ rfl
    hmails hplace₃ htokens₂ hlines hfits₄
  refine ⟨x₄, _, _, ?_, hx₄, ⟨sender, rcpt, lines, u, v, t₄.arrivals lines.length, htokens, hemail,
    rfl, by simp [Server.Letter.text, Server.letterCreate]⟩, rfl, rfl, fun q hq => ?_⟩
  · rw [run_turns_cons hrun₁, run_turns_cons hrun₂, run_turns_cons hrun₃, run_turns_cons hrun₄]
    simp [letterSights]
  · obtain ⟨hne, hne'⟩ := hothers q hq
    rw [hfiles₄, hfiles₃, hfiles₂]
    rcases hfiles₁ with h | h
    · rw [h]
    · rw [h, Client.moveFile, Function.update_of_ne hne', Function.update_of_ne hne]

/-- The turns of a queue, and of QUIT. -/
theorem Level.queue_saved {p : Server.LetterPtr} {letters : List CStr} {ts : List Turn}
    (hx : x.Level j d .expectMail p files)
    (hstate : d.state = if letters = [] then .sendQuit else .sendMailFrom)
    (hmails : d.mailsList = letters.map some ++ [none])
    (hread : ∀ q ∈ letters, Client.Readable x.child.files q ∧
      Sendable (Client.textOf x.child.files q))
    (hapart : Client.Child.Apart letters)
    (hfits : ∀ q ∈ letters, ∀ text ∈ Client.letterTexts (Client.textOf x.child.files q),
      text.length < Server.bufSize)
    (hlen : ts.length = 4 * letters.length + 1) (hcalm : ∀ t ∈ ts, t.Calm) :
    ∃ x' saved, run (logged (step j) (sees j)) (x, sights) (ts.flatMap Turn.moves) =
        .ok (x', sights ++ queueSights letters.length) ∧
      x'.isOpen = false ∧ x'.link.session.files = files ++ saved ∧
        List.Forall₂ SavedAs (letters.map (Client.textOf x.child.files)) saved ∧
          (x'.child.dscrptrs j).state = .init ∧
            Client.count (x'.child.dscrptrs j).mailsList = 0 := by
  induction letters generalizing x d p files ts sights with
  | nil =>
      obtain ⟨t, rfl⟩ := List.length_eq_one_iff.mp hlen
      obtain ⟨x', hrun, hopen, hfiles, hinit, hcount⟩ := hx.quit sights
        (hcalm t (by simp)) hstate hmails
      refine ⟨x', [], ?_, hopen, by simpa using hfiles, .nil, hinit, hcount⟩
      rw [run_turns_cons hrun]
      rfl
  | cons path letters ih =>
      rw [List.length_cons] at hlen
      obtain ⟨x₁, d₁, file, hrun₁, hx₁, hsaved, hstate₁, hmails₁, hfiles₁⟩ :=
        hx.letter_saved sights (by rw [hstate, if_neg (by simp)])
          (by rw [hmails]; rfl) (hread path (by simp)).1 (hread path (by simp)).2 hapart.others
          (hfits path (by simp)) (show (ts.take 4).length = 4 by rw [List.length_take]; omega)
          fun t ht => hcalm t (List.mem_of_mem_take ht)
      have htext : ∀ q ∈ letters, Client.textOf x₁.child.files q = Client.textOf x.child.files q :=
        fun q hq => by rw [Client.textOf, Client.textOf, hfiles₁ q hq]
      obtain ⟨x', saved, hrun', hopen, hfiles, hall, hinit, hcount⟩ := ih
        (sights ++ letterSights d₁.state) hx₁ hstate₁ hmails₁
        (fun q hq => ⟨(hread q (by simp [hq])).1.congr (hfiles₁ q hq),
          htext q hq ▸ (hread q (by simp [hq])).2⟩)
        hapart.tail (fun q hq => htext q hq ▸ hfits q (by simp [hq]))
        (show (ts.drop 4).length = _ by rw [List.length_drop]; omega)
        fun t ht => hcalm t (List.mem_of_mem_drop ht)
      refine ⟨x', file :: saved, ?_, hopen, by simpa using hfiles, ?_, hinit, hcount⟩
      · rw [← List.take_append_drop 4 ts, List.flatMap_append, run_append_ok hrun₁, hrun', hstate₁]
        simp [queueSights, List.length_eq_zero_iff]
      · rw [List.map_cons, ← Client.Child.textOf_congr hfiles₁]
        exact .cons hsaved hall

theorem greets {now : Server.Timeval} {e₀ e₁ : Server.Env} (hc : c.Usable j j)
    (hstate : (c.dscrptrs j).state = .connect)
    (hgreet : Server.stopwatchWatch e₀.now now ≤ Server.connTimeout)
    (hwait : Server.stopwatchWatch e₁.now now ≤ Server.connTimeout) :
    ∃ x, run (logged (step j) (sees j)) (⟨c, .accepted now, true, []⟩, [])
        [.pass e₀, .pass e₁, .read] = .ok (x, [⟨Server.response220, .sendHelo, .ready⟩]) ∧
      x.Level j { c.dscrptrs j with state := .sendHelo } .ready .none [] ∧
        x.child.conf = c.conf ∧ x.child.files = c.files := by
  obtain ⟨l, hround, hl, hwatch⟩ := Server.Link.round_pass_accepted hgreet
  have hpass : step j ⟨c, .accepted now, true, []⟩ (.pass e₀) = .ok ⟨c, l, true, []⟩ := by
    have hok := round_of_ok (x := ⟨c, .accepted now, true, []⟩) rfl hround
    rw [Server.Link.connUpdate_pass] at hok
    exact hok
  have hadvance : (c.dscrptrs j).advance .ok = .ok { c.dscrptrs j with state := .sendHelo } :=
    Client.Dscrptr.advance_of_step (by simp [hstate]) (by rw [hstate]; rfl)
  have hx : Hears c .ready .none Server.response220 [] ⟨c, l, true, []⟩ := ⟨rfl, rfl, rfl, hl⟩
  obtain ⟨x, hrun, hx, hconf, -, -, hfiles⟩ := hx.answer (e := e₁) [] (by decide)
    (by decide) (by rwa [hwatch]) hc hadvance (by simp)
  refine ⟨x, ?_, hx, hconf, hfiles⟩
  exact (run_logged_cons_ok hpass).trans hrun

/-- All replies of a session move the client on. -/
theorem reply_mem_acceptances {n : ℕ} {s : Sight} (h : s ∈ sessionSights n) :
    s.reply ∈ acceptances := by
  have hletter : ∀ next, ∀ s ∈ letterSights next, s.reply ∈ acceptances := by
    simp [letterSights, acceptances]
  have hqueue : ∀ n, ∀ s ∈ queueSights n, s.reply ∈ acceptances := by
    intro n
    induction n with
    | zero => simp [queueSights, acceptances]
    | succ n ih => exact List.forall_mem_append.mpr ⟨hletter _, ih⟩
  simp only [sessionSights, List.mem_cons] at h
  rcases h with rfl | rfl | h
  · simp [acceptances]
  · simp [acceptances]
  · exact hqueue n s h

/-- The two sides stay level through a session: whatever its letters, they go
through the same commands, every reply moves the client on, and each letter of
the queue is saved once, in its turn, and with its own lines. -/
theorem session_level {c : Client.Child} {letters : List CStr} {now : Server.Timeval}
    {e₀ e₁ : Server.Env} {ts : List Turn} (hstate : (c.dscrptrs j).state = .connect)
    (hattempt : (c.dscrptrs j).lastAttemptTime = 0)
    (hsocket : c.sockets (c.dscrptrs j).socketFd = some j)
    (hqueue : (c.dscrptrs j).mailsList = letters.map some ++ [none]) (hne : letters ≠ [])
    (hhost : c.conf.hostName ≠ []) (hline : '\n' ∉ c.conf.hostName)
    (hread : ∀ p ∈ letters, Client.Readable c.files p ∧ Sendable (Client.textOf c.files p))
    (hapart : Client.Child.Apart letters)
    (hfits : ∀ text ∈ Client.sessionTexts c.conf.hostName (letters.map (Client.textOf c.files)),
      text.length < Server.bufSize)
    (hgreet : Server.stopwatchWatch e₀.now now ≤ Server.connTimeout)
    (hwait : Server.stopwatchWatch e₁.now now ≤ Server.connTimeout)
    (hlen : ts.length = 4 * letters.length + 2) (hcalm : ∀ t ∈ ts, t.Calm) :
    ∃ x, run (logged (step j) (sees j)) (⟨c, .accepted now, true, []⟩, []) (session e₀ e₁ ts) =
        .ok (x, sessionSights letters.length) ∧
      (∀ s ∈ sessionSights letters.length, Client.checkServerCode s.reply = .ok) ∧
        List.Forall₂ SavedAs (letters.map (Client.textOf c.files)) x.link.session.files ∧
          x.isOpen = false ∧ (x.child.dscrptrs j).state = .init ∧
            Client.count (x.child.dscrptrs j).mailsList = 0 := by
  obtain ⟨x₀, hrun₀, hx₀, hconf₀, hfiles₀⟩ :=
    greets ⟨hsocket, hattempt⟩ hstate hgreet hwait
  obtain ⟨t, ts, rfl⟩ := List.exists_cons_of_length_pos (by omega : 0 < ts.length)
  obtain ⟨ht, hcalm⟩ := List.forall_mem_cons.mp hcalm
  obtain ⟨hhelo, hrest⟩ := List.forall_mem_cons.mp hfits
  obtain ⟨x₁, hrun₁, hx₁, hfiles₁⟩ := hx₀.helo [⟨Server.response220, .sendHelo, .ready⟩]
    ht rfl (by rwa [hconf₀]) (by rwa [hconf₀]) (by rwa [hconf₀])
  have hfiles : x₁.child.files = c.files := hfiles₁.trans hfiles₀
  obtain ⟨x, saved, hrun, hopen, hsaved, hall, hinit, hcount⟩ := hx₁.queue_saved
    ([⟨Server.response220, .sendHelo, .ready⟩] ++ [_]) (by rw [if_neg hne])
    hqueue (hfiles ▸ hread) hapart
    (fun q hq text htext => hrest text (List.mem_append_left _ (List.mem_flatMap.mpr
      ⟨_, List.mem_map_of_mem hq, hfiles ▸ htext⟩)))
    (by simpa using hlen) hcalm
  rw [hfiles] at hall
  refine ⟨x, ?_, fun s hs => (of_mem_acceptances (reply_mem_acceptances hs)).1,
    by rwa [hsaved], hopen, hinit, hcount⟩
  rw [session, run_append_ok hrun₀, run_turns_cons hrun₁, hrun]
  rfl

def samplePlain : Client.Child :=
  Client.bootChild ⟨"m/".toList, "h".toList, 120, 10⟩
    (fun path => if path = Client.sampleLetter "a.b" then some "s@a\nr@b\nText.\n".toList
      else none) fun _ => Client.zeroDscrptr

def sampleTurn : Turn := ⟨Client.sampleWrites, fun _ => Server.sampleEnv, Server.sampleEnv⟩

theorem session_level_sample : ∃ c x,
    run Client.Child.step samplePlain [.register (Client.sampleLetter "a.b") (some 5)] = .ok c ∧
      run (logged (step 0) (sees 0)) (⟨c, .accepted ⟨0, 0⟩, true, []⟩, [])
        (session Server.sampleEnv Server.sampleEnv (List.replicate 6 sampleTurn)) =
          .ok (x, sessionSights 1) ∧
        List.Forall₂ SavedAs ["s@a\nr@b\nText.\n".toList] x.link.session.files := by
  have hall : (run Client.Child.step samplePlain
      [.register (Client.sampleLetter "a.b") (some 5)]).map (fun c =>
        decide (((c.dscrptrs 0).state = .connect ∧ (c.dscrptrs 0).lastAttemptTime = 0 ∧
          c.sockets (c.dscrptrs 0).socketFd = some 0) ∧
            (c.dscrptrs 0).mailsList = [Client.sampleLetter "a.b"].map some ++ [none] ∧
              c.conf.hostName = ['h'] ∧
                c.files (Client.sampleLetter "a.b") = some "s@a\nr@b\nText.\n".toList)) =
                  .ok true := by
    decide +kernel
  cases hrun : run Client.Child.step samplePlain
      [.register (Client.sampleLetter "a.b") (some 5)] with
  | error stop =>
      rw [hrun] at hall
      cases hall
  | ok c =>
      rw [hrun] at hall
      obtain ⟨⟨hstate, hattempt, hsocket⟩, hqueue, hhost, hfile⟩ :=
        of_decide_eq_true (Except.ok.inj hall)
      have htime : Server.stopwatchWatch Server.sampleEnv.now ⟨0, 0⟩ ≤ Server.connTimeout := by
        decide
      have htext : Client.textOf c.files (Client.sampleLetter "a.b") =
          "s@a\nr@b\nText.\n".toList := by
        rw [Client.textOf, hfile]
        decide
      have hsendable : Sendable "s@a\nr@b\nText.\n".toList := by
        refine ⟨"s@a".toList, "r".toList, "b".toList, ["Text.".toList], by decide, by decide,
          by decide, by decide, ?_⟩
        simp only [List.mem_singleton, forall_eq]
        exact ⟨by decide, Server.noKeyword_of_head (by simp)⟩
      have hread : ∀ p ∈ [Client.sampleLetter "a.b"],
          Client.Readable c.files p ∧ Sendable (Client.textOf c.files p) := by
        simp only [List.mem_singleton, forall_eq, htext]
        exact ⟨⟨⟨_, hfile, by decide⟩, by rw [htext]; decide⟩, hsendable⟩
      have hcalm : ∀ t ∈ List.replicate 6 sampleTurn, t.Calm := by
        intro t ht
        rw [List.eq_of_mem_replicate ht]
        exact ⟨fun _ => ⟨1024, rfl, le_rfl⟩, fun _ _ => rfl, fun _ => htime⟩
      obtain ⟨x, hok, -, hsaved, -⟩ := session_level hstate hattempt hsocket hqueue (by simp)
        (by simp [hhost]) (by simp [hhost]) hread ⟨by simp, by simp⟩
        (by rw [hhost, List.map_singleton, htext]; decide) htime htime rfl hcalm
      rw [List.map_singleton, htext] at hsaved
      exact ⟨c, x, rfl, hok, hsaved⟩

end Wire

end SmtpProj.Joint
