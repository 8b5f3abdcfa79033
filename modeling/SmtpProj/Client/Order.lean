import SmtpProj.Lib.History
import SmtpProj.Client.Queue

/-!
The order of the commands on a connection.

What may be written next is kept in two places, the state of the automaton and
the watched sets: in a sending state the socket is in `write_fds` until the
command is written, and in `read_fds` from then until the reply is read. A
registration moves the automaton too, and it opens the connection anew when it
does; it leaves a session alone that has a letter, and between the greeting and
the last body there always is one (`Standing.letter`). So the commands of every
connection follow `script`, from its beginning and without a gap.

After a refusal the automaton is finished. The next reply takes it back to its
start, but closes the socket with it.
-/

namespace SmtpProj.Client

open Lib

/-! ### Commands -/

inductive Command
  | helo | mailFrom | rcptTo | data | body | quit
  deriving DecidableEq

def ClientState.command : ClientState → Option Command
  | .sendHelo => some .helo
  | .sendMailFrom => some .mailFrom
  | .sendRcptTo => some .rcptTo
  | .sendData => some .data
  | .sendBody => some .body
  | .sendQuit => some .quit
  | .init | .connect | .invalid | .done => none

def ClientState.servesLetter : ClientState → Bool
  | .connect | .sendHelo | .sendMailFrom | .sendRcptTo | .sendData | .sendBody => true
  | .init | .sendQuit | .invalid | .done => false

def letterCommands (n : ℕ) : List Command :=
  (List.replicate n [.mailFrom, .rcptTo, .data, .body]).flatten

def script (n : ℕ) : List Command := .helo :: letterCommands n ++ [.quit]

/-- The commands in front of `x`, in a session that has sent `n` letters; with
`quit` the last letter is counted on top. -/
def Command.before (n : ℕ) : Command → List Command
  | .helo => []
  | .mailFrom => .helo :: letterCommands n
  | .rcptTo => .helo :: letterCommands n ++ [.mailFrom]
  | .data => .helo :: letterCommands n ++ [.mailFrom, .rcptTo]
  | .body => .helo :: letterCommands n ++ [.mailFrom, .rcptTo, .data]
  | .quit => .helo :: letterCommands (n + 1)

inductive Entry
  | connected
  /-- The socket accepted text of `x`; all of it if `whole` holds. -/
  | wrote (x : Command) (whole : Bool)
  /-- A reply was read, and classified by `check_server_code`. -/
  | replied (event : ClientEvent)
  deriving DecidableEq

def connections (hist : List Entry) : List (List Entry) := hist.splitOnP (· = .connected)

def commands (seg : List Entry) : List Command :=
  seg.filterMap fun
    | .wrote x true => some x
    | _ => none

/-- Behind every command a reply was read. -/
def Answered (seg : List Entry) : Prop :=
  ∀ before x whole behind, seg = before ++ .wrote x whole :: behind →
    ∃ event, .replied event ∈ behind

/-- The history of one connection is that of a session, or of the beginning of
one: each command after the reply to the one before, and none after a
refusal. -/
structure InOrder (seg : List Entry) : Prop where
  script : ∃ n, 1 ≤ n ∧ commands seg <+: script n
  answered : ∀ before x whole behind, seg = before ++ .wrote x whole :: behind → Answered before
  refused : ∀ before behind, seg = before ++ .replied .error :: behind →
    ∀ x whole, .wrote x whole ∉ behind

namespace Child

/-- The command that a call of `handle_write_socket` writes, if the socket
accepts anything. -/
def written (k : WriteKernel) (i : ℕ) (c : Child) : List Entry :=
  match (c.dscrptrs i).state.command,
    (c.dscrptrs i).sendMsgToServer k.now c.conf.hostName c.files (c.placeAt k) with
  | some x, .ok r =>
      if (c.transmit k r).2 = [] then [] else [.wrote x ((c.transmit k r).1 = .sent)]
  | _, _ => []

def entryOf (j : ℕ) : Event → Option Entry
  | .connected i => if i = j then some .connected else none
  | .answered i _ reply => if i = j then some (.replied (checkServerCode reply)) else none
  | _ => none

def entries (j : ℕ) (c : Child) (op : Op) (c' : Child) : List Entry :=
  (c'.log.drop c.log.length).filterMap (entryOf j) ++
    match op with
    | .write i k => if i = j then c.written k i else []
    | .register _ _ => []
    | .read _ _ => []
    | .select _ _ _ => []

/-- The descriptor for `domain` is at its start: it has no slot yet, or its
letters are listed behind the node without a value, and wait if a connection is
open. -/
structure Starting (j : ℕ) (domain : CStr) (c : Child) : Prop where
  filed : c.Filed
  state : (c.dscrptrs j).state = .init
  slot : (j < c.readyDomainsCount ∧ (c.dscrptrs j).domain = domain ∧
      0 ≤ count (c.dscrptrs j).mailsList ∧
      ((c.sockets (c.dscrptrs j).socketFd).isSome → 0 < count (c.dscrptrs j).mailsList)) ∨
    (j = c.readyDomainsCount ∧ ∀ i < c.readyDomainsCount, (c.dscrptrs i).domain ≠ domain)

end Child

/-! ### Scripts -/

@[simp] theorem letterCommands_succ (n : ℕ) :
    letterCommands (n + 1) = letterCommands n ++ [.mailFrom, .rcptTo, .data, .body] := by
  simp [letterCommands, List.replicate_succ']

theorem script_of_before (n : ℕ) (x : Command) : x.before n ++ [x] <+: script (n + 1) := by
  cases x with
  | helo => exact ⟨letterCommands (n + 1) ++ [.quit], by simp [Command.before, script]⟩
  | mailFrom =>
      exact ⟨[.rcptTo, .data, .body, .quit],
        by simp [Command.before, script, letterCommands_succ]⟩
  | rcptTo =>
      exact ⟨[.data, .body, .quit], by simp [Command.before, script, letterCommands_succ]⟩
  | data => exact ⟨[.body, .quit], by simp [Command.before, script, letterCommands_succ]⟩
  | body => exact ⟨[.quit], by simp [Command.before, script, letterCommands_succ]⟩
  | quit => exact ⟨[], by simp [Command.before, script]⟩

/-- A step of the automaton from a command to a command follows the script. -/
theorem before_of_step {st st' : ClientState} {event : ClientEvent} {x y : Command} (n : ℕ)
    (h : clientFsmStep st event = .ok st') (hx : st.command = some x) (hy : st'.command = some y)
    (hevent : event = .ok ∨ event = .multipleEmails) : ∃ m, x.before n ++ [x] = y.before m := by
  rcases hevent with rfl | rfl <;> cases st <;>
    simp [clientFsmStep, clientFsmTransTable] at h <;> subst h <;> cases hx <;> cases hy
  · exact ⟨0, rfl⟩
  · exact ⟨n, rfl⟩
  · exact ⟨n, by simp [Command.before]⟩
  · exact ⟨n, by simp [Command.before]⟩
  · exact ⟨n, by simp [Command.before, letterCommands_succ]⟩
  · exact ⟨n + 1, by simp [Command.before, letterCommands_succ]⟩

theorem greeted_of_step {st st' : ClientState} {event : ClientEvent} {y : Command}
    (h : clientFsmStep st event = .ok st') (hevent : event = .ok ∨ event = .multipleEmails)
    (hx : st.command = none) (hy : st'.command = some y) : st = .connect ∧ y = .helo := by
  rcases hevent with rfl | rfl <;> cases st <;> cases hx <;>
    simp [clientFsmStep, clientFsmTransTable] at h <;> subst h <;> cases hy
  exact ⟨rfl, rfl⟩

/-! ### Histories of a connection -/

section

variable {seg : List Entry} {event : ClientEvent} {x : Command} {whole : Bool}

@[simp] theorem commands_append (seg seg' : List Entry) :
    commands (seg ++ seg') = commands seg ++ commands seg' := by
  simp [commands]

@[simp] theorem commands_wrote (x : Command) (whole : Bool) :
    commands [.wrote x whole] = if whole then [x] else [] := by
  cases whole <;> rfl

@[simp] theorem commands_replied (event : ClientEvent) : commands [.replied event] = [] := rfl

theorem answered_concat : Answered (seg ++ [.replied event]) := by
  intro before x whole behind h
  rcases concat_eq_append_cons.mp h with ⟨-, -, heq⟩ | ⟨rest, rfl, -⟩
  · cases heq
  · exact ⟨event, by simp⟩

theorem commands_of_silent (h : ∀ x whole, .wrote x whole ∉ seg) : commands seg = [] := by
  refine List.filterMap_eq_nil_iff.mpr fun entry hentry => ?_
  cases entry with
  | wrote x whole => exact absurd hentry (h x whole)
  | connected | replied event => rfl

theorem inOrder_nil : InOrder [] := by
  refine ⟨⟨1, le_rfl, by simp [commands]⟩, ?_, ?_⟩ <;> simp

theorem InOrder.replied (h : InOrder seg) (event : ClientEvent) :
    InOrder (seg ++ [.replied event]) := by
  refine ⟨by simpa using h.script, fun before x whole behind heq => ?_,
    fun before behind heq => ?_⟩
  · rcases concat_eq_append_cons.mp heq with ⟨-, -, hlast⟩ | ⟨rest, rfl, hseg⟩
    · cases hlast
    · exact h.answered before x whole rest hseg
  · rcases concat_eq_append_cons.mp heq with ⟨rfl, -, -⟩ | ⟨rest, rfl, hseg⟩
    · simp
    · simpa using h.refused before rest hseg

theorem InOrder.wrote {n : ℕ} (h : InOrder seg) (hanswered : Answered seg)
    (haccepted : ∀ event, .replied event ∈ seg → event ≠ .error)
    (hcommands : commands seg = x.before n) : InOrder (seg ++ [.wrote x whole]) := by
  refine ⟨⟨n + 1, by omega, ?_⟩, fun before y whole' behind heq => ?_,
    fun before behind heq => ?_⟩
  · have hnext : commands (seg ++ [.wrote x whole]) <+: x.before n ++ [x] := by
      cases whole <;> simp [hcommands]
    exact hnext.trans (script_of_before n x)
  · rcases concat_eq_append_cons.mp heq with ⟨-, rfl, -⟩ | ⟨rest, rfl, hseg⟩
    · exact hanswered
    · exact h.answered before y whole' rest hseg
  · rcases concat_eq_append_cons.mp heq with ⟨-, -, hlast⟩ | ⟨rest, rfl, rfl⟩
    · cases hlast
    · exact absurd rfl (haccepted .error (by simp))

end

/-! ### Entries of a call -/

namespace Child

variable {c c' : Child} {j : ℕ} {k : WriteKernel} {r : Sending}

theorem filterMap_entryOf_sendAll (j : ℕ) (owner : Option ℕ) (writes : ℕ → Option ℕ) (n : ℕ)
    (data : List CStr) : (sendAll owner writes n data).2.filterMap (entryOf j) = [] := by
  induction data generalizing n with
  | nil => rfl
  | cons text rest ih =>
      have htext : (sendData owner text (writes n)).2.filterMap (entryOf j) = [] := by
        unfold sendData
        split <;> rfl
      simp [sendAll, htext, ih (n + 1)]

theorem entries_of_write (hw : Wrote k j r c c') : entries j c (.write j k) c' = c.written k j := by
  have htook : ∀ taken : Option CStr,
      (taken.toList.map fun path => Event.took j path r.dscrptr.buffer).filterMap (entryOf j) =
        [] := by
    rintro (_ | path) <;> rfl
  have hmoved : ∀ renamed : Option CStr,
      (renamed.toList.map fun path => Event.moved path (renameTarget path)).filterMap (entryOf j) =
        [] := by
    rintro (_ | path) <;> rfl
  have hsent : (c.transmit k r).2.filterMap (entryOf j) = [] := by
    unfold transmit
    cases r.early with
    | some code => rfl
    | none => exact filterMap_entryOf_sendAll _ _ _ _ _
  have hlog : (c'.log.drop c.log.length).filterMap (entryOf j) = [] := by
    rw [hw.log]
    simp only [applySending, List.append_assoc, List.drop_left, List.filterMap_append, htook,
      hmoved, hsent, List.append_nil]
  simp [entries, hlog]

theorem entries_of_read {results : List RecvResult} {reply : CStr} {st : ClientState}
    (hlog : c'.log = c.log ++ [.answered j st reply]) :
    entries j c (.read j results) c' = [.replied (checkServerCode reply)] := by
  simp [entries, hlog, entryOf]

theorem entries_of_register {path : CStr} {connected attempt : Option ℕ} {d : Dscrptr}
    (hreg : Registers path j attempt d c c') :
    entries j c (.register path connected) c' = if attempt = none then [] else [.connected] := by
  cases attempt <;> simp [entries, hreg.log, openSocket, record, entryOf]

@[simp] theorem sendAll_closed (writes : ℕ → Option ℕ) (n : ℕ) (data : List CStr) :
    (sendAll none writes n data).2 = [] := by
  induction data generalizing n with
  | nil => rfl
  | cons text rest ih => simp [sendAll, sendData, ih (n + 1)]

theorem sendAll_sent {owner : Option ℕ} {writes : ℕ → Option ℕ} {n : ℕ} {data : List CStr}
    (hdata : data ≠ []) (h : (sendAll owner writes n data).1 = .sent) :
    (sendAll owner writes n data).2 ≠ [] := by
  induction data generalizing n with
  | nil => exact absurd rfl hdata
  | cons text rest ih =>
      simp only [sendAll] at h ⊢
      split_ifs at h with hrest
      · have htext : (sendData owner text (writes n)).2 ≠ [] := by
          unfold sendData at h ⊢
          split at h <;> simp_all
        simp [htext]
      · simp [ih hrest h]

theorem sendCommand_data {d : Dscrptr} {hostName : CStr} {files : CStr → Option (List Char)}
    {place : Option CStr} {x : Command} (hx : d.state.command = some x)
    (h : d.sendCommand hostName files place = .ok r) : r.data ≠ [] := by
  unfold Dscrptr.sendCommand at h
  cases hst : d.state with
  | init | connect | invalid | done =>
      rw [hst] at hx
      cases hx
  | sendHelo | sendData | sendQuit =>
      simp only [hst] at h
      cases h
      simp
  | sendMailFrom =>
      simp only [hst] at h
      split at h
      · cases h
      · cases h
      · obtain ⟨buffer, -, h⟩ := bind_eq_ok.mp h
        obtain ⟨⟨text, place'⟩, -, h⟩ := bind_eq_ok.mp h
        cases h
        simp
  | sendRcptTo =>
      simp only [hst] at h
      obtain ⟨⟨text, place'⟩, -, h⟩ := bind_eq_ok.mp h
      cases h
      simp
  | sendBody =>
      simp only [hst] at h
      obtain ⟨⟨data, place'⟩, hbody, h⟩ := bind_eq_ok.mp h
      cases h
      unfold sendMsgBody at hbody
      split at hbody
      · cases hbody
      · cases hbody
        simp

/-! ### The session on a connection -/

/-- The session of slot `j` goes on from what happened on its open connection.
A command in `write_fds` is the next one, a command in `read_fds` the last
one. -/
structure Follows (j : ℕ) (c : Child) (seg : List Entry) : Prop where
  accepted : (c.dscrptrs j).state ≠ .done → ∀ event, .replied event ∈ seg → event ≠ .error
  silent : (c.dscrptrs j).state = .init ∨ (c.dscrptrs j).state = .connect →
    ∀ x whole, .wrote x whole ∉ seg
  sending : ∀ x, (c.dscrptrs j).state.command = some x → ∃ n,
    ((c.dscrptrs j).socketFd ∈ c.writeFds → Answered seg ∧ commands seg = x.before n) ∧
      ((c.dscrptrs j).socketFd ∈ c.readFds → commands seg = x.before n ++ [x])

/-- What holds of the slot of a registered domain, and of the history `seg` of
its last connection. -/
structure Standing (j : ℕ) (c : Child) (seg : List Entry) : Prop where
  inOrder : InOrder seg
  valid : (c.dscrptrs j).state ≠ .invalid
  list : 0 ≤ count (c.dscrptrs j).mailsList
  letter : (c.dscrptrs j).state.servesLetter → 0 < count (c.dscrptrs j).mailsList
  waiting : (c.dscrptrs j).state = .init → (c.sockets (c.dscrptrs j).socketFd).isSome →
    0 < count (c.dscrptrs j).mailsList
  follows : (c.sockets (c.dscrptrs j).socketFd).isSome → Follows j c seg

variable {seg : List Entry}

theorem follows_of_done (h : (c.dscrptrs j).state = .done) : Follows j c seg :=
  ⟨fun hne => absurd h hne, by simp [h], by simp [h, ClientState.command]⟩

theorem follows_nil (h : (c.dscrptrs j).state = .init ∨ (c.dscrptrs j).state = .connect) :
    Follows j c [] := by
  refine ⟨by simp, by simp, fun x hx => ?_⟩
  rcases h with h | h <;> simp [h, ClientState.command] at hx

theorem Standing.of_subset {mails : List (Option CStr)} (h : Standing j c seg)
    (hslot : c'.dscrptrs j = { c.dscrptrs j with mailsList := mails })
    (hmails : count (c.dscrptrs j).mailsList ≤ count mails) (hsockets : c'.sockets = c.sockets)
    (hreads : c'.readFds ⊆ c.readFds) (hwrites : c'.writeFds ⊆ c.writeFds) :
    Standing j c' seg := by
  refine ⟨h.inOrder, ?_, ?_, ?_, ?_, ?_⟩ <;> rw [hslot]
  · exact h.valid
  · exact h.list.trans hmails
  · exact fun hserves => (h.letter hserves).trans_le hmails
  · rw [hsockets]
    exact fun hst hopen => (h.waiting hst hopen).trans_le hmails
  · rw [hsockets]
    intro hopen
    obtain ⟨haccepted, hsilent, hsending⟩ := h.follows hopen
    refine ⟨by rwa [hslot], by rwa [hslot], fun x hx => ?_⟩
    rw [hslot] at hx ⊢
    obtain ⟨n, hwrite, hread⟩ := hsending x hx
    exact ⟨n, fun hmem => hwrite (hwrites hmem), fun hmem => hread (hreads hmem)⟩

/-! ### Writing -/

/-- Nothing is written, or text of the command that is next. -/
theorem written_cases
    (hr : (c.dscrptrs j).sendMsgToServer k.now c.conf.hostName c.files (c.placeAt k) = .ok r) :
    c.written k j = [] ∨ ∃ x, (c.dscrptrs j).state.command = some x ∧
      (c.transmit k r).2 ≠ [] ∧ c.written k j = [.wrote x ((c.transmit k r).1 = .sent)] := by
  cases hx : (c.dscrptrs j).state.command with
  | none => exact .inl (by simp [written, hx])
  | some x =>
      by_cases hevents : (c.transmit k r).2 = []
      · exact .inl (by simp [written, hx, hr, hevents])
      · exact .inr ⟨x, rfl, hevents, by simp [written, hx, hr, hevents]⟩

theorem open_of_transmit (h : (c.transmit k r).2 ≠ []) :
    (c.sockets r.dscrptr.socketFd).isSome := by
  unfold transmit at h
  cases hearly : r.early with
  | some code => simp [hearly] at h
  | none =>
      cases hsocket : c.sockets r.dscrptr.socketFd with
      | some owner => rfl
      | none => simp [hearly, hsocket, sendAll_closed] at h

theorem accepted_of_sent {x : Command} (hx : (c.dscrptrs j).state.command = some x)
    (hr : (c.dscrptrs j).sendMsgToServer k.now c.conf.hostName c.files (c.placeAt k) = .ok r)
    (hsent : (c.transmit k r).1 = .sent) : (c.transmit k r).2 ≠ [] := by
  have hearly := (Dscrptr.sendMsgToServer_ok hr).2
  have hnone : (((c.dscrptrs j).retry k.now).2 = none) := by
    rcases Dscrptr.retry_snd k.now (c.dscrptrs j) with hnone | hwaiting
    · exact hnone
    · simp [transmit, hearly, hwaiting] at hsent
  have hdata : r.data ≠ [] := by
    obtain ⟨canBeSend, hmsg⟩ := Dscrptr.sendMsgToServer_eq k.now (c.dscrptrs j)
    simp only [hmsg, hnone] at hr
    exact sendCommand_data (d := { c.dscrptrs j with canBeSend := canBeSend }) hx hr
  rw [transmit, hearly, hnone] at hsent ⊢
  exact sendAll_sent hdata hsent

/-- A command that is written is the last one, and its reply is waited for. -/
theorem Follows.sent (h : Follows j c seg) (hfd : (c.dscrptrs j).socketFd ∈ c.writeFds)
    (hok : c.handleWriteSocket k j = .ok c')
    (hr : (c.dscrptrs j).sendMsgToServer k.now c.conf.hostName c.files (c.placeAt k) = .ok r)
    (hslot : c'.dscrptrs j = r.dscrptr) (hsent : (c.transmit k r).1 = .sent) :
    Follows j c' (seg ++ c.written k j) := by
  have hprep := (Dscrptr.sendMsgToServer_ok hr).1
  have hunwatched : r.dscrptr.socketFd ∉ c'.writeFds := by simp [writeFds_of_write hr hok, hsent]
  refine ⟨?_, ?_, fun x hx => ?_⟩
  · rw [hslot, hprep.state]
    intro hne event hmem
    rcases List.mem_append.mp hmem with hmem | hmem
    · exact h.accepted hne event hmem
    · rcases written_cases hr with hnone | ⟨x, -, -, hwrote⟩
      · simp [hnone] at hmem
      · simp [hwrote] at hmem
  · rw [hslot, hprep.state]
    intro hst
    have hcommand : (c.dscrptrs j).state.command = none := by
      rcases hst with hst | hst <;> rw [hst] <;> rfl
    have hnone : c.written k j = [] := by simp [written, hcommand]
    rw [hnone, List.append_nil]
    exact h.silent hst
  · rw [hslot, hprep.state] at hx
    obtain ⟨n, hnext, -⟩ := h.sending x hx
    have hwrote : c.written k j = [.wrote x true] := by
      simp [written, hx, hr, accepted_of_sent hx hr hsent, hsent]
    rw [hslot, hwrote]
    exact ⟨n, fun hmem => absurd hmem hunwatched, fun _ => by simp [(hnext hfd).2]⟩

theorem Follows.waiting (h : Follows j c seg) (hfd : (c.dscrptrs j).socketFd ∈ c.writeFds)
    (hr : (c.dscrptrs j).sendMsgToServer k.now c.conf.hostName c.files (c.placeAt k) = .ok r)
    (hw : Wrote k j r c c') (hsent : (c.transmit k r).1 ≠ .sent)
    (hcode : (c.transmit k r).1 ≠ .failed) : Follows j c' (seg ++ c.written k j) := by
  obtain ⟨hprep, hearly⟩ := Dscrptr.sendMsgToServer_ok hr
  have hslot : c'.dscrptrs j = r.dscrptr := by rw [hw.dscrptrs, Function.update_self]
  have hwaiting : r.early = some .waiting := by
    rcases transmit_fst k r c with hcode' | ⟨-, hcode' | hcode'⟩
    · rw [hearly] at hcode' ⊢
      rcases Dscrptr.retry_snd k.now (c.dscrptrs j) with hretry | hretry
      · rw [hretry] at hcode'
        cases hcode'
      · exact hretry
    · exact absurd hcode' hsent
    · exact absurd hcode' hcode
  have hnone : c.written k j = [] := by
    rcases written_cases hr with hnone | ⟨x, -, hevents, -⟩
    · exact hnone
    · simp [transmit, hwaiting] at hevents
  have hreads : c'.readFds = c.readFds := by rw [hw.readFds, if_neg hsent]
  obtain ⟨haccepted, hsilent, hsending⟩ := h
  rw [hnone, List.append_nil]
  refine ⟨by rwa [hslot, hprep.state], by rwa [hslot, hprep.state], fun x hx => ?_⟩
  rw [hslot, hprep.state] at hx
  obtain ⟨n, hnext, hlast⟩ := hsending x hx
  rw [hslot, hprep.socketFd, hreads]
  exact ⟨n, fun _ => hnext hfd, hlast⟩

theorem Standing.write (hc : Standing j c seg) (hfd : (c.dscrptrs j).socketFd ∈ c.writeFds)
    (h : c.handleWriteSocket k j = .ok c') : Standing j c' (seg ++ c.written k j) := by
  obtain ⟨r, hr, hw⟩ := handleWriteSocket_ok h
  have hprep := (Dscrptr.sendMsgToServer_ok hr).1
  have hslot : c'.dscrptrs j = r.dscrptr := by rw [hw.dscrptrs, Function.update_self]
  have hinOrder : InOrder (seg ++ c.written k j) := by
    rcases written_cases hr with hnone | ⟨x, hx, hevents, hwrote⟩
    · rw [hnone, List.append_nil]
      exact hc.inOrder
    · have hopen := open_of_transmit hevents
      rw [hprep.socketFd] at hopen
      obtain ⟨haccepted, -, hsending⟩ := hc.follows hopen
      obtain ⟨n, hnext, -⟩ := hsending x hx
      obtain ⟨hanswered, hcommands⟩ := hnext hfd
      have hne : (c.dscrptrs j).state ≠ .done := fun hdone => by
        simp [hdone, ClientState.command] at hx
      rw [hwrote]
      exact hc.inOrder.wrote hanswered (haccepted hne) hcommands
  refine ⟨hinOrder, ?_, ?_, ?_, ?_, ?_⟩
  · rw [hslot, hprep.state]
    exact hc.valid
  · rw [hslot, hprep.mailsList]
    exact hc.list
  · rw [hslot, hprep.mailsList, hprep.state]
    exact hc.letter
  · rw [hslot, hprep.mailsList, hprep.state, hprep.socketFd, hw.sockets]
    intro hst hopen
    refine hc.waiting hst ?_
    split_ifs at hopen
    · simp [hprep.socketFd] at hopen
    · exact hopen
  · rw [hslot, hprep.socketFd, hw.sockets, hprep.socketFd]
    intro hopen
    have hcode : (c.transmit k r).1 ≠ .failed := fun hfailed => by simp [hfailed] at hopen
    rw [if_neg hcode] at hopen
    by_cases hsent : (c.transmit k r).1 = .sent
    · exact (hc.follows hopen).sent hfd h hr hslot hsent
    · exact (hc.follows hopen).waiting hfd hr hw hsent hcode

/-! ### Reading -/

theorem count_removeFirst {mails mails' : List (Option CStr)}
    (h : removeFirst mails = .ok mails') (hpos : 0 < count mails) : 0 ≤ count mails' := by
  unfold removeFirst at h
  split at h
  · simp [count] at hpos
  · cases h
  · cases h
    simp only [count, List.length_cons] at hpos ⊢
    omega

/-- A reply leaves the descriptor `d`, which goes on from what was written. -/
theorem Standing.of_reply {d : Dscrptr} {reply : CStr} {event : ClientEvent}
    (hc : Standing j c seg) (hvalid : d.state ≠ .invalid) (hlist : 0 ≤ count d.mailsList)
    (hletter : d.state.servesLetter → 0 < count d.mailsList)
    (haccepted : d.state ≠ .done → d.state ≠ .init →
      event ≠ .error ∧ ∀ event, .replied event ∈ seg → event ≠ .error)
    (hsilent : d.state = .connect → ∀ x whole, .wrote x whole ∉ seg)
    (hsending : ∀ x, d.state.command = some x → ∃ n, commands seg = x.before n) :
    Standing j (((c.setDscrptr j d).record
      [.answered j (c.dscrptrs j).state reply]).afterReply d) (seg ++ [.replied event]) := by
  have hslot : (((c.setDscrptr j d).record
      [.answered j (c.dscrptrs j).state reply]).afterReply d).dscrptrs j = d := by
    simp [afterReply, record, setDscrptr]
  have hclosed : d.state = .init → ¬((((c.setDscrptr j d).record
      [.answered j (c.dscrptrs j).state reply]).afterReply d).sockets d.socketFd).isSome := by
    intro hst
    simp [afterReply, hst]
  refine ⟨hc.inOrder.replied event, by rwa [hslot], by rwa [hslot], by rwa [hslot], ?_, ?_⟩
  · rw [hslot]
    exact fun hst hopen => absurd hopen (hclosed hst)
  · rw [hslot]
    intro hopen
    have hne : d.state ≠ .init := fun hst => hclosed hst hopen
    refine ⟨?_, ?_, ?_⟩
    · rw [hslot]
      intro hdone event' hmem
      obtain ⟨hevent, hseg⟩ := haccepted hdone hne
      rcases List.mem_append.mp hmem with hmem | hmem
      · exact hseg event' hmem
      · obtain rfl : event' = event := by simpa using hmem
        exact hevent
    · rw [hslot]
      rintro (hst | hst) x whole hmem
      · exact hne hst
      · exact hsilent hst x whole (by simpa using hmem)
    · rw [hslot]
      intro x hx
      obtain ⟨n, hcommands⟩ := hsending x hx
      refine ⟨n, fun _ => ⟨answered_concat, by simpa using hcommands⟩, fun hmem => ?_⟩
      exact absurd hmem (Finset.notMem_erase _ _)

/-- A reply that leads on into the session was positive, and a session that is
led on to a letter had one. -/
theorem clientFsmStep_onward {st st' : ClientState} {event : ClientEvent}
    (hevent : event = .ok ∨ event = .error ∨ event = .commandNotImplemented)
    (h : clientFsmStep st event = .ok st') :
    st' ≠ .invalid ∧ (st' ≠ .done → st' ≠ .init → event = .ok ∧ st ≠ .done) ∧
      (st'.servesLetter = true → st = .init ∨ st.servesLetter = true) ∧
        (st' = .connect → st = .init) := by
  rcases hevent with rfl | rfl | rfl <;> cases st <;>
    simp [clientFsmStep, clientFsmTransTable] at h <;> subst h <;> simp [ClientState.servesLetter]

theorem Follows.next {event : ClientEvent} {st : ClientState} {y : Command} (h : Follows j c seg)
    (hfd : (c.dscrptrs j).socketFd ∈ c.readFds)
    (hstep : clientFsmStep (c.dscrptrs j).state event = .ok st)
    (hgood : event = .ok ∨ event = .multipleEmails) (hy : st.command = some y) :
    ∃ n, commands seg = y.before n := by
  cases hx : (c.dscrptrs j).state.command with
  | some x =>
      obtain ⟨n, -, hlast⟩ := h.sending x hx
      obtain ⟨m, hm⟩ := before_of_step n hstep hx hy hgood
      exact ⟨m, (hlast hfd).trans hm⟩
  | none =>
      obtain ⟨hst, rfl⟩ := greeted_of_step hstep hgood hx hy
      exact ⟨0, commands_of_silent (h.silent (.inr hst))⟩

theorem Standing.read {results : List RecvResult} (hc : Standing j c seg)
    (hfd : (c.dscrptrs j).socketFd ∈ c.readFds) (h : c.handleReadSocket results j = .ok c') :
    ∃ reply st, c'.log = c.log ++ [.answered j st reply] ∧
      Standing j c' (seg ++ [.replied (checkServerCode reply)]) := by
  obtain ⟨reply, d, hreceive, hd, rfl⟩ := handleReadSocket_ok.mp h
  refine ⟨reply, (c.dscrptrs j).state, rfl, ?_⟩
  have hopen : (c.sockets (c.dscrptrs j).socketFd).isSome := by
    by_contra hclosed
    simp [receive, hclosed] at hreceive
  have hfollows := hc.follows hopen
  have hevent := checkServerCode_cases reply
  rcases Dscrptr.advance_ok hd with
    ⟨hst, hpos, mails, st, hmails, hstep, rfl⟩ | ⟨hne, st, hstep, rfl⟩
  · -- the letter is sent
    have hcount := count_removeFirst hmails (hc.letter (by rw [hst]; rfl))
    have hseg := hfollows.accepted (by simp [hst])
    obtain ⟨hcase, hgood⟩ := clientFsmStep_sendBody reply hpos hstep
    rw [← hst] at hstep
    have hnext : ∀ y, st.command = some y → ∃ n, commands seg = y.before n :=
      fun y => hfollows.next hfd hstep hgood
    refine hc.of_reply ?_ hcount ?_ (fun _ _ => ⟨hpos, hseg⟩) ?_ hnext
    · rcases hcase with ⟨rfl, -⟩ | rfl <;> simp
    · rcases hcase with ⟨rfl, hmore⟩ | rfl
      · exact fun _ => hmore
      · rintro ⟨⟩
    · rcases hcase with ⟨rfl, -⟩ | rfl <;> simp
  · obtain ⟨hvalid, honward, hletter, hconnect⟩ := clientFsmStep_onward hevent hstep
    refine hc.of_reply hvalid hc.list (fun hserves => ?_) (fun hdone hinit => ?_)
      (fun hst => hfollows.silent (.inl (hconnect hst))) fun y hy => ?_
    · rcases hletter hserves with hst | hst
      · exact hc.waiting hst hopen
      · exact hc.letter hst
    · obtain ⟨hok, hst⟩ := honward hdone hinit
      exact ⟨by simp [hok], hfollows.accepted hst⟩
    · have hne : st ≠ .done ∧ st ≠ .init := by
        constructor <;> rintro rfl <;> cases hy
      exact hfollows.next hfd hstep (.inl (honward hne.1 hne.2).1) hy

/-! ### Registering -/

/-- A session that rests is connected anew, or finished. -/
theorem initConn_of_rests {connected : Option ℕ} {d d' : Dscrptr}
    (hst : d.state = .init ∨ d.state = .sendQuit ∨ d.state = .done)
    (h : d.initConn connected = .ok d') :
    (connected = none ∧ d'.state = .done) ∨
      (connected ≠ none ∧ (d'.state = .init ∨ d'.state = .connect)) := by
  rcases Dscrptr.initConn_cases h with ⟨hnone, hdone, -⟩ | ⟨fd, hfd, hok, -⟩
  · exact .inl ⟨hnone, hdone⟩
  · refine .inr ⟨by simp [hfd], ?_⟩
    rcases hst with hst | hst | hst <;> simp [hst, clientFsmStep, clientFsmTransTable] at hok <;>
      simp [← hok]

theorem Registers.standing {path : CStr} {attempt : Option ℕ} {d : Dscrptr}
    (hreg : Registers path j attempt d c c') (hinOrder : InOrder seg)
    (hlist : 0 ≤ count d.mailsList)
    (hst : d.state = .done ∨ (seg = [] ∧ (d.state = .init ∨ d.state = .connect))) :
    Standing j c' seg := by
  have hslot : c'.dscrptrs j = d.enqueue path := hreg.slot
  rcases hst with hst | ⟨rfl, hst⟩
  · obtain ⟨hstate, hmails⟩ := Dscrptr.enqueue_of_done path hst
    refine ⟨hinOrder, ?_, ?_, ?_, ?_, fun _ => follows_of_done (hslot ▸ hstate)⟩
    · simp [hslot, hstate]
    · rwa [hslot, hmails]
    · simp [hslot, hstate, ClientState.servesLetter]
    · simp [hslot, hstate]
  · have hne : d.state ≠ .done := by rcases hst with hst | hst <;> simp [hst]
    have hstate : (c'.dscrptrs j).state = d.state := by
      rw [hslot, Dscrptr.enqueue_of_ne_done hne]
    have hcount : 0 < count (c'.dscrptrs j).mailsList := by
      rw [hslot, Dscrptr.enqueue_of_ne_done hne]
      simp only [count, addFirst, List.length_cons] at hlist ⊢
      omega
    refine ⟨hinOrder, ?_, hcount.le, fun _ => hcount, fun _ _ => hcount, fun _ => ?_⟩
    · rw [hstate]
      rcases hst with hst | hst <;> simp [hst]
    · exact follows_nil (by rwa [hstate])

theorem Standing.register {path domain : CStr} {connected attempt : Option ℕ} {d : Dscrptr}
    (hc : Standing j c seg) (hj : j < c.readyDomainsCount)
    (hreach : Reaches connected domain c j attempt d) (hreg : Registers path j attempt d c c') :
    Standing j c' (if attempt = none then seg else []) := by
  rcases hreach.known hj with ⟨hidle, rfl, hd⟩ | ⟨hbusy, rfl, rfl⟩
  · -- a letter being served would be in the list
    have hrests : (c.dscrptrs j).state = .init ∨ (c.dscrptrs j).state = .sendQuit ∨
        (c.dscrptrs j).state = .done := by
      have hletter := hc.letter
      have hvalid := hc.valid
      rcases hidle with hcount | hst
      · rw [hcount] at hletter
        cases hst : (c.dscrptrs j).state <;>
          simp [hst, ClientState.servesLetter] at hletter hvalid ⊢
      · exact .inl hst
    have hlist : 0 ≤ count d.mailsList := by
      rw [(Dscrptr.initConn_kept hd).2]
      exact hc.list
    rcases initConn_of_rests hrests hd with ⟨rfl, hdone⟩ | ⟨hsome, hst⟩
    · exact hreg.standing hc.inOrder hlist (.inl hdone)
    · rw [if_neg hsome]
      exact hreg.standing inOrder_nil hlist (.inr ⟨rfl, hst⟩)
  · by_cases hdone : (c.dscrptrs j).state = .done
    · exact hreg.standing hc.inOrder hc.list (.inl hdone)
    · have hslot : c'.dscrptrs j =
          { c.dscrptrs j with mailsList := addFirst path (c.dscrptrs j).mailsList } := by
        rw [hreg.slot, Dscrptr.enqueue_of_ne_done hdone]
      refine hc.of_subset hslot ?_ hreg.sockets ?_ ?_
      · simp only [count, addFirst, List.length_cons]
        omega
      · rw [hreg.readFds, if_neg hdone]
        exact Finset.Subset.refl _
      · rw [hreg.writeFds]

/-- A registration reaches the slot of the domain, and goes on with its
connection or begins a new one. -/
theorem standing_of_register {domain : CStr} {path : CStr} {connected attempt : Option ℕ} {i : ℕ}
    {d : Dscrptr} {cur : List Entry} (hfiled : c.Filed) (hcur : InOrder cur)
    (hslot : (j < c.readyDomainsCount ∧ (c.dscrptrs j).domain = domain ∧ Standing j c cur) ∨
      (j = c.readyDomainsCount ∧ (c.dscrptrs j).state = .init ∧
        ∀ i < c.readyDomainsCount, (c.dscrptrs i).domain ≠ domain))
    (hreach : Reaches connected domain c i attempt d) (hreg : Registers path i attempt d c c') :
    j = i ∧ Standing i c' (if attempt = none then cur else []) := by
  rcases hslot with ⟨hj, hdomain, hstanding⟩ | ⟨rfl, hst, hnew⟩
  · obtain ⟨-, -, hunique, -⟩ := hreach.filed hfiled
    obtain rfl : j = i := hunique j hj hdomain
    exact ⟨rfl, hstanding.register hj hreach hreg⟩
  · cases hreach with
    | fresh _ hconn =>
        refine ⟨rfl, ?_⟩
        rcases initConn_of_rests (d := c.nextDscrptr domain) (.inl hst) hconn with
          ⟨rfl, hdone⟩ | ⟨hsome, hst⟩
        · exact hreg.standing hcur (by simp [count]) (.inl hdone)
        · rw [if_neg hsome]
          exact hreg.standing inOrder_nil (by simp [count]) (.inr ⟨rfl, hst⟩)
    | reopened hi hdomain => exact absurd hdomain (hnew _ hi)
    | busy hi hdomain => exact absurd hdomain (hnew _ hi)

/-! ### The run -/

/-- Every connection so far went in order, and the last one is the session's
present one. -/
structure Orderly (j : ℕ) (domain : CStr) (x : Child × List Entry) : Prop where
  filed : x.1.Filed
  order : ∃ closed cur, connections x.2 = closed ++ [cur] ∧ (∀ seg ∈ closed, InOrder seg) ∧
    InOrder cur ∧
      ((j < x.1.readyDomainsCount ∧ (x.1.dscrptrs j).domain = domain ∧ Standing j x.1 cur) ∨
        (j = x.1.readyDomainsCount ∧ (x.1.dscrptrs j).state = .init ∧
          ∀ i < x.1.readyDomainsCount, (x.1.dscrptrs i).domain ≠ domain))

theorem connections_append_connected {hist : List Entry} :
    connections (hist ++ [.connected]) = connections hist ++ [[]] :=
  List.splitOnP_append_cons hist [] (by simp)

theorem Starting.orderly {domain : CStr} (h : Starting j domain c) : Orderly j domain (c, []) := by
  refine ⟨h.filed, [], [], rfl, by simp, inOrder_nil, ?_⟩
  rcases h.slot with ⟨hj, hdomain, hlist, hwaiting⟩ | ⟨hj, hnew⟩
  · refine .inl ⟨hj, hdomain, inOrder_nil, ?_, hlist, ?_, fun _ => hwaiting,
      fun _ => follows_nil (.inl h.state)⟩
    · simp [h.state]
    · simp [h.state, ClientState.servesLetter]
  · exact .inr ⟨hj, h.state, hnew⟩

theorem Orderly.step {domain : CStr} {hist : List Entry} {op : Op} (hc : Orderly j domain (c, hist))
    (hop : Dispatched j domain c op) (h : c.step op = .ok c') :
    Orderly j domain (c', hist ++ entries j c op c') := by
  obtain ⟨hfiled, closed, cur, hsplit, hclosed, hcur, hslot⟩ := hc
  refine ⟨hfiled.step op h, ?_⟩
  cases op with
  | register path connected =>
      obtain ⟨dom, i, attempt, d, hdom, hreach, hreg⟩ := registerNewEmail_ok h
      obtain rfl : domain = dom := Except.ok.inj (hop.symm.trans hdom)
      obtain ⟨hd, -⟩ := hreach.filed hfiled
      obtain ⟨rfl, hstanding⟩ := standing_of_register hfiled hcur hslot hreach hreg
      have hready : j < c'.readyDomainsCount := hreg.ready_self
      have hdomain : (c'.dscrptrs j).domain = domain := by
        rw [hreg.slot, Dscrptr.enqueue_domain, hd]
      rw [entries_of_register hreg]
      split_ifs at hstanding ⊢ with hnone
      · rw [List.append_nil]
        exact ⟨closed, cur, hsplit, hclosed, hcur, .inl ⟨hready, hdomain, hstanding⟩⟩
      · refine ⟨closed ++ [cur], [], ?_, ?_, inOrder_nil, .inl ⟨hready, hdomain, hstanding⟩⟩
        · rw [connections_append_connected, hsplit]
        · simpa [or_imp, forall_and] using ⟨hclosed, hcur⟩
  | write i k =>
      obtain ⟨rfl, hi, hfd⟩ := hop
      rcases hslot with ⟨-, hdomain, hstanding⟩ | ⟨rfl, -⟩
      · obtain ⟨r, hr, hw⟩ := handleWriteSocket_ok h
        have hafter := hstanding.write hfd h
        rw [entries_of_write hw]
        refine ⟨closed, cur ++ c.written k i, splitOnP_append_of_neg ?_ hsplit, hclosed,
          hafter.inOrder, .inl ⟨?_, (hfiled.domain_kept hi h).trans hdomain, hafter⟩⟩
        · intro entry hentry
          rcases written_cases hr with hnone | ⟨x, -, -, hwrote⟩
          · simp [hnone] at hentry
          · simp only [hwrote, List.mem_singleton] at hentry
            simp [hentry]
        · rwa [hw.ready]
      · exact absurd hi (lt_irrefl _)
  | read i results =>
      obtain ⟨rfl, hi, hfd⟩ := hop
      rcases hslot with ⟨-, hdomain, hstanding⟩ | ⟨rfl, -⟩
      · obtain ⟨reply, st, hlog, hafter⟩ := hstanding.read hfd h
        rw [entries_of_read hlog]
        refine ⟨closed, _, splitOnP_append_of_neg (by simp) hsplit, hclosed, hafter.inOrder,
          .inl ⟨?_, (hfiled.domain_kept hi h).trans hdomain, hafter⟩⟩
        obtain ⟨_, _, -, -, rfl⟩ := handleReadSocket_ok.mp h
        exact hi
      · exact absurd hi (lt_irrefl _)
  | select readReady writeReady exceptReady =>
      cases h
      refine ⟨closed, cur, by simpa [entries] using hsplit, hclosed, hcur, ?_⟩
      rcases hslot with ⟨hj, hdomain, hstanding⟩ | hnew
      · refine .inl ⟨hj, hdomain, ?_⟩
        exact hstanding.of_subset rfl le_rfl rfl Finset.inter_subset_left Finset.inter_subset_left
      · exact .inr hnew

/-- Commands in order. On every connection of a session that starts at its
beginning, the commands written are a script or the beginning of one, each is
written when the one before it is answered, and none after a refusal. -/
theorem commands_in_order {domain : CStr} {ops : List Op} {hist : List Entry}
    (hstart : Starting j domain c) (hops : Guarded step (Dispatched j domain) c ops)
    (hrun : run (logged step (entries j)) (c, []) ops = .ok (c', hist)) :
    ∀ seg ∈ connections hist, InOrder seg := by
  have horderly : Orderly j domain (c', hist) := by
    refine run_invariant (fun x op x' hx hop hstep => ?_) hstart.orderly
      (guarded_logged hops []) hrun
    obtain ⟨hok, hhist⟩ := logged_eq_ok.mp hstep
    have hnext := Orderly.step hx hop hok
    rwa [← hhist] at hnext
  obtain ⟨-, closed, cur, hsplit, hclosed, hcur, -⟩ := horderly
  rw [hsplit]
  simpa [or_imp, forall_and] using ⟨hclosed, hcur⟩

def sampleWhole : List Op :=
  sampleSession ++ [.read 0 (sampleReply "250"), .write 0 sampleWrites,
    .read 0 (sampleReply "221")]

theorem commands_in_order_sample : ∃ c' hist,
    run (logged step (entries 0)) (sampleChild, []) sampleWhole = .ok (c', hist) ∧
      commands hist = script 1 ∧ ∀ seg ∈ connections hist, InOrder seg := by
  have hstart : Starting 0 "a.b".toList sampleChild :=
    ⟨filed_boot _ _ _, rfl, .inr ⟨rfl, fun i hi => absurd hi (Nat.not_lt_zero i)⟩⟩
  have hops : Along step (Dispatched 0 "a.b".toList) sampleChild sampleWhole := by decide +kernel
  have hcommands : (run (logged step (entries 0)) (sampleChild, []) sampleWhole).map
      (fun x => commands x.2) = .ok (script 1) := by
    decide +kernel
  cases hrun : run (logged step (entries 0)) (sampleChild, []) sampleWhole with
  | error halt =>
      rw [hrun] at hcommands
      cases hcommands
  | ok x =>
      rw [hrun] at hcommands
      exact ⟨x.1, x.2, rfl, Except.ok.inj hcommands, commands_in_order hstart hops.guarded hrun⟩

end Child

end SmtpProj.Client
