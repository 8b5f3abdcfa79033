import SmtpProj.Client.Order

/-!
When a command is tried again, and when its domain is given up.

`send_msg_to_server` looks at the clock if `last_attempt_time` is set, and tells
`handle_write_socket` to go on, to wait or to give up. It asks whether the total
time is over by comparing `total_send_time` with itself, so that no descriptor
is ever given up: what is left is to wait or to send, by `retry_time` alone.
-/

namespace SmtpProj.Client

open Lib

/-! ### What is sent -/

def Event.isSent : Event → Bool
  | .sent _ _ => true
  | .connected _ | .took _ _ _ | .moved _ _ | .answered _ _ _ => false

def accepted (log : List Event) : List Event := log.filter Event.isSent

namespace Dscrptr

def elapsed (now : ℤ) (d : Dscrptr) : ℤ := now - d.lastAttemptTime

def HasToken (text : Option CStr) : Prop := ∃ t, text = some t ∧ tokens '\n' t ≠ []

/-- What the command of the state is made of is there. A letter that does not
open leaves `strtok` in the text it was in. -/
def Supplied (files : CStr → Option (List Char)) (place : Option CStr) (d : Dscrptr) : Prop :=
  match d.state with
  | .sendMailFrom => ∃ path mails, d.mailsList = some path :: mails ∧ files path ≠ some [] ∧
      HasToken (((files path).map upToNul).or place)
  | .sendRcptTo => HasToken place
  | .sendBody => place ≠ none
  | .sendHelo | .sendData | .sendQuit | .init | .connect | .invalid | .done => True

end Dscrptr

namespace Child

/-- What is asked of a call of `handle_write_socket` on a descriptor that was
tried before. -/
structure Retried (k : WriteKernel) (j : ℕ) (c : Child) : Prop where
  /-- The total time is over. -/
  late : (c.dscrptrs j).totalSendTime < (c.dscrptrs j).elapsed k.now →
    ∃ c', c.handleWriteSocket k j = .ok c' ∧ accepted c'.log = accepted c.log ∧
      (c'.dscrptrs j).state = .done ∧ (c.dscrptrs j).socketFd ∉ c'.writeFds
  /-- It is not, and it is too early to try again. -/
  early : (c.dscrptrs j).elapsed k.now ≤ (c.dscrptrs j).totalSendTime →
    (c.dscrptrs j).elapsed k.now < (c.dscrptrs j).retryTime →
    ∃ c', c.handleWriteSocket k j = .ok c' ∧ accepted c'.log = accepted c.log ∧
      (c'.dscrptrs j).state = (c.dscrptrs j).state ∧ c'.writeFds = c.writeFds
  /-- The texts of the command of the state are handed to the socket. -/
  due : (c.dscrptrs j).elapsed k.now ≤ (c.dscrptrs j).totalSendTime →
    (c.dscrptrs j).retryTime ≤ (c.dscrptrs j).elapsed k.now →
    ∃ r c', (c.dscrptrs j).sendCommand c.conf.hostName c.files (c.placeAt k) = .ok r ∧
      c.handleWriteSocket k j = .ok c' ∧ accepted c'.log = accepted c.log ++
        (sendAll (c.sockets (c.dscrptrs j).socketFd) k.writes 0 r.data).2

end Child

/-! ### The clock -/

namespace Dscrptr

variable {d : Dscrptr} {now : ℤ}

theorem retry_of_early (hattempt : d.lastAttemptTime ≠ 0) (h : d.elapsed now < d.retryTime) :
    d.retry now = (d, some .waiting) := by
  unfold elapsed at h
  unfold retry
  rw [if_pos hattempt, if_neg (by omega), if_neg (lt_irrefl _)]

theorem retry_of_due (hattempt : d.lastAttemptTime ≠ 0) (h : d.retryTime ≤ d.elapsed now) :
    d.retry now = ({ d with canBeSend := 1 }, none) := by
  unfold elapsed at h
  unfold retry
  rw [if_pos hattempt, if_pos ⟨by omega, le_rfl⟩]

/-! ### The command -/

variable {hostName : CStr} {files : CStr → Option (List Char)} {place : Option CStr} {r : Sending}

theorem sendCommand_canBeSend (canBeSend : ℤ)
    (h : d.sendCommand hostName files place = .ok r) :
    ({ d with canBeSend := canBeSend } : Dscrptr).sendCommand hostName files place =
      .ok { r with dscrptr := { r.dscrptr with canBeSend := canBeSend } } := by
  unfold sendCommand at h ⊢
  cases hst : d.state with
  | sendMailFrom =>
      simp only [hst] at h ⊢
      split at h
      · cases h
      · cases h
      next path mails hmails =>
        obtain ⟨buffer, hbuffer, h⟩ := bind_eq_ok.mp h
        obtain ⟨⟨text, place'⟩, htext, h⟩ := bind_eq_ok.mp h
        cases h
        simp [hmails, hbuffer, htext, bind, Except.bind]
  | sendRcptTo =>
      simp only [hst] at h ⊢
      obtain ⟨⟨text, place'⟩, htext, h⟩ := bind_eq_ok.mp h
      cases h
      simp [htext, hst, bind, Except.bind]
  | sendBody =>
      simp only [hst] at h ⊢
      obtain ⟨⟨data, place'⟩, hdata, h⟩ := bind_eq_ok.mp h
      cases h
      simp [hdata, hst, bind, Except.bind]
  | sendHelo | sendData | sendQuit | init | connect | invalid | done =>
      simp only [hst] at h ⊢
      cases h
      rw [hst]

theorem hasToken_iff {str : Option CStr} :
    HasToken (str.or place) ↔ ∃ token rest, strtok place str = .ok (some token, rest) := by
  constructor
  · rintro ⟨text, htext, hne⟩
    obtain ⟨token, rest, htokens⟩ := List.exists_cons_of_ne_nil hne
    obtain ⟨place', hnext, -⟩ := nextToken_of_tokens htokens
    exact ⟨token, place', by simp [strtok, htext, hnext]⟩
  · rintro ⟨token, rest, h⟩
    obtain ⟨text, htext, htokens⟩ := strtok_ok h
    exact ⟨text, htext, by simp [htokens]⟩

theorem sendMailFrom_ok_iff {msg : Option CStr} :
    (∃ text place', sendMailFrom place msg = .ok (text, place')) ↔ HasToken (msg.or place) := by
  rw [hasToken_iff]
  constructor
  · rintro ⟨text, place', h⟩
    obtain ⟨⟨token, rest⟩, htoken, h⟩ := bind_eq_ok.mp h
    cases token with
    | none => cases h
    | some token => exact ⟨token, rest, htoken⟩
  · rintro ⟨token, rest, h⟩
    exact ⟨_, rest, by simp only [sendMailFrom, h, bind, Except.bind]; rfl⟩

theorem sendRcptTo_ok_iff {msg : Option CStr} :
    (∃ text place', sendRcptTo place msg = .ok (text, place')) ↔ HasToken place := by
  rw [show HasToken place = HasToken ((none : Option CStr).or place) from rfl, hasToken_iff]
  constructor
  · rintro ⟨text, place', h⟩
    obtain ⟨⟨token, rest⟩, htoken, h⟩ := bind_eq_ok.mp h
    cases token with
    | none => cases h
    | some token => exact ⟨token, rest, htoken⟩
  · rintro ⟨token, rest, h⟩
    exact ⟨_, rest, by simp only [sendRcptTo, h, bind, Except.bind]; rfl⟩

theorem sendMsgBody_ok_iff :
    (∃ data place', sendMsgBody place = .ok (data, place')) ↔ place ≠ none := by
  cases place with
  | none => simp [sendMsgBody]
  | some text => simp [sendMsgBody]

/-- An empty letter passes for a failed read. -/
theorem readMsgFile_ok_iff {file : Option (List Char)} {buffer : Option CStr} :
    readMsgFile file = .ok buffer ↔ file ≠ some [] ∧ buffer = file.map upToNul := by
  cases file with
  | none => simp [readMsgFile, eq_comm]
  | some content => cases content <;> simp [readMsgFile, eq_comm]

theorem sendCommand_ok_iff :
    (∃ r, d.sendCommand hostName files place = .ok r) ↔ d.Supplied files place := by
  unfold sendCommand Supplied
  cases hst : d.state with
  | sendMailFrom =>
      simp only
      constructor
      · rintro ⟨r, h⟩
        split at h
        · cases h
        · cases h
        next path mails hmails =>
          obtain ⟨buffer, hbuffer, h⟩ := bind_eq_ok.mp h
          obtain ⟨⟨text, place'⟩, htext, -⟩ := bind_eq_ok.mp h
          obtain ⟨hne, rfl⟩ := readMsgFile_ok_iff.mp hbuffer
          exact ⟨path, mails, hmails, hne, sendMailFrom_ok_iff.mp ⟨text, place', htext⟩⟩
      · rintro ⟨path, mails, hmails, hne, htoken⟩
        obtain ⟨text, place', htext⟩ := sendMailFrom_ok_iff.mpr htoken
        simp [hmails, readMsgFile_ok_iff.mpr ⟨hne, rfl⟩, htext, bind, Except.bind]
  | sendRcptTo =>
      simp only
      constructor
      · rintro ⟨r, h⟩
        obtain ⟨⟨text, place'⟩, htext, -⟩ := bind_eq_ok.mp h
        exact sendRcptTo_ok_iff.mp ⟨text, place', htext⟩
      · intro htoken
        have hok : ∃ text place', sendRcptTo place d.buffer = .ok (text, place') :=
          sendRcptTo_ok_iff.mpr htoken
        obtain ⟨text, place', htext⟩ := hok
        simp [htext, bind, Except.bind]
  | sendBody =>
      simp only
      constructor
      · rintro ⟨r, h⟩
        obtain ⟨⟨data, place'⟩, hdata, -⟩ := bind_eq_ok.mp h
        exact sendMsgBody_ok_iff.mp ⟨data, place', hdata⟩
      · intro hplace
        obtain ⟨data, place', hdata⟩ := sendMsgBody_ok_iff.mpr hplace
        simp [hdata, bind, Except.bind]
  | sendHelo | sendData | sendQuit | init | connect | invalid | done => simp

end Dscrptr

/-! ### The log -/

@[simp] theorem accepted_append (log log' : List Event) :
    accepted (log ++ log') = accepted log ++ accepted log' := by
  simp [accepted]

theorem accepted_sendAll (owner : Option ℕ) (writes : ℕ → Option ℕ) (n : ℕ) (data : List CStr) :
    accepted (sendAll owner writes n data).2 = (sendAll owner writes n data).2 := by
  induction data generalizing n with
  | nil => rfl
  | cons text rest ih =>
      have htext : accepted (sendData owner text (writes n)).2 =
          (sendData owner text (writes n)).2 := by
        unfold sendData
        split <;> rfl
      simp only [sendAll, accepted_append, htext, ih]

namespace Child

variable {c c' : Child} {j : ℕ} {k : WriteKernel}

theorem accepted_applySending (k : WriteKernel) (j : ℕ) (r : Sending) (c : Child) :
    accepted (c.applySending k j r).log = accepted c.log := by
  have htook : accepted (r.taken.toList.map fun path => .took j path r.dscrptr.buffer) = [] := by
    cases r.taken <;> rfl
  have hmoved : accepted ((c.renamed k r).toList.map fun path =>
      .moved path (renameTarget path)) = [] := by
    cases c.renamed k r <;> rfl
  simp only [applySending, accepted_append, htook, hmoved, List.append_nil]

/-! ### The calls -/

/-- A session that sends is not finished, and no call finishes it. -/
theorem state_of_write (h : c.handleWriteSocket k j = .ok c') :
    (c'.dscrptrs j).state = (c.dscrptrs j).state := by
  obtain ⟨r, hr, hwrote⟩ := handleWriteSocket_ok h
  rw [hwrote.dscrptrs, Function.update_self]
  exact (Dscrptr.sendMsgToServer_ok hr).1.state

theorem not_over (hstate : (c.dscrptrs j).state ≠ .done) (h : c.Retried k j) :
    (c.dscrptrs j).elapsed k.now ≤ (c.dscrptrs j).totalSendTime := by
  by_contra hover
  obtain ⟨c', hc', -, hdone, -⟩ := h.late (not_le.mp hover)
  exact hstate (state_of_write hc' ▸ hdone)

/-- Waiting takes the socket out of `write_fds` and puts it back. -/
theorem handleWriteSocket_of_early (hattempt : (c.dscrptrs j).lastAttemptTime ≠ 0)
    (h : (c.dscrptrs j).elapsed k.now < (c.dscrptrs j).retryTime) :
    ∃ c', c.handleWriteSocket k j = .ok c' ∧ accepted c'.log = accepted c.log ∧
      c'.writeFds = insert (c.dscrptrs j).socketFd c.writeFds := by
  have hr : (c.dscrptrs j).sendMsgToServer k.now c.conf.hostName c.files (c.placeAt k) =
      .ok ⟨c.dscrptrs j, none, none, [], some .waiting⟩ := by
    simp only [Dscrptr.sendMsgToServer, Dscrptr.retry_of_early hattempt h]
  obtain ⟨c', hc'⟩ := handleWriteSocket_of_ok hr
  obtain ⟨r', hr', hwrote⟩ := handleWriteSocket_ok hc'
  obtain rfl := Except.ok.inj (hr.symm.trans hr')
  refine ⟨c', hc', ?_, ?_⟩
  · rw [hwrote.log, accepted_append, accepted_applySending]
    simp [transmit, accepted]
  · rw [writeFds_of_write hr hc']
    ext fd
    by_cases hfd : fd = (c.dscrptrs j).socketFd <;> simp [transmit, hfd]

/-- A command that is due is sent, if its texts can be made. -/
theorem handleWriteSocket_of_due {r : Sending} (hattempt : (c.dscrptrs j).lastAttemptTime ≠ 0)
    (h : (c.dscrptrs j).retryTime ≤ (c.dscrptrs j).elapsed k.now)
    (hcommand : (c.dscrptrs j).sendCommand c.conf.hostName c.files (c.placeAt k) = .ok r) :
    ∃ c', c.handleWriteSocket k j = .ok c' ∧ accepted c'.log = accepted c.log ++
      (sendAll (c.sockets (c.dscrptrs j).socketFd) k.writes 0 r.data).2 := by
  have hr : (c.dscrptrs j).sendMsgToServer k.now c.conf.hostName c.files (c.placeAt k) =
      .ok { r with dscrptr := { r.dscrptr with canBeSend := 1 } } := by
    simp only [Dscrptr.sendMsgToServer, Dscrptr.retry_of_due hattempt h]
    exact Dscrptr.sendCommand_canBeSend 1 hcommand
  obtain ⟨hprepares, hearly⟩ := Dscrptr.sendCommand_ok hcommand
  obtain ⟨c', hc'⟩ := handleWriteSocket_of_ok hr
  obtain ⟨r', hr', hwrote⟩ := handleWriteSocket_ok hc'
  obtain rfl := Except.ok.inj (hr.symm.trans hr')
  refine ⟨c', hc', ?_⟩
  rw [hwrote.log, accepted_append, accepted_applySending]
  simp only [transmit, hearly, hprepares.socketFd, accepted_sendAll]

/-- A descriptor that was tried before is served as it should exactly if its
total time is not over, the socket is watched where there is nothing to do yet,
and the command that is due can be made. -/
theorem retried_iff {x : Command} (hattempt : (c.dscrptrs j).lastAttemptTime ≠ 0)
    (hsending : (c.dscrptrs j).state.command = some x) :
    c.Retried k j ↔ (c.dscrptrs j).elapsed k.now ≤ (c.dscrptrs j).totalSendTime ∧
      ((c.dscrptrs j).elapsed k.now < (c.dscrptrs j).retryTime →
        (c.dscrptrs j).socketFd ∈ c.writeFds) ∧
      ((c.dscrptrs j).retryTime ≤ (c.dscrptrs j).elapsed k.now →
        (c.dscrptrs j).Supplied c.files (c.placeAt k)) := by
  have hstate : (c.dscrptrs j).state ≠ .done := by
    intro hdone
    simp [hdone, ClientState.command] at hsending
  constructor
  · intro h
    have hintime := not_over hstate h
    refine ⟨hintime, fun hearly => ?_, fun hdue => ?_⟩
    · obtain ⟨c', hc', -, -, hfds⟩ := h.early hintime hearly
      obtain ⟨c'', hc'', -, hfds'⟩ := handleWriteSocket_of_early hattempt hearly
      obtain rfl := Except.ok.inj (hc'.symm.trans hc'')
      rw [← hfds, hfds']
      exact Finset.mem_insert_self _ _
    · obtain ⟨r, c', hr, -⟩ := h.due hintime hdue
      exact Dscrptr.sendCommand_ok_iff.mp ⟨r, hr⟩
  · rintro ⟨hintime, hwatched, hsupplied⟩
    refine ⟨fun hover => absurd hintime (not_le.mpr hover), fun _ hearly => ?_, fun _ hdue => ?_⟩
    · obtain ⟨c', hc', haccepted, hfds⟩ := handleWriteSocket_of_early hattempt hearly
      refine ⟨c', hc', haccepted, state_of_write hc', ?_⟩
      rw [hfds, Finset.insert_eq_of_mem (hwatched hearly)]
    · obtain ⟨r, hr⟩ := Dscrptr.sendCommand_ok_iff.mpr (hsupplied hdue)
      obtain ⟨c', hc', haccepted⟩ := handleWriteSocket_of_due hattempt hdue hr
      exact ⟨r, c', hr, hc', haccepted⟩

/-- The only descriptor was last tried at 1000. -/
def triedChild : Child where
  conf := sampleChild.conf
  dscrptrs := fun _ => { zeroDscrptr with
    socketFd := 4, state := .sendHelo, retryTime := 10, totalSendTime := 120
    lastAttemptTime := 1000 }
  readyDomainsCount := 1
  readFds := ∅
  writeFds := {4}
  exceptFds := ∅
  maxFd := 4
  place := none
  placeUser := none
  placeOwner := none
  files := sampleFiles
  sockets := fun _ => some 0
  log := []

/-- At 1005 it is too early, and at 1015 time for the next attempt. -/
theorem triedChild_retried :
    triedChild.Retried ⟨1005, fun _ => some 1024, true, []⟩ 0 ∧
      triedChild.Retried ⟨1015, fun _ => some 1024, true, []⟩ 0 :=
  ⟨(retried_iff (by decide) rfl).mpr ⟨by decide, fun _ => by decide, fun _ => trivial⟩,
    (retried_iff (by decide) rfl).mpr ⟨by decide, fun _ => by decide, fun _ => trivial⟩⟩

/-- At 1200 the total time is over, and the command is sent again. -/
theorem over_sends_helo :
    (triedChild.handleWriteSocket ⟨1200, fun _ => some 1024, true, []⟩ 0).map
        (fun c => (c.log, (c.dscrptrs 0).state)) =
      .ok ([.sent 0 "HELO h\n".toList], .sendHelo) ∧
    ¬ triedChild.Retried ⟨1200, fun _ => some 1024, true, []⟩ 0 :=
  ⟨by decide, fun h => absurd (not_over (by decide) h) (by decide)⟩

end Child

end SmtpProj.Client
