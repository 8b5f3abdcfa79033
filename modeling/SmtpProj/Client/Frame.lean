import SmtpProj.Client.Child

/-!
What each call of the client loop can have changed.

The results of a call are read off once, here, and the modules behind work
with these lemmas only. A call on one slot leaves the other slots alone; a
write changes nothing of its own descriptor that the session depends on; the
watched sets and the sockets change at the descriptor's own number.
-/

namespace SmtpProj.Client

open Lib

/-! ### Sending -/

namespace Dscrptr

structure Prepares (d : Dscrptr) (r : Sending) : Prop where
  domain : r.dscrptr.domain = d.domain
  socketFd : r.dscrptr.socketFd = d.socketFd
  mailsList : r.dscrptr.mailsList = d.mailsList
  state : r.dscrptr.state = d.state
  taken : ∀ path, r.taken = some path →
    r.early = none ∧ d.state = .sendMailFrom ∧ ∃ mails, d.mailsList = some path :: mails
  takes : d.state = .sendMailFrom → r.early = none → r.taken ≠ none
  place : r.taken.isSome → r.place.isSome

variable {d : Dscrptr} {place : Option CStr} {r : Sending} {now : ℤ} {hostName : CStr}
  {files : CStr → Option (List Char)}

theorem retry_fst (now : ℤ) (d : Dscrptr) :
    ∃ canBeSend, (d.retry now).1 = { d with canBeSend := canBeSend } := by
  unfold retry
  split_ifs <;> exact ⟨_, rfl⟩

/-- A step ends early, or makes the command of the state; the look at the clock
writes nothing but a flag. -/
theorem sendMsgToServer_eq (now : ℤ) (d : Dscrptr) : ∃ canBeSend, ∀ hostName files place,
    d.sendMsgToServer now hostName files place = match (d.retry now).2 with
      | some code => .ok ⟨{ d with canBeSend := canBeSend }, none, none, [], some code⟩
      | none => ({ d with canBeSend := canBeSend } : Dscrptr).sendCommand hostName files place := by
  obtain ⟨canBeSend, hfst⟩ := retry_fst now d
  refine ⟨canBeSend, fun hostName files place => ?_⟩
  unfold sendMsgToServer
  rcases hretry : d.retry now with ⟨d₁, early⟩
  rw [hretry] at hfst
  obtain rfl : d₁ = { d with canBeSend := canBeSend } := hfst
  cases early <;> rfl

/-- The total time is compared with itself, so it is never over. -/
theorem retry_snd (now : ℤ) (d : Dscrptr) :
    (d.retry now).2 = none ∨ (d.retry now).2 = some .waiting := by
  unfold retry
  split_ifs with _ _ hover
  · exact .inl rfl
  · exact absurd hover (lt_irrefl _)
  · exact .inr rfl
  · exact .inl rfl

theorem sendCommand_ok (h : d.sendCommand hostName files place = .ok r) :
    d.Prepares r ∧ r.early = none := by
  unfold sendCommand at h
  cases hst : d.state with
  | sendMailFrom =>
      simp only [hst] at h
      cases hmails : d.mailsList with
      | nil =>
          rw [hmails] at h
          cases h
      | cons head mails =>
          cases head with
          | none =>
              rw [hmails] at h
              cases h
          | some path =>
              simp only [hmails] at h
              obtain ⟨buffer, -, h⟩ := bind_eq_ok.mp h
              obtain ⟨⟨text, place'⟩, -, h⟩ := bind_eq_ok.mp h
              cases h
              refine ⟨⟨rfl, rfl, hmails.symm, hst.symm, ?_, by simp, fun _ => rfl⟩, rfl⟩
              rintro _ ⟨⟩
              exact ⟨rfl, hst, mails, hmails⟩
  | sendRcptTo =>
      simp only [hst] at h
      obtain ⟨⟨text, place'⟩, -, h⟩ := bind_eq_ok.mp h
      cases h
      exact ⟨⟨rfl, rfl, rfl, rfl, by simp, by simp [hst], by simp⟩, rfl⟩
  | sendBody =>
      simp only [hst] at h
      obtain ⟨⟨data, place'⟩, -, h⟩ := bind_eq_ok.mp h
      cases h
      exact ⟨⟨rfl, rfl, rfl, rfl, by simp, by simp [hst], by simp⟩, rfl⟩
  | sendHelo | sendData | sendQuit | init | connect | invalid | done =>
      simp only [hst] at h
      cases h
      exact ⟨⟨rfl, rfl, rfl, rfl, by simp, by simp [hst], by simp⟩, rfl⟩

theorem sendMsgToServer_ok (h : d.sendMsgToServer now hostName files place = .ok r) :
    d.Prepares r ∧ r.early = (d.retry now).2 := by
  obtain ⟨canBeSend, hmsg⟩ := sendMsgToServer_eq now d
  rw [hmsg] at h
  cases hearly : (d.retry now).2 with
  | some code =>
      simp only [hearly] at h
      cases h
      exact ⟨⟨rfl, rfl, rfl, rfl, by simp, by simp, by simp⟩, rfl⟩
  | none =>
      simp only [hearly] at h
      obtain ⟨hr, hnone⟩ := sendCommand_ok h
      exact ⟨⟨hr.domain, hr.socketFd, hr.mailsList, hr.state, hr.taken, hr.takes, hr.place⟩, hnone⟩

theorem sendCommand_dscrptr (h : d.sendCommand hostName files place = .ok r) :
    ∃ buffer textFreed, r.dscrptr = { d with buffer := buffer, textFreed := textFreed } := by
  unfold sendCommand at h
  split at h
  case h_2 =>
    split at h
    · cases h
    · cases h
    · obtain ⟨buffer, -, h⟩ := bind_eq_ok.mp h
      obtain ⟨⟨text, place'⟩, -, h⟩ := bind_eq_ok.mp h
      cases h
      exact ⟨buffer, _, rfl⟩
  case h_3 | h_5 =>
    obtain ⟨⟨text, place'⟩, -, h⟩ := bind_eq_ok.mp h
    cases h
    exact ⟨d.buffer, d.textFreed, rfl⟩
  all_goals
    cases h
    exact ⟨d.buffer, d.textFreed, rfl⟩

theorem sendMsgToServer_attempt (h : d.sendMsgToServer now hostName files place = .ok r) :
    r.dscrptr.lastAttemptTime = d.lastAttemptTime := by
  obtain ⟨canBeSend, hmsg⟩ := sendMsgToServer_eq now d
  rw [hmsg] at h
  cases hearly : (d.retry now).2 with
  | some code =>
      simp only [hearly] at h
      cases h
      rfl
  | none =>
      simp only [hearly] at h
      obtain ⟨buffer, textFreed, hdscrptr⟩ := sendCommand_dscrptr h
      rw [hdscrptr]

/-! ### The descriptor alone -/

theorem removeFirst_suffix {mails mails' : List (Option CStr)}
    (h : removeFirst mails = .ok mails') : mails' <:+ mails := by
  unfold removeFirst at h
  split at h
  · cases h
    exact List.suffix_rfl
  · cases h
  · cases h
    exact List.suffix_cons _ _

/-- The outcomes of a reply: the letter is removed, or only the state moves. -/
theorem advance_ok {event : ClientEvent} {d' : Dscrptr} (h : d.advance event = .ok d') :
    (d.state = .sendBody ∧ event ≠ .error ∧ ∃ mails st, removeFirst d.mailsList = .ok mails ∧
        clientFsmStep .sendBody (if count mails > 0 then .multipleEmails else event) = .ok st ∧
        d' = { d with
          mailsList := mails, state := st, textFreed := d.buffer.isSome || d.textFreed }) ∨
      ((d.state = .sendBody → event = .error) ∧
        ∃ st, clientFsmStep d.state event = .ok st ∧ d' = { d with state := st }) := by
  unfold advance at h
  split at h
  next hbody =>
    obtain ⟨mails, hmails, h⟩ := bind_eq_ok.mp h
    obtain ⟨st, hst, h⟩ := bind_eq_ok.mp h
    cases h
    rw [hbody.1] at hst
    exact .inl ⟨hbody.1, hbody.2, mails, st, hmails, hst, rfl⟩
  next hbody =>
    obtain ⟨st, hst, h⟩ := bind_eq_ok.mp h
    cases h
    refine .inr ⟨fun hstate => ?_, st, hst, rfl⟩
    by_contra hne
    exact hbody ⟨hstate, hne⟩

theorem advance_kept {event : ClientEvent} {d' : Dscrptr} (h : d.advance event = .ok d') :
    d'.domain = d.domain ∧ d'.socketFd = d.socketFd ∧ d'.mailsList <:+ d.mailsList := by
  rcases advance_ok h with ⟨-, -, mails, st, hmails, -, rfl⟩ | ⟨-, st, -, rfl⟩
  · exact ⟨rfl, rfl, removeFirst_suffix hmails⟩
  · exact ⟨rfl, rfl, List.suffix_rfl⟩

theorem advance_attempt {event : ClientEvent} {d' : Dscrptr} (h : d.advance event = .ok d') :
    d'.lastAttemptTime = d.lastAttemptTime := by
  rcases advance_ok h with ⟨-, -, mails, st, -, -, rfl⟩ | ⟨-, st, -, rfl⟩ <;> rfl

theorem initConn_ok {connected : Option ℕ} {d' : Dscrptr} (h : d.initConn connected = .ok d') :
    ∃ st, clientFsmStep d.state .ok = .ok st ∧
      ((∃ fd : ℕ, connected = some fd ∧ d' = { d with
          state := st, socketFd := fd, numberOfAttempts := 0, lastAttemptTime := 0
          currRcptsIndex := -1 }) ∨
        ∃ st', connected = none ∧ clientFsmStep st .error = .ok st' ∧
          d' = { d with state := st' }) := by
  obtain ⟨st, hst, h⟩ := bind_eq_ok.mp h
  refine ⟨st, hst, ?_⟩
  cases connected with
  | some fd =>
      cases h
      exact .inl ⟨fd, rfl, rfl⟩
  | none =>
      obtain ⟨st', hst', h⟩ := bind_eq_ok.mp h
      cases h
      exact .inr ⟨st', rfl, hst', rfl⟩

theorem initConn_cases {connected : Option ℕ} {d' : Dscrptr} (h : d.initConn connected = .ok d') :
    (connected = none ∧ d'.state = .done ∧ d'.socketFd = d.socketFd) ∨
      ∃ fd : ℕ, connected = some fd ∧ clientFsmStep d.state .ok = .ok d'.state ∧
        d'.state ≠ .done ∧ d'.socketFd = fd ∧ d'.lastAttemptTime = 0 := by
  obtain ⟨st, hst, ⟨fd, rfl, rfl⟩ | ⟨st', rfl, hst', rfl⟩⟩ := initConn_ok h
  · refine .inr ⟨fd, rfl, hst, ?_, rfl, rfl⟩
    cases hd : d.state <;> simp [hd, clientFsmStep, clientFsmTransTable] at hst <;> simp [← hst]
  · refine .inl ⟨rfl, ?_, rfl⟩
    cases hd : d.state <;> simp [hd, clientFsmStep, clientFsmTransTable] at hst <;> subst hst <;>
      simpa [clientFsmStep, clientFsmTransTable] using hst'.symm

theorem initConn_kept {connected : Option ℕ} {d' : Dscrptr} (h : d.initConn connected = .ok d') :
    d'.domain = d.domain ∧ d'.mailsList = d.mailsList := by
  obtain ⟨st, -, ⟨fd, -, rfl⟩ | ⟨st', -, -, rfl⟩⟩ := initConn_ok h
  · exact ⟨rfl, rfl⟩
  · exact ⟨rfl, rfl⟩

@[simp] theorem enqueue_domain (path : CStr) (d : Dscrptr) :
    (d.enqueue path).domain = d.domain := by
  unfold enqueue
  split_ifs <;> rfl

theorem enqueue_state (path : CStr) (d : Dscrptr) :
    (d.enqueue path).state = d.state := by
  unfold enqueue
  split_ifs <;> rfl

theorem enqueue_of_done (path : CStr) (h : d.state = .done) :
    (d.enqueue path).state = .done ∧ (d.enqueue path).mailsList = d.mailsList := by
  simp [enqueue, h]

theorem enqueue_of_ne_done {path : CStr} (h : d.state ≠ .done) :
    d.enqueue path = { d with mailsList := addFirst path d.mailsList } :=
  if_neg h

/-- A connection that was tried is made, with the time of its attempts reset, or
it leaves the session done, which resets it too. -/
theorem initConn_attempt {d' : Dscrptr} {connected : Option ℕ} (path : CStr)
    (h : d.initConn connected = .ok d') (mails : List (Option CStr)) :
    (({ d' with mailsList := mails } : Dscrptr).enqueue path).lastAttemptTime = 0 := by
  rcases initConn_cases h with ⟨-, hdone, -⟩ | ⟨fd, -, -, hne, -, hattempt⟩
  · simp [enqueue, hdone]
  · simp [enqueue, hne, hattempt]

theorem mem_enqueue {path p : CStr} (h : some p ∈ (d.enqueue path).mailsList) :
    p = path ∨ some p ∈ d.mailsList := by
  unfold enqueue at h
  split_ifs at h
  · exact .inr h
  · rcases List.mem_cons.mp h with h | h
    · exact .inl (Option.some.inj h)
    · exact .inr h

end Dscrptr

theorem sendAll_fst (owner : Option ℕ) (writes : ℕ → Option ℕ) (n : ℕ) (data : List CStr) :
    (sendAll owner writes n data).1 = .sent ∨ (sendAll owner writes n data).1 = .failed := by
  induction data generalizing n with
  | nil => exact .inl rfl
  | cons text rest ih =>
      have htext : (sendData owner text (writes n)).1 = .sent ∨
          (sendData owner text (writes n)).1 = .failed := by
        unfold sendData
        split
        · exact .inl rfl
        · exact .inr rfl
      simp only [sendAll]
      split_ifs
      · exact htext
      · exact ih (n + 1)

namespace Child

variable {c c' : Child} {j : ℕ} {k : WriteKernel} {r : Sending}

/-- The code is that of an early return, or says how the last `send_data`
went. -/
theorem transmit_fst (k : WriteKernel) (r : Sending) (c : Child) :
    (r.early = some (c.transmit k r).1) ∨
      (r.early = none ∧ ((c.transmit k r).1 = .sent ∨ (c.transmit k r).1 = .failed)) := by
  unfold transmit
  cases r.early with
  | some code => exact .inl rfl
  | none => exact .inr ⟨rfl, sendAll_fst _ _ _ _⟩

theorem placeAt_of_owner (k : WriteKernel) (howner : c.placeOwner = some j)
    (hkept : (c.dscrptrs j).textFreed = false) : c.placeAt k = c.place := by
  refine if_neg fun h => ?_
  have hfreed := h j howner
  rw [hkept] at hfreed
  cases hfreed

structure Wrote (k : WriteKernel) (j : ℕ) (r : Sending) (c c' : Child) : Prop where
  conf : c'.conf = c.conf
  dscrptrs : c'.dscrptrs = Function.update c.dscrptrs j r.dscrptr
  ready : c'.readyDomainsCount = c.readyDomainsCount
  place : c'.place = r.place.or c.place
  placeUser : c'.placeUser = (c.applySending k j r).placeUser
  placeOwner : c'.placeOwner = (c.applySending k j r).placeOwner
  files : c'.files = (c.applySending k j r).files
  log : c'.log = (c.applySending k j r).log ++ (c.transmit k r).2
  sockets : c'.sockets =
    if (c.transmit k r).1 = .failed then Function.update c.sockets r.dscrptr.socketFd none
    else c.sockets
  readFds : c'.readFds =
    if (c.transmit k r).1 = .sent then insert r.dscrptr.socketFd c.readFds else c.readFds

theorem handleWriteSocket_ok (h : c.handleWriteSocket k j = .ok c') :
    ∃ r, (c.dscrptrs j).sendMsgToServer k.now c.conf.hostName c.files (c.placeAt k) = .ok r ∧
      Wrote k j r c c' := by
  obtain ⟨r, hr, h⟩ := bind_eq_ok.mp h
  refine ⟨r, hr, ?_⟩
  simp only at h
  cases hcode : (c.transmit k r).1 with
  | expired =>
      simp only [hcode, afterSend] at h
      obtain ⟨st, -, h⟩ := bind_eq_ok.mp h
      cases h
      constructor <;> simp [applySending, record, setDscrptr, hcode]
  | sent | failed | waiting =>
      simp only [hcode, afterSend] at h
      cases h
      constructor <;> simp [applySending, record, setDscrptr, close, hcode]

theorem writeFds_of_write
    (hr : (c.dscrptrs j).sendMsgToServer k.now c.conf.hostName c.files (c.placeAt k) = .ok r)
    (h : c.handleWriteSocket k j = .ok c') :
    c'.writeFds = match (c.transmit k r).1 with
      | .failed => c.writeFds
      | .waiting => insert r.dscrptr.socketFd (c.writeFds.erase r.dscrptr.socketFd)
      | .sent | .expired => c.writeFds.erase r.dscrptr.socketFd := by
  simp only [handleWriteSocket, hr, bind, Except.bind] at h
  cases hcode : (c.transmit k r).1 with
  | expired =>
      simp only [hcode, afterSend] at h
      obtain ⟨st, -, h⟩ := bind_eq_ok.mp h
      cases h
      rfl
  | sent | failed | waiting =>
      simp only [hcode, afterSend] at h
      cases h
      rfl

/-- A call of `handle_write_socket` completes if its text is made. -/
theorem handleWriteSocket_of_ok
    (hr : (c.dscrptrs j).sendMsgToServer k.now c.conf.hostName c.files (c.placeAt k) = .ok r) :
    ∃ c', c.handleWriteSocket k j = .ok c' := by
  have hearly : r.early = none ∨ r.early = some .waiting := by
    rw [(Dscrptr.sendMsgToServer_ok hr).2]
    exact Dscrptr.retry_snd _ _
  have hcode := transmit_fst k r c
  simp only [handleWriteSocket, hr, bind, Except.bind, afterSend]
  cases hc : (c.transmit k r).1 with
  | expired =>
      rw [hc] at hcode
      rcases hearly with hearly | hearly <;> simp [hearly] at hcode
  | sent | failed | waiting => exact ⟨_, rfl⟩

/-! ### Receiving -/

theorem checkServerCode_cases (response : CStr) :
    checkServerCode response = .ok ∨ checkServerCode response = .error ∨
      checkServerCode response = .commandNotImplemented := by
  simp only [checkServerCode]
  split_ifs
  · exact .inr (.inr rfl)
  · exact .inr (.inl rfl)
  · exact .inl rfl

/-- When the body is answered without an error, the next letter follows or the
session ends. -/
theorem clientFsmStep_sendBody {more : Prop} [Decidable more] (reply : CStr) {st : ClientState}
    (hpos : checkServerCode reply ≠ .error)
    (h : clientFsmStep .sendBody (if more then .multipleEmails else checkServerCode reply) =
      .ok st) :
    ((st = .sendMailFrom ∧ more) ∨ st = .sendQuit) ∧
      ((if more then .multipleEmails else checkServerCode reply) = ClientEvent.ok ∨
        (if more then .multipleEmails else checkServerCode reply) =
          ClientEvent.multipleEmails) := by
  split_ifs at h ⊢ with hmore
  · exact ⟨.inl ⟨by simpa [clientFsmStep, clientFsmTransTable] using h.symm, hmore⟩, .inr rfl⟩
  · rcases checkServerCode_cases reply with hok | herror | hno
    · rw [hok] at h ⊢
      exact ⟨.inr (by simpa [clientFsmStep, clientFsmTransTable] using h.symm), .inl rfl⟩
    · exact absurd herror hpos
    · rw [hno] at h
      simp [clientFsmStep, clientFsmTransTable] at h

theorem handleReadSocket_ok {results : List RecvResult} :
    c.handleReadSocket results j = .ok c' ↔
      ∃ reply d, c.receive results (c.dscrptrs j) = some reply ∧
        (c.dscrptrs j).advance (checkServerCode reply) = .ok d ∧
        c' = ((c.setDscrptr j d).record
          [.answered j (c.dscrptrs j).state reply]).afterReply d := by
  unfold handleReadSocket
  cases hreply : c.receive results (c.dscrptrs j) with
  | none => simp
  | some reply =>
      simp only [bind_eq_ok, Except.ok.injEq, Option.some.injEq]
      constructor
      · rintro ⟨d, hd, rfl⟩
        exact ⟨reply, d, rfl, hd, rfl⟩
      · rintro ⟨_, d, rfl, hd, rfl⟩
        exact ⟨d, hd, rfl⟩

/-! ### Registering -/

theorem findDomain_cases (domain : CStr) (c : Child) :
    (c.findDomain domain = none ∧
        ∀ i < c.readyDomainsCount, (c.dscrptrs i).domain ≠ domain) ∨
      ∃ j < c.readyDomainsCount, c.findDomain domain = some j ∧
        (c.dscrptrs j).domain = domain := by
  rcases foldl_found_cases (fun i => domain = (c.dscrptrs i).domain) c.readyDomainsCount with
    ⟨hnone, hne⟩ | ⟨j, hj, hsome, hdomain⟩
  · exact .inl ⟨hnone, fun i hi h => hne i hi h.symm⟩
  · exact .inr ⟨j, hj, hsome, hdomain.symm⟩

@[simp] theorem openSocket_dscrptrs (connected : Option ℕ) (j : ℕ) (c : Child) :
    (c.openSocket connected j).dscrptrs = c.dscrptrs := by
  cases connected <;> rfl

@[simp] theorem openSocket_ready (connected : Option ℕ) (j : ℕ) (c : Child) :
    (c.openSocket connected j).readyDomainsCount = c.readyDomainsCount := by
  cases connected <;> rfl

@[simp] theorem openSocket_conf (connected : Option ℕ) (j : ℕ) (c : Child) :
    (c.openSocket connected j).conf = c.conf := by
  cases connected <;> rfl

@[simp] theorem openSocket_files (connected : Option ℕ) (j : ℕ) (c : Child) :
    (c.openSocket connected j).files = c.files := by
  cases connected <;> rfl

@[simp] theorem openSocket_place (connected : Option ℕ) (j : ℕ) (c : Child) :
    (c.openSocket connected j).place = c.place := by
  cases connected <;> rfl

@[simp] theorem openSocket_placeUser (connected : Option ℕ) (j : ℕ) (c : Child) :
    (c.openSocket connected j).placeUser = c.placeUser := by
  cases connected <;> rfl

@[simp] theorem openSocket_placeOwner (connected : Option ℕ) (j : ℕ) (c : Child) :
    (c.openSocket connected j).placeOwner = c.placeOwner := by
  cases connected <;> rfl

@[simp] theorem openSocket_writeFds (connected : Option ℕ) (j : ℕ) (c : Child) :
    (c.openSocket connected j).writeFds = c.writeFds := by
  cases connected <;> rfl

/-- The two ways to get to the descriptor of a letter's domain: a new slot, or
the slot that has it. `attempt` is the connection that is tried. -/
inductive Reaches (connected : Option ℕ) (domain : CStr) (c : Child) :
    (j : ℕ) → (attempt : Option ℕ) → Dscrptr → Prop
  | fresh {d : Dscrptr} (hnew : ∀ i < c.readyDomainsCount, (c.dscrptrs i).domain ≠ domain)
      (hd : (c.nextDscrptr domain).initConn connected = .ok d) :
      Reaches connected domain c c.readyDomainsCount connected { d with mailsList := [none] }
  | reopened {j : ℕ} {d : Dscrptr} (hj : j < c.readyDomainsCount)
      (hdomain : (c.dscrptrs j).domain = domain)
      (hidle : count (c.dscrptrs j).mailsList = 0 ∨ (c.dscrptrs j).state = .init)
      (hd : (c.dscrptrs j).initConn connected = .ok d) : Reaches connected domain c j connected d
  | busy {j : ℕ} (hj : j < c.readyDomainsCount) (hdomain : (c.dscrptrs j).domain = domain)
      (hidle : ¬ (count (c.dscrptrs j).mailsList = 0 ∨ (c.dscrptrs j).state = .init)) :
      Reaches connected domain c j none (c.dscrptrs j)

theorem Reaches.le {connected attempt : Option ℕ} {domain : CStr} {d : Dscrptr}
    (h : Reaches connected domain c j attempt d) : j ≤ c.readyDomainsCount := by
  cases h with
  | fresh => exact le_rfl
  | reopened hj | busy hj => exact hj.le

structure Registers (path : CStr) (j : ℕ) (attempt : Option ℕ) (d : Dscrptr) (c c' : Child) :
    Prop where
  conf : c'.conf = c.conf
  dscrptrs : c'.dscrptrs = Function.update c.dscrptrs j (d.enqueue path)
  ready : c'.readyDomainsCount = max c.readyDomainsCount (j + 1)
  place : c'.place = some []
  placeUser : c'.placeUser = some j
  placeOwner : c'.placeOwner = none
  files : c'.files = c.files
  log : c'.log = (c.openSocket attempt j).log
  sockets : c'.sockets = (c.openSocket attempt j).sockets
  readFds : c'.readFds =
    if d.state = .done then (c.openSocket attempt j).readFds.erase d.socketFd
    else (c.openSocket attempt j).readFds
  writeFds : c'.writeFds = c.writeFds

theorem Registers.slot {path : CStr} {attempt : Option ℕ} {d : Dscrptr}
    (hreg : Registers path j attempt d c c') : c'.dscrptrs j = d.enqueue path := by
  rw [hreg.dscrptrs, Function.update_self]

theorem Registers.other {path : CStr} {attempt : Option ℕ} {d : Dscrptr} {i : ℕ}
    (hreg : Registers path j attempt d c c') (hij : i ≠ j) : c'.dscrptrs i = c.dscrptrs i := by
  rw [hreg.dscrptrs, Function.update_of_ne hij]

theorem Registers.ready_self {path : CStr} {attempt : Option ℕ} {d : Dscrptr}
    (hreg : Registers path j attempt d c c') : j < c'.readyDomainsCount := by
  rw [hreg.ready]
  exact lt_max_of_lt_right (Nat.lt_succ_self j)

theorem Registers.ready_old {path : CStr} {attempt : Option ℕ} {d : Dscrptr} {i : ℕ}
    (hreg : Registers path j attempt d c c') (hi : i < c.readyDomainsCount) :
    i < c'.readyDomainsCount := by
  rw [hreg.ready]
  exact lt_max_of_lt_left hi

/-- No slot but the one of the domain is new. -/
theorem Registers.ready_of_ne {path : CStr} {attempt : Option ℕ} {d : Dscrptr} {i : ℕ}
    (hreg : Registers path j attempt d c c') (hj : j ≤ c.readyDomainsCount)
    (hi : i < c'.readyDomainsCount) (hij : i ≠ j) : i < c.readyDomainsCount := by
  rw [hreg.ready] at hi
  omega

theorem registerDomain_ok {connected : Option ℕ} {domain : CStr}
    (h : c.registerDomain connected domain = .ok c') :
    ∃ d, (c.nextDscrptr domain).initConn connected = .ok d ∧
      c' = { (c.setDscrptr c.readyDomainsCount { d with mailsList := [none] }).openSocket
          connected c.readyDomainsCount with
        maxFd := max c.maxFd d.socketFd
        readyDomainsCount := c.readyDomainsCount + 1 } := by
  by_cases hj : c.readyDomainsCount < maxMailDomainNum
  · simp only [registerDomain, hj, if_true] at h
    obtain ⟨c₂, h₂, h⟩ := bind_eq_ok.mp h
    obtain ⟨d, hd, h₂⟩ := bind_eq_ok.mp h₂
    refine ⟨d, by simpa [setDscrptr] using hd, ?_⟩
    cases h₂
    cases h
    cases connected <;> simp [setDscrptr, openSocket, record, Function.update_idem]
  · simp only [registerDomain, hj, if_false, reduceCtorEq] at h

theorem reopenDomain_ok {connected : Option ℕ} (h : c.reopenDomain connected j = .ok c') :
    ((count (c.dscrptrs j).mailsList = 0 ∨ (c.dscrptrs j).state = .init) ∧
        ∃ d, (c.dscrptrs j).initConn connected = .ok d ∧
          c' = (c.setDscrptr j d).openSocket connected j) ∨
      (¬ (count (c.dscrptrs j).mailsList = 0 ∨ (c.dscrptrs j).state = .init) ∧ c' = c) := by
  unfold reopenDomain at h
  split at h
  next hidle =>
    obtain ⟨d, hd, h⟩ := bind_eq_ok.mp h
    cases h
    exact .inl ⟨hidle, d, hd, rfl⟩
  next hidle =>
    cases h
    exact .inr ⟨hidle, rfl⟩

theorem registerNewEmail_ok {connected : Option ℕ} {path : CStr}
    (h : c.registerNewEmail connected path = .ok c') :
    ∃ domain j attempt d, emailDomain path = .ok domain ∧
      Reaches connected domain c j attempt d ∧ Registers path j attempt d c c' := by
  obtain ⟨domain, hdomain, h⟩ := bind_eq_ok.mp h
  rcases findDomain_cases domain c with ⟨hnone, hnew⟩ | ⟨j, hj, hsome, rfl⟩
  · simp only [hnone, Option.getD_none] at h
    obtain ⟨c₁, h₁, h⟩ := bind_eq_ok.mp h
    cases h
    obtain ⟨d, hd, rfl⟩ := registerDomain_ok h₁
    refine ⟨domain, c.readyDomainsCount, connected, _, hdomain, .fresh hnew hd, ?_⟩
    cases connected <;> constructor <;>
      simp [enqueue, setDscrptr, openSocket, record, Function.update_idem]
  · simp only [hsome, Option.getD_some] at h
    obtain ⟨c₁, h₁, h⟩ := bind_eq_ok.mp h
    cases h
    have hready : max c.readyDomainsCount (j + 1) = c.readyDomainsCount := by omega
    rcases reopenDomain_ok h₁ with ⟨hidle, d, hd, rfl⟩ | ⟨hidle, rfl⟩
    · refine ⟨_, j, connected, d, hdomain, .reopened hj rfl hidle hd, ?_⟩
      cases connected <;> constructor <;>
        simp [enqueue, setDscrptr, openSocket, record, Function.update_idem, hready]
    · refine ⟨_, j, none, _, hdomain, .busy hj rfl hidle, ?_⟩
      constructor <;> simp [enqueue, setDscrptr, openSocket, hready]

/-! ### The table of domains -/

/-- Every domain has one slot, and its letters are letters for it. -/
structure Filed (c : Child) : Prop where
  distinct : ∀ i < c.readyDomainsCount, ∀ j < c.readyDomainsCount,
    (c.dscrptrs i).domain = (c.dscrptrs j).domain → i = j
  letters : ∀ j < c.readyDomainsCount, ∀ path, some path ∈ (c.dscrptrs j).mailsList →
    emailDomain path = .ok (c.dscrptrs j).domain

theorem Filed.of_kept (hc : c.Filed) (hready : c'.readyDomainsCount = c.readyDomainsCount)
    (hkept : ∀ i, (c'.dscrptrs i).domain = (c.dscrptrs i).domain ∧
      (c'.dscrptrs i).mailsList <:+ (c.dscrptrs i).mailsList) : c'.Filed := by
  refine ⟨fun i hi j hj h => ?_, fun j hj path hpath => ?_⟩
  · rw [(hkept i).1, (hkept j).1] at h
    exact hc.distinct i (hready ▸ hi) j (hready ▸ hj) h
  · rw [(hkept j).1]
    exact hc.letters j (hready ▸ hj) path ((hkept j).2.subset hpath)

/-- What is reached for a domain has that domain, shares it with no other slot,
and holds its letters. -/
theorem Reaches.filed {connected attempt : Option ℕ} {domain : CStr} {d : Dscrptr} (hc : c.Filed)
    (h : Reaches connected domain c j attempt d) :
    d.domain = domain ∧ j ≤ c.readyDomainsCount ∧
      (∀ i < c.readyDomainsCount, (c.dscrptrs i).domain = domain → i = j) ∧
      ∀ path, some path ∈ d.mailsList → emailDomain path = .ok domain := by
  cases h with
  | fresh hnew hd =>
      exact ⟨(Dscrptr.initConn_kept hd).1, le_rfl, fun i hi h => absurd h (hnew i hi), by simp⟩
  | reopened hj hdomain hidle hd =>
      obtain ⟨hdom, hmails⟩ := Dscrptr.initConn_kept hd
      refine ⟨hdom.trans hdomain, hj.le, fun i hi h => ?_, fun path hpath => ?_⟩
      · exact hc.distinct i hi _ hj (h.trans hdomain.symm)
      · rw [← hdomain]
        exact hc.letters _ hj path (hmails ▸ hpath)
  | busy hj hdomain hidle =>
      refine ⟨hdomain, hj.le, fun i hi h => ?_, fun path hpath => ?_⟩
      · exact hc.distinct i hi _ hj (h.trans hdomain.symm)
      · rw [← hdomain]
        exact hc.letters _ hj path hpath

theorem Filed.register {connected : Option ℕ} {path : CStr} (hc : c.Filed)
    (h : c.registerNewEmail connected path = .ok c') : c'.Filed := by
  obtain ⟨domain, j, attempt, d, hdomain, hreach, hreg⟩ := registerNewEmail_ok h
  obtain ⟨hd, hj, hunique, hletters⟩ := hreach.filed hc
  -- in the new table the slot of the domain is `j`, and the others are as before
  have hsame : ∀ i, i ≠ j → c'.dscrptrs i = c.dscrptrs i := fun i hi => hreg.other hi
  have hslot : c'.dscrptrs j = d.enqueue path := hreg.slot
  have hold : ∀ i < c'.readyDomainsCount, i ≠ j → i < c.readyDomainsCount :=
    fun i hi hij => hreg.ready_of_ne hj hi hij
  have hother : ∀ i < c'.readyDomainsCount, i ≠ j → (c'.dscrptrs i).domain ≠ domain :=
    fun i hi hij h => hij (hunique i (hold i hi hij) (hsame i hij ▸ h))
  have hdom : (c'.dscrptrs j).domain = domain := by rw [hslot, Dscrptr.enqueue_domain, hd]
  refine ⟨fun i hi i' hi' h => ?_, fun i hi p hp => ?_⟩
  · by_cases hij : i = j
    · subst hij
      by_contra hne
      exact hother i' hi' (Ne.symm hne) (h.symm.trans hdom)
    · by_cases hij' : i' = j
      · subst hij'
        exact absurd (h.trans hdom) (hother i hi hij)
      · rw [hsame i hij, hsame i' hij'] at h
        exact hc.distinct i (hold i hi hij) i' (hold i' hi' hij') h
  · by_cases hij : i = j
    · subst hij
      rw [hdom]
      rw [hslot] at hp
      rcases Dscrptr.mem_enqueue hp with rfl | hp
      · exact hdomain
      · exact hletters p hp
    · rw [hsame i hij] at hp ⊢
      exact hc.letters i (hold i hi hij) p hp

theorem Filed.step (hc : c.Filed) (op : Op) (h : c.step op = .ok c') : c'.Filed := by
  cases op with
  | register path connected => exact hc.register h
  | write j k =>
      obtain ⟨r, hr, hw⟩ := handleWriteSocket_ok h
      have hprep := (Dscrptr.sendMsgToServer_ok hr).1
      refine hc.of_kept hw.ready fun i => ?_
      rw [hw.dscrptrs]
      by_cases hij : i = j
      · subst hij
        simp [hprep.domain, hprep.mailsList]
      · simp [hij]
  | read j results =>
      obtain ⟨reply, d, -, hd, rfl⟩ := handleReadSocket_ok.mp h
      obtain ⟨hdom, -, hmails⟩ := Dscrptr.advance_kept hd
      refine hc.of_kept rfl fun i => ?_
      by_cases hij : i = j
      · subst hij
        simp [afterReply, record, setDscrptr, hdom, hmails]
      · simp [afterReply, record, setDscrptr, hij]
  | select readReady writeReady exceptReady =>
      cases h
      exact ⟨hc.distinct, hc.letters⟩

theorem filed_boot (conf : Conf) (files : CStr → Option (List Char)) (memory : ℕ → Dscrptr) :
    (bootChild conf files memory).Filed :=
  ⟨fun i hi => absurd hi (Nat.not_lt_zero i), fun j hj => absurd hj (Nat.not_lt_zero j)⟩

theorem Filed.domain_kept {op : Op} (hc : c.Filed) (hj : j < c.readyDomainsCount)
    (h : c.step op = .ok c') : (c'.dscrptrs j).domain = (c.dscrptrs j).domain := by
  cases op with
  | register path connected =>
      obtain ⟨domain, i, attempt, d, -, hreach, hreg⟩ := registerNewEmail_ok h
      by_cases hji : j = i
      · subst hji
        rw [hreg.slot, Dscrptr.enqueue_domain, (hreach.filed hc).1]
        cases hreach with
        | fresh => exact absurd hj (lt_irrefl _)
        | reopened _ hdom => exact hdom.symm
        | busy _ hdom => exact hdom.symm
      · rw [hreg.other hji]
  | write i k =>
      obtain ⟨r, hr, hw⟩ := handleWriteSocket_ok h
      rw [hw.dscrptrs]
      by_cases hji : j = i
      · subst hji
        rw [Function.update_self, (Dscrptr.sendMsgToServer_ok hr).1.domain]
      · rw [Function.update_of_ne hji]
  | read i results =>
      obtain ⟨reply, d, -, hd, rfl⟩ := handleReadSocket_ok.mp h
      by_cases hji : j = i
      · subst hji
        simp [afterReply, record, setDscrptr, (Dscrptr.advance_kept hd).1]
      · simp [afterReply, record, setDscrptr, hji]
  | select readReady writeReady exceptReady =>
      cases h
      rfl

theorem filed_of_run {conf : Conf} {files : CStr → Option (List Char)} {memory : ℕ → Dscrptr}
    {ops : List Op} (h : run step (bootChild conf files memory) ops = .ok c) : c.Filed :=
  run_invariant (fun _ _ _ hc _ hstep => hc.step _ hstep) (filed_boot conf files memory)
    (guarded_true _ _) h

/-! ### Attempts -/

/-- `last_attempt_time` of a registered domain is 0: nothing else is ever
written there. -/
def Prompt (c : Child) : Prop := ∀ j < c.readyDomainsCount, (c.dscrptrs j).lastAttemptTime = 0

theorem Prompt.step {op : Op} (hc : c.Prompt) (hok : c.step op = .ok c') : c'.Prompt := by
  cases op with
  | register path connected =>
      obtain ⟨domain, i, attempt, d, -, hreach, hreg⟩ := registerNewEmail_ok hok
      intro j hj
      by_cases hji : j = i
      · subst hji
        rw [hreg.slot]
        cases hreach with
        | fresh _ hd => exact Dscrptr.initConn_attempt path hd [none]
        | reopened _ _ _ hd => exact Dscrptr.initConn_attempt path hd d.mailsList
        | busy hlt =>
            unfold Dscrptr.enqueue
            split_ifs
            · rfl
            · exact hc j hlt
      · rw [hreg.other hji]
        exact hc j (hreg.ready_of_ne hreach.le hj hji)
  | write i k =>
      obtain ⟨r, hr, hw⟩ := handleWriteSocket_ok hok
      intro j hj
      rw [hw.ready] at hj
      rw [hw.dscrptrs]
      by_cases hji : j = i
      · subst hji
        rw [Function.update_self, Dscrptr.sendMsgToServer_attempt hr]
        exact hc j hj
      · rw [Function.update_of_ne hji]
        exact hc j hj
  | read i results =>
      obtain ⟨reply, d, -, hd, rfl⟩ := handleReadSocket_ok.mp hok
      intro j hj
      by_cases hji : j = i
      · subst hji
        simpa [afterReply, record, setDscrptr, Dscrptr.advance_attempt hd] using hc j hj
      · simpa [afterReply, record, setDscrptr, hji] using hc j hj
  | select readReady writeReady exceptReady =>
      cases hok
      exact hc

theorem prompt_boot (conf : Conf) (files : CStr → Option (List Char)) (memory : ℕ → Dscrptr) :
    (bootChild conf files memory).Prompt := fun j hj => absurd hj (Nat.not_lt_zero j)

theorem Reaches.known {connected attempt : Option ℕ} {domain : CStr} {d : Dscrptr}
    (h : Reaches connected domain c j attempt d) (hj : j < c.readyDomainsCount) :
    ((count (c.dscrptrs j).mailsList = 0 ∨ (c.dscrptrs j).state = .init) ∧
        attempt = connected ∧ (c.dscrptrs j).initConn connected = .ok d) ∨
      (¬ (count (c.dscrptrs j).mailsList = 0 ∨ (c.dscrptrs j).state = .init) ∧
        attempt = none ∧ d = c.dscrptrs j) := by
  cases h with
  | fresh => exact absurd hj (lt_irrefl _)
  | reopened _ _ hidle hd => exact .inl ⟨hidle, rfl, hd⟩
  | busy _ _ hidle => exact .inr ⟨hidle, rfl, rfl⟩

/-- Registering a letter of a known domain completes if the connection, where
one is tried, can be entered in the descriptor. -/
theorem registerNewEmail_of_known {connected : Option ℕ} {path domain : CStr}
    (hdomain : emailDomain path = .ok domain) (hj : c.findDomain domain = some j)
    (hconn : count (c.dscrptrs j).mailsList = 0 ∨ (c.dscrptrs j).state = .init →
      ∃ d, (c.dscrptrs j).initConn connected = .ok d) :
    ∃ c', c.registerNewEmail connected path = .ok c' := by
  simp only [registerNewEmail, hdomain, hj, bind, Except.bind, reopenDomain]
  split_ifs with hidle
  · obtain ⟨d, hd⟩ := hconn hidle
    simp only [initMailDomainConnSettings, hd, bind, Except.bind]
    exact ⟨_, rfl⟩
  · exact ⟨_, rfl⟩

end Child

end SmtpProj.Client
