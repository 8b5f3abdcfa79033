import SmtpProj.Client.Delivery
import SmtpProj.Client.Queue
import SmtpProj.Client.Replies
import SmtpProj.Client.Sockets

/-!
Whether a letter that is removed from its queue was accepted.

`handle_read_socket` removes a letter when the reply to the body is anything but
`CLIENT_FSM_EV_ERROR`. That is coarser than acceptance in three ways: a reply
with the codes 300 and 354 counts as positive, a refusal to implement the
command has an event of its own, and the same test lets a session go from DATA
to the body on a reply that does not ask for one. The body itself is written in
many pieces, and of their results only the last is looked at.

What a session has read last, and what it has sent since, is read out of the
log. `Promised` is the invariant: a session that stands at its body was told to
send it, and once it waits for a reply it has sent it whole.
-/

namespace SmtpProj.Client

open Lib

/-! ### The last reply -/

/-- The last reply of a session, with the state it was read in, and the texts
that its connections have accepted since. -/
structure LastReply where
  reply : Option (ClientState × CStr)
  sent : List CStr
  deriving DecidableEq

def noteReply (j : ℕ) (last : LastReply) : Event → LastReply
  | .answered i st reply => if i = j then ⟨some (st, reply), []⟩ else last
  | .sent i bytes => if i = j then { last with sent := last.sent ++ [bytes] } else last
  | .connected _ | .took _ _ _ | .moved _ _ => last

def lastReply (j : ℕ) (log : List Event) : LastReply := log.foldl (noteReply j) ⟨none, []⟩

def WholeBody (texts : List CStr) : Prop :=
  ∃ place place', sendMsgBody place = .ok (texts, place')

/-- DATA was answered with 354, and a body was sent since. -/
def Transmitted (j : ℕ) (log : List Event) : Prop :=
  ∃ reply, (lastReply j log).reply = some (.sendData, reply) ∧ replyCode reply = 354 ∧
    WholeBody (lastReply j log).sent

@[simp] theorem lastReply_append (j : ℕ) (log events : List Event) :
    lastReply j (log ++ events) = events.foldl (noteReply j) (lastReply j log) := by
  simp [lastReply, List.foldl_append]

theorem lastReply_answered (j : ℕ) (log : List Event) (st : ClientState) (reply : CStr) :
    lastReply j (log ++ [.answered j st reply]) = ⟨some (st, reply), []⟩ := by
  simp [lastReply_append, noteReply]

theorem foldl_noteReply {j : ℕ} {events : List Event}
    (h : ∀ st reply, .answered j st reply ∉ events) (last : LastReply) :
    events.foldl (noteReply j) last = ⟨last.reply, last.sent ++ sentTo j events⟩ := by
  induction events generalizing last with
  | nil => simp [sentTo]
  | cons event events ih =>
      have hrest : ∀ st reply, .answered j st reply ∉ events := fun st reply hmem =>
        h st reply (List.mem_cons_of_mem _ hmem)
      rw [List.foldl_cons, ih hrest, show event :: events = [event] ++ events from rfl,
        sentTo_append]
      cases event with
      | answered i st reply =>
          have hij : i ≠ j := by
            rintro rfl
            exact h st reply List.mem_cons_self
          simp [noteReply, hij]
      | sent i bytes =>
          by_cases hij : i = j
          · simp [noteReply, sentTo, hij]
          · simp [noteReply, sentTo, hij]
      | connected i | took i path text | moved path target => simp [noteReply, sentTo]

theorem wholeBody_of_sendMsgToServer {d : Dscrptr} {now : ℤ} {hostName : CStr}
    {files : CStr → Option (List Char)} {place : Option CStr} {r : Sending}
    (hst : d.state = .sendBody) (h : d.sendMsgToServer now hostName files place = .ok r)
    (hearly : r.early = none) : WholeBody r.data := by
  obtain ⟨canBeSend, hmsg⟩ := Dscrptr.sendMsgToServer_eq now d
  rw [hmsg] at h
  cases hretry : (d.retry now).2 with
  | some code =>
      simp only [hretry] at h
      cases h
      cases hearly
  | none =>
      simp only [hretry, Dscrptr.sendCommand, hst] at h
      obtain ⟨⟨data, place'⟩, hdata, h⟩ := bind_eq_ok.mp h
      cases h
      exact ⟨place, place', hdata⟩

namespace Child

variable {c c' : Child} {j : ℕ}

theorem Wrote.lastReply {k : WriteKernel} {r : Sending} (hw : Wrote k j r c c') (i : ℕ) :
    lastReply i c'.log = ⟨(lastReply i c.log).reply,
      (lastReply i c.log).sent ++ sentTo i (c.transmit k r).2⟩ := by
  obtain ⟨events, hlog, hanswered, -⟩ := hw.log_append
  have hsent : sentTo i events = sentTo i (c.transmit k r).2 := by
    have htotal : sentTo i (c.log ++ events) = sentTo i (c.log) ++ sentTo i (c.transmit k r).2 := by
      rw [← hlog, hw.log, sentTo_append, sentTo_applySending]
    rw [sentTo_append] at htotal
    exact List.append_cancel_left htotal
  rw [hlog, lastReply_append, foldl_noteReply (hanswered i), hsent]

/-! ### Acceptance -/

/-- A letter is removed when its body was sent and is now accepted, and the
list is left alone otherwise. -/
def RemovesAccepted (c : Child) : Op → Prop
  | .read j results => ∀ reply, c.receive results (c.dscrptrs j) = some reply →
      ((c.dscrptrs j).state = .sendBody → checkServerCode reply ≠ .error →
          200 ≤ replyCode reply ∧ replyCode reply < 300 ∧ Transmitted j c.log) ∧
        ∀ c', c.handleReadSocket results j = .ok c' →
          ¬ ((c.dscrptrs j).state = .sendBody ∧ 200 ≤ replyCode reply ∧ replyCode reply < 300) →
            (c'.dscrptrs j).mailsList = (c.dscrptrs j).mailsList
  | .register _ _ | .write _ _ | .select _ _ _ => True

/-- The reply does not pass for another one: what is no reply to DATA does not
come behind DATA, and what is no reply to a body not behind the body. -/
def Fitting (st : ClientState) (reply : CStr) : Prop :=
  (st = .sendData → ¬ (200 ≤ replyCode reply ∧ replyCode reply ≤ 300)) ∧
    (st = .sendBody → replyCode reply ≠ 300 ∧ replyCode reply ≠ 354 ∧ ¬ NotImplemented reply)

/-- Nothing in the call passes for an acceptance that is none: replies fit, the
pieces of a body are taken whole, a number that was closed is not another
session's, and no connection is opened in the memory of a session at DATA. -/
def Unmistaken (c : Child) : Op → Prop
  | .register path _ => ∀ domain, emailDomain path = .ok domain → c.Connects (c.slotOf domain) →
      (c.dscrptrs (c.slotOf domain)).state ≠ .sendData
  | .write j k => c.OwnSocket j ∧ ((c.dscrptrs j).state = .sendBody → ∀ r,
      (c.dscrptrs j).sendMsgToServer k.now c.conf.hostName c.files (c.placeAt k) = .ok r →
        k.TakesAll r.data)
  | .read j results => c.OwnSocket j ∧
      ∀ reply, c.receive results (c.dscrptrs j) = some reply → Fitting (c.dscrptrs j).state reply
  | .select _ _ _ => True

instance (st : ClientState) : DecidablePred (Fitting st) := fun _ =>
  inferInstanceAs (Decidable ((_ → _) ∧ (_ → _)))

instance (c : Child) : DecidablePred c.OwnSocket := fun j =>
  decidable_of_iff (j < c.readyDomainsCount ∧
    (c.sockets (c.dscrptrs j).socketFd).all (fun i => i == j) = true) (by
      simp [OwnSocket, Option.all_eq_true])

instance (c : Child) : DecidablePred c.Unmistaken
  | .register path _ =>
      match h : emailDomain path with
      | .ok domain => decidable_of_iff (c.Connects (c.slotOf domain) →
          (c.dscrptrs (c.slotOf domain)).state ≠ .sendData) (by simp [Unmistaken, h])
      | .error _ => isTrue (by simp [Unmistaken, h])
  | .write j k =>
      match h : (c.dscrptrs j).sendMsgToServer k.now c.conf.hostName c.files (c.placeAt k) with
      | .ok r => decidable_of_iff (c.OwnSocket j ∧
          ((c.dscrptrs j).state = .sendBody → k.TakesAll r.data)) (by simp [Unmistaken, h])
      | .error _ => decidable_of_iff (c.OwnSocket j) (by simp [Unmistaken, h])
  | .read j results => decidable_of_iff (c.OwnSocket j ∧
      (c.receive results (c.dscrptrs j)).all (Fitting (c.dscrptrs j).state ·) = true) (by
        simp [Unmistaken, Option.all_eq_true])
  | .select _ _ _ => isTrue trivial

/-- A session at its body was asked for it; until it is written nothing was
sent, and when a reply is awaited it was sent whole. -/
def Promised (j : ℕ) (c : Child) : Prop :=
  (c.dscrptrs j).state = .sendBody → ∃ reply,
    (lastReply j c.log).reply = some (.sendData, reply) ∧ replyCode reply = 354 ∧
      (c.sockets (c.dscrptrs j).socketFd = some j →
        ((c.dscrptrs j).socketFd ∈ c.writeFds → (lastReply j c.log).sent = []) ∧
          ((c.dscrptrs j).socketFd ∈ c.readFds → WholeBody (lastReply j c.log).sent))

/-- A call that leaves the state and the number of the slot, and what its session
has read and sent, and watches its socket no more than before. -/
theorem Promised.of_kept (h : c.Promised j)
    (hstate : (c'.dscrptrs j).state = (c.dscrptrs j).state)
    (hnumber : (c'.dscrptrs j).socketFd = (c.dscrptrs j).socketFd)
    (hlast : lastReply j c'.log = lastReply j c.log)
    (hsockets : c'.sockets (c.dscrptrs j).socketFd = some j →
      c.sockets (c.dscrptrs j).socketFd = some j ∧
        ((c.dscrptrs j).socketFd ∈ c'.writeFds → (c.dscrptrs j).socketFd ∈ c.writeFds) ∧
          ((c.dscrptrs j).socketFd ∈ c'.readFds → (c.dscrptrs j).socketFd ∈ c.readFds)) :
    c'.Promised j := by
  intro hst
  rw [hstate] at hst
  obtain ⟨reply, hreply, hcode, hopen⟩ := h hst
  rw [hlast, hnumber]
  refine ⟨reply, hreply, hcode, fun hsocket => ?_⟩
  obtain ⟨hold, hwrite, hread⟩ := hsockets hsocket
  exact ⟨fun hmem => (hopen hold).1 (hwrite hmem), fun hmem => (hopen hold).2 (hread hmem)⟩

/-! ### Writing -/

theorem Promised.write_other {i : ℕ} {k : WriteKernel} (h : c.Promised i) (hij : i ≠ j)
    (hown : c.OwnSocket j) (hstep : c.handleWriteSocket k j = .ok c') : c'.Promised i := by
  obtain ⟨r, hr, hw⟩ := handleWriteSocket_ok hstep
  have hprep := (Dscrptr.sendMsgToServer_ok hr).1
  have howner : c.sockets r.dscrptr.socketFd ≠ some i := by
    rw [hprep.socketFd]
    exact fun hs => hij (hown.2 i hs)
  have hslot : c'.dscrptrs i = c.dscrptrs i := by rw [hw.dscrptrs, Function.update_of_ne hij]
  refine h.of_kept (by rw [hslot]) (by rw [hslot]) ?_ fun hsocket => ?_
  · rw [hw.lastReply, sentTo_transmit howner, List.append_nil]
  · -- the number of slot `j` is not the open socket of slot `i`
    rw [hw.sockets, closed_iff howner] at hsocket
    have hne : (c.dscrptrs i).socketFd ≠ r.dscrptr.socketFd := fun heq => howner (heq ▸ hsocket)
    refine ⟨hsocket, fun hmem => ?_, fun hmem => ?_⟩
    · rw [writeFds_of_write hr hstep] at hmem
      split at hmem
      · exact hmem
      · rw [Finset.mem_insert, or_iff_right hne] at hmem
        exact Finset.mem_of_mem_erase hmem
      · exact Finset.mem_of_mem_erase hmem
      · exact Finset.mem_of_mem_erase hmem
    · rw [hw.readFds] at hmem
      split_ifs at hmem
      · rwa [Finset.mem_insert, or_iff_right hne] at hmem
      · exact hmem

theorem Promised.write_self {k : WriteKernel} (h : c.Promised j)
    (hfd : (c.dscrptrs j).socketFd ∈ c.writeFds) (hplain : c.Unmistaken (.write j k))
    (hstep : c.handleWriteSocket k j = .ok c') : c'.Promised j := by
  obtain ⟨r, hr, hw⟩ := handleWriteSocket_ok hstep
  obtain ⟨hprep, hearly⟩ := Dscrptr.sendMsgToServer_ok hr
  have hslot : c'.dscrptrs j = r.dscrptr := by rw [hw.dscrptrs, Function.update_self]
  intro hst
  rw [hslot, hprep.state] at hst
  obtain ⟨reply, hreply, hcode, hopen⟩ := h hst
  rw [hslot, hprep.socketFd, hw.lastReply]
  refine ⟨reply, hreply, hcode, fun hsocket => ?_⟩
  have hold : c.sockets (c.dscrptrs j).socketFd = some j := by
    rw [hw.sockets, hprep.socketFd] at hsocket
    split_ifs at hsocket
    · simp at hsocket
    · exact hsocket
  obtain ⟨hbefore, hwhole⟩ := hopen hold
  rcases Dscrptr.retry_snd k.now (c.dscrptrs j) with hnone | hwaiting
  · -- everything is sent, and a reply is awaited
    have htransmit : c.transmit k r = (.sent, r.data.map fun text => .sent j text) := by
      simp only [transmit, hearly.trans hnone, hprep.socketFd, hold]
      exact sendAll_of_takesAll j (by simpa [WriteKernel.TakesAll] using hplain.2 hst r hr)
    refine ⟨fun hmem => ?_, fun _ => ?_⟩
    · rw [writeFds_of_write hr hstep, htransmit, hprep.socketFd] at hmem
      exact absurd hmem (Finset.notMem_erase _ _)
    · rw [htransmit, sentTo_map_sent, hbefore hfd, List.nil_append]
      exact wholeBody_of_sendMsgToServer hst hr (hearly.trans hnone)
  · -- the time for a new attempt has not come
    have htransmit : c.transmit k r = (.waiting, []) := by
      simp [transmit, hearly.trans hwaiting]
    refine ⟨fun _ => by simp [htransmit, sentTo, hbefore hfd], fun hmem => ?_⟩
    rw [hw.readFds, htransmit, if_neg (by simp)] at hmem
    simpa [htransmit, sentTo] using hwhole hmem

/-! ### Reading -/

theorem Promised.read_other {i : ℕ} {results : List RecvResult} (h : c.Promised i) (hij : i ≠ j)
    (hown : c.OwnSocket j) (hstep : c.handleReadSocket results j = .ok c') : c'.Promised i := by
  obtain ⟨reply, d, -, hd, rfl⟩ := handleReadSocket_ok.mp hstep
  obtain ⟨-, hfd, -⟩ := Dscrptr.advance_kept hd
  have howner : c.sockets d.socketFd ≠ some i := by
    rw [hfd]
    exact fun hs => hij (hown.2 i hs)
  refine h.of_kept ?_ ?_ ?_ fun hsocket => ?_
  · simp [afterReply, record, setDscrptr, hij]
  · simp [afterReply, record, setDscrptr, hij]
  · simp [afterReply, record, setDscrptr, lastReply_append, noteReply, hij.symm]
  · have hold : c.sockets (c.dscrptrs i).socketFd = some i := (closed_iff howner _ _).mp hsocket
    have hne : (c.dscrptrs i).socketFd ≠ d.socketFd := fun heq => howner (heq ▸ hold)
    refine ⟨hold, fun hmem => ?_, fun hmem => Finset.mem_of_mem_erase hmem⟩
    simp only [afterReply] at hmem
    split_ifs at hmem
    · exact Finset.mem_of_mem_erase hmem
    · rwa [Finset.mem_insert, or_iff_right hne] at hmem

/-- A session comes to its body with the reply to DATA only. -/
theorem Promised.read_self {results : List RecvResult} (hplain : c.Unmistaken (.read j results))
    (hstep : c.handleReadSocket results j = .ok c') : c'.Promised j := by
  obtain ⟨reply, d, hreply, hd, rfl⟩ := handleReadSocket_ok.mp hstep
  have hslot : (((c.setDscrptr j d).record
      [.answered j (c.dscrptrs j).state reply]).afterReply d).dscrptrs j = d := by
    simp [afterReply, record, setDscrptr]
  have hlast : lastReply j (((c.setDscrptr j d).record
      [.answered j (c.dscrptrs j).state reply]).afterReply d).log =
        ⟨some ((c.dscrptrs j).state, reply), []⟩ := lastReply_answered _ _ _ _
  intro hst
  rw [hslot] at hst ⊢
  rw [hlast]
  have hfrom : (c.dscrptrs j).state = .sendData ∧ checkServerCode reply = .ok := by
    rcases Dscrptr.advance_ok hd with ⟨-, -, mails, st, -, hmove, rfl⟩ | ⟨-, st, hmove, rfl⟩
    · -- behind a removed letter comes the next one, or QUIT
      obtain rfl : st = .sendBody := hst
      exfalso
      split_ifs at hmove
      · cases hmove
      · rcases checkServerCode_cases reply with hevent | hevent | hevent <;>
          rw [hevent] at hmove <;> cases hmove
    · obtain rfl : st = .sendBody := hst
      rcases checkServerCode_cases reply with hevent | hevent | hevent <;> rw [hevent] at hmove <;>
        cases hfrom : (c.dscrptrs j).state <;> rw [hfrom] at hmove <;> cases hmove
      exact ⟨rfl, hevent⟩
  obtain ⟨hdata, hevent⟩ := hfrom
  refine ⟨reply, by rw [hdata], ?_, fun _ => ⟨fun _ => rfl, fun hmem => ?_⟩⟩
  · exact (checkServerCode_eq_ok.mp hevent).resolve_left ((hplain.2 reply hreply).1 hdata)
  · exact absurd hmem (Finset.notMem_erase _ _)

/-! ### Registering -/

theorem Promised.register_other {i : ℕ} {connected attempt : Option ℕ} {path domain : CStr}
    {d : Dscrptr} (h : c.Promised i) (hij : i ≠ j)
    (hreach : Reaches connected domain c j attempt d) (hreg : Registers path j attempt d c c') :
    c'.Promised i := by
  have hslot : c'.dscrptrs i = c.dscrptrs i := hreg.other hij
  have hwrites : (c.dscrptrs i).socketFd ∈ c'.writeFds → (c.dscrptrs i).socketFd ∈ c.writeFds :=
    fun hmem => hreg.writeFds ▸ hmem
  cases hreach.registered hreg with
  | @opened fd _ _ _ hsockets hreads hlog =>
      refine h.of_kept (by rw [hslot]) (by rw [hslot]) ?_ fun hsocket => ?_
      · rw [hlog, lastReply_append]
        rfl
      · -- the number that the kernel gives out is slot `j`'s now
        rw [hsockets] at hsocket
        obtain ⟨hne, hsocket⟩ := sockets_of_open hij hsocket
        refine ⟨hsocket, hwrites, fun hmem => ?_⟩
        rwa [hreads, Finset.mem_insert, or_iff_right hne] at hmem
  | dropped _ _ _ hsockets hreads hlog =>
      refine h.of_kept (by rw [hslot]) (by rw [hslot]) (by rw [hlog]) fun hsocket => ?_
      refine ⟨hsockets ▸ hsocket, hwrites, fun hmem => ?_⟩
      rw [hreads] at hmem
      exact Finset.mem_of_mem_erase hmem
  | added _ _ _ _ hsockets hreads hlog =>
      refine h.of_kept (by rw [hslot]) (by rw [hslot]) (by rw [hlog]) fun hsocket => ?_
      exact ⟨hsockets ▸ hsocket, hwrites, fun hmem => hreads ▸ hmem⟩

theorem Promised.register_self {connected attempt : Option ℕ} {path domain : CStr} {d : Dscrptr}
    (h : j < c.readyDomainsCount → c.Promised j)
    (hdata : c.Connects j → (c.dscrptrs j).state ≠ .sendData)
    (hreach : Reaches connected domain c j attempt d) (hreg : Registers path j attempt d c c') :
    c'.Promised j := by
  have hslot : c'.dscrptrs j = d.enqueue path := hreg.slot
  have htried : ∀ d₀ d₁ : Dscrptr, d₀.state = (c.dscrptrs j).state → c.Connects j →
      d₀.initConn connected = .ok d₁ → d₁.state ≠ .sendBody := by
    intro d₀ d₁ hstate hconnects hd hbody
    rcases Dscrptr.initConn_cases hd with ⟨-, hdone, -⟩ | ⟨fd, -, hmove, -⟩
    · rw [hdone] at hbody
      cases hbody
    · rw [hbody, hstate] at hmove
      exact hdata hconnects (by simpa using clientFsmStep_reply (.inl rfl) hmove)
  cases hreach with
  | @fresh d₁ hnew hd =>
      intro hst
      rw [hslot, Dscrptr.enqueue_state] at hst
      have hconnects : c.Connects c.readyDomainsCount := fun hj => absurd hj (lt_irrefl _)
      exact absurd hst (htried (c.nextDscrptr domain) d₁ rfl hconnects hd)
  | reopened hj hdomain hidle hd =>
      intro hst
      rw [hslot, Dscrptr.enqueue_state] at hst
      exact absurd hst (htried _ _ rfl (fun _ => hidle) hd)
  | busy hj hdomain hidle =>
      by_cases hdone : (c.dscrptrs j).state = .done
      · intro hst
        rw [hslot, Dscrptr.enqueue_state, hdone] at hst
        cases hst
      · rw [Dscrptr.enqueue_of_ne_done hdone] at hslot
        refine (h hj).of_kept (by rw [hslot]) (by rw [hslot]) (by rw [hreg.log]; rfl) ?_
        rw [hreg.sockets, hreg.writeFds, hreg.readFds, if_neg hdone]
        exact fun hsocket => ⟨hsocket, fun hmem => hmem, fun hmem => hmem⟩

/-! ### The run -/

structure Attentive (c : Child) : Prop where
  filed : c.Filed
  promised : ∀ j < c.readyDomainsCount, c.Promised j

theorem Attentive.step {op : Op} (hc : c.Attentive) (hcalled : c.Called op)
    (hplain : c.Unmistaken op) (h : c.step op = .ok c') : c'.Attentive := by
  refine ⟨hc.filed.step op h, ?_⟩
  cases op with
  | register path connected =>
      obtain ⟨domain, j, attempt, d, hdomain, hreach, hreg⟩ := registerNewEmail_ok h
      obtain rfl : c.slotOf domain = j := hreach.slotOf hc.filed
      intro i hi
      by_cases hij : i = c.slotOf domain
      · subst hij
        exact Promised.register_self (hc.promised _) (hplain domain hdomain) hreach hreg
      · have hready : i < c.readyDomainsCount := hreg.ready_of_ne hreach.le hi hij
        exact Promised.register_other (hc.promised i hready) hij hreach hreg
  | write j k =>
      obtain ⟨r, -, hw⟩ := handleWriteSocket_ok h
      intro i hi
      rw [hw.ready] at hi
      by_cases hij : i = j
      · subst hij
        exact (hc.promised i hi).write_self hcalled.2 hplain h
      · exact (hc.promised i hi).write_other hij hplain.1 h
  | read j results =>
      obtain ⟨reply, d, -, -, hc'⟩ := handleReadSocket_ok.mp h
      have hready : c'.readyDomainsCount = c.readyDomainsCount := by rw [hc']; rfl
      intro i hi
      rw [hready] at hi
      by_cases hij : i = j
      · subst hij
        exact Promised.read_self hplain h
      · exact (hc.promised i hi).read_other hij hplain.1 h
  | select readReady writeReady exceptReady =>
      cases h
      intro j hj
      refine (hc.promised j hj).of_kept rfl rfl rfl fun hsocket => ⟨hsocket, ?_, ?_⟩
      · exact fun hmem => Finset.mem_of_mem_inter_left hmem
      · exact fun hmem => Finset.mem_of_mem_inter_left hmem

theorem Attentive.removesAccepted {op : Op} (hc : c.Attentive) (hcalled : c.Called op)
    (hplain : c.Unmistaken op) : c.RemovesAccepted op := by
  cases op with
  | read j results =>
      intro reply hreply
      have hfitting := (hplain.2 reply hreply).2
      -- a reply behind the body that is no error is a 2xx reply
      have hcode : (c.dscrptrs j).state = .sendBody → checkServerCode reply ≠ .error →
          200 ≤ replyCode reply ∧ replyCode reply < 300 := by
        intro hst hevent
        obtain ⟨h300, h354, himplemented⟩ := hfitting hst
        rcases checkServerCode_cases reply with hok | herror | hno
        · rw [checkServerCode_eq_ok] at hok
          omega
        · exact absurd herror hevent
        · exact absurd (checkServerCode_eq_commandNotImplemented.mp hno) himplemented
      constructor
      · intro hst hevent
        obtain ⟨hlow, hhigh⟩ := hcode hst hevent
        obtain ⟨data, hdata, h354, hopen⟩ := hc.promised j hcalled.1 hst
        have hsocket : c.sockets (c.dscrptrs j).socketFd = some j := by
          unfold receive at hreply
          split_ifs at hreply with hsome
          obtain ⟨i, hi⟩ := Option.isSome_iff_exists.mp hsome
          rw [hi, hplain.1.2 i hi]
        exact ⟨hlow, hhigh, data, hdata, h354, (hopen hsocket).2 hcalled.2⟩
      · intro c' h hrefused
        obtain ⟨reply', d, hreply', hd, rfl⟩ := handleReadSocket_ok.mp h
        obtain rfl : reply = reply' := Option.some.inj (hreply.symm.trans hreply')
        rcases Dscrptr.advance_ok hd with ⟨hst, hevent, -⟩ | ⟨-, st, -, rfl⟩
        · exact absurd ⟨hst, hcode hst hevent⟩ hrefused
        · simp [afterReply, record, setDscrptr]
  | register | write | select => trivial

/-- In a run in which nothing passes for an acceptance that is none, a letter
leaves its queue only when its body was sent after a 354 reply to DATA and is
answered with a 2xx reply. -/
theorem removed_on_acceptance {conf : Conf} {files : CStr → Option (List Char)}
    {memory : ℕ → Dscrptr} {ops : List Op}
    (hops : Along step (fun c op => c.Called op ∧ c.Unmistaken op)
      (bootChild conf files memory) ops) :
    Along step RemovesAccepted (bootChild conf files memory) ops :=
  along_of_invariant (I := Attentive) (fun _ _ _ hc hG h => hc.step hG.1 hG.2 h)
    (fun _ _ hc hG => hc.removesAccepted hG.1 hG.2)
    ⟨filed_boot conf files memory, fun j hj => absurd hj (Nat.not_lt_zero j)⟩ hops

theorem removed_on_acceptance_sample : Along step RemovesAccepted sampleChild
    (sampleSession ++ [.read 0 (sampleReply "250")]) := by
  have hops : Along step (fun c op => c.Called op ∧ c.Unmistaken op) sampleChild
      (sampleSession ++ [.read 0 (sampleReply "250")]) := by decide +kernel
  exact removed_on_acceptance hops

def twoLetters : List Op :=
  .register "m/u/new/1.3.a.b".toList (some 5) :: .register (sampleLetter "a.b") none ::
    (upToMailFrom 0 ++ upToBody 0)

/-- The reply to the body says that the command is not implemented, and the
letter is removed. -/
theorem refused_letter_removed :
    Along step Called sampleChild
        (twoLetters ++ [.read 0 [.bytes "502 Command not implemented\r\n".toList]]) ∧
      ¬ Along step RemovesAccepted sampleChild
        (twoLetters ++ [.read 0 [.bytes "502 Command not implemented\r\n".toList]]) := by
  refine ⟨by decide +kernel, fun h => ?_⟩
  obtain ⟨c, hrun, hst, hreply⟩ : ∃ c, run step sampleChild twoLetters = .ok c ∧
      (c.dscrptrs 0).state = .sendBody ∧
        c.receive [.bytes "502 Command not implemented\r\n".toList] (c.dscrptrs 0) =
          some "502 Command not implemented\r\n".toList :=
    ⟨_, rfl, by decide +kernel, by decide +kernel⟩
  have hremoved := (h.of_run hrun _ hreply).1 hst (by decide +kernel)
  exact absurd hremoved.2.1 (by decide +kernel)

end Child

end SmtpProj.Client
