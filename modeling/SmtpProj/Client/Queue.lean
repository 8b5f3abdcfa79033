import SmtpProj.Client.Frame

/-!
Which letter a positive reply to the body removes.

A session has no record of the letter it is sending: the letter is the head of
the list when the sender is sent, and the head of the list again when the reply
to the body is read. A registration for the domain in between puts a new letter
in front, so the reply removes a letter that was not sent, and the one that was
sent stays.

As long as nothing is registered while a letter is in progress, the head is the
letter that was taken (`Serving.current`). The rest of the invariant says when
a letter is there at all: a session that is opening, or idle with its socket
still watched, has one, which rules out that a registration opens a connection
in the middle of the session.
-/

namespace SmtpProj.Client

open Lib

/-! ### The letter in progress -/

/-- The letter that the present connection of slot `j` has taken. -/
def noteLetter (j : ℕ) (last : Option CStr) : Event → Option CStr
  | .connected i => if i = j then none else last
  | .took i path _ => if i = j then some path else last
  | _ => last

def lastTaken (j : ℕ) (log : List Event) : Option CStr := log.foldl (noteLetter j) none

/-- States from which a new connection starts a session at its beginning. -/
def ClientState.startsOver : ClientState → Bool
  | .init | .connect | .sendQuit | .invalid | .done => true
  | _ => false

namespace Child

/-- A letter was taken, and the reply to its body was not read yet. -/
def InProgress (j : ℕ) (c : Child) : Prop :=
  (c.dscrptrs j).state = .sendRcptTo ∨ (c.dscrptrs j).state = .sendData ∨
    (c.dscrptrs j).state = .sendBody ∨
    ((c.dscrptrs j).state = .sendMailFrom ∧ (c.dscrptrs j).socketFd ∈ c.readFds)

instance (j : ℕ) (c : Child) : Decidable (c.InProgress j) :=
  inferInstanceAs (Decidable (_ ∨ _ ∨ _ ∨ (_ ∧ _)))

/-- The calls for one domain, as the loop makes them: a handler is called for a
descriptor in the watched set. -/
def Dispatched (j : ℕ) (domain : CStr) (c : Child) : Op → Prop
  | .register path _ => emailDomain path = .ok domain
  | .write i _ => i = j ∧ j < c.readyDomainsCount ∧ (c.dscrptrs j).socketFd ∈ c.writeFds
  | .read i _ => i = j ∧ j < c.readyDomainsCount ∧ (c.dscrptrs j).socketFd ∈ c.readFds
  | .select _ _ _ => True

/-- Nothing is registered while a letter is in progress, and the memory of a
new slot does not hold a state of a session. -/
def Uninterrupted (j : ℕ) (c : Child) : Op → Prop
  | .register _ _ =>
      (j < c.readyDomainsCount → ¬ c.InProgress j) ∧
        (c.readyDomainsCount ≤ j → (c.dscrptrs j).state.startsOver)
  | .write _ _ => True
  | .read _ _ => True
  | .select _ _ _ => True

/-- A positive reply to a body removes the letter that the session took. -/
def RemovesSent (j : ℕ) (c : Child) : Op → Prop
  | .read i results =>
      i = j → (c.dscrptrs j).state = .sendBody →
        ∀ reply ∈ c.receive results (c.dscrptrs j), checkServerCode reply ≠ .error →
          (lastTaken j c.log).isSome ∧
            (c.dscrptrs j).mailsList.head? = some (lastTaken j c.log)
  | .register _ _ => True
  | .write _ _ => True
  | .select _ _ _ => True

instance (j : ℕ) (domain : CStr) (c : Child) : DecidablePred (Dispatched j domain c)
  | .register path _ => inferInstanceAs (Decidable (emailDomain path = _))
  | .write _ _ => inferInstanceAs (Decidable (_ ∧ _ ∧ _))
  | .read _ _ => inferInstanceAs (Decidable (_ ∧ _ ∧ _))
  | .select _ _ _ => inferInstanceAs (Decidable True)

instance (j : ℕ) (c : Child) : DecidablePred (Uninterrupted j c)
  | .register _ _ => inferInstanceAs (Decidable ((_ → _) ∧ (_ → _)))
  | .write _ _ => inferInstanceAs (Decidable True)
  | .read _ _ => inferInstanceAs (Decidable True)
  | .select _ _ _ => inferInstanceAs (Decidable True)

instance (j : ℕ) (c : Child) : DecidablePred (RemovesSent j c)
  | .read _ results =>
      inferInstanceAs (Decidable (_ → _ → ∀ reply ∈ c.receive results (c.dscrptrs j), _ → _ ∧ _))
  | .register _ _ => inferInstanceAs (Decidable True)
  | .write _ _ => inferInstanceAs (Decidable True)
  | .select _ _ _ => inferInstanceAs (Decidable True)

end Child

@[simp] theorem lastTaken_append (j : ℕ) (log events : List Event) :
    lastTaken j (log ++ events) = events.foldl (noteLetter j) (lastTaken j log) := by
  simp [lastTaken, List.foldl_append]

theorem foldl_noteLetter_sendAll (j : ℕ) (last : Option CStr) (owner : Option ℕ)
    (writes : ℕ → Option ℕ) (n : ℕ) (data : List CStr) :
    (sendAll owner writes n data).2.foldl (noteLetter j) last = last := by
  induction data generalizing n with
  | nil => rfl
  | cons text rest ih =>
      have htext : (sendData owner text (writes n)).2.foldl (noteLetter j) last = last := by
        unfold sendData
        split <;> rfl
      simp [sendAll, List.foldl_append, htext, ih (n + 1)]

namespace Child

variable {j : ℕ} {c c' : Child}

theorem Wrote.lastTaken {k : WriteKernel} {r : Sending} (hw : Wrote k j r c c') :
    lastTaken j c'.log = r.taken.or (lastTaken j c.log) := by
  have hsent : ∀ last, (c.transmit k r).2.foldl (noteLetter j) last = last := by
    intro last
    unfold transmit
    cases r.early with
    | some code => rfl
    | none => exact foldl_noteLetter_sendAll _ _ _ _ _ _
  have hmoved : ∀ (renamed : Option CStr) (last : Option CStr),
      (renamed.toList.map fun path => Event.moved path (renameTarget path)).foldl
        (noteLetter j) last = last := by
    rintro (_ | path) last <;> rfl
  rw [hw.log, lastTaken_append, hsent]
  simp only [applySending, List.append_assoc, lastTaken_append, List.foldl_append, hmoved]
  cases r.taken with
  | none => rfl
  | some path => simp [noteLetter]

/-! ### The invariant -/

structure Serving (j : ℕ) (c : Child) : Prop where
  sentinel : none ∈ (c.dscrptrs j).mailsList
  opening : (c.dscrptrs j).state = .connect ∨ (c.dscrptrs j).state = .sendHelo ∨
    (c.dscrptrs j).state = .sendMailFrom → 0 < count (c.dscrptrs j).mailsList
  idle : (c.dscrptrs j).state = .init →
    (c.dscrptrs j).socketFd ∈ c.readFds ∨ (c.dscrptrs j).socketFd ∈ c.writeFds →
      0 < count (c.dscrptrs j).mailsList
  current : c.InProgress j → ∃ path mails,
    (c.dscrptrs j).mailsList = some path :: mails ∧ lastTaken j c.log = some path

theorem Serving.write {k : WriteKernel} (hc : c.Serving j)
    (hfd : (c.dscrptrs j).socketFd ∈ c.writeFds) (h : c.handleWriteSocket k j = .ok c') :
    c'.Serving j := by
  obtain ⟨r, hr, hw⟩ := handleWriteSocket_ok h
  obtain ⟨hprep, hearly⟩ := Dscrptr.sendMsgToServer_ok hr
  have hslot : c'.dscrptrs j = r.dscrptr := by rw [hw.dscrptrs, Function.update_self]
  constructor
  · rw [hslot, hprep.mailsList]
    exact hc.sentinel
  · rw [hslot, hprep.mailsList, hprep.state]
    exact hc.opening
  · rw [hslot, hprep.mailsList, hprep.state]
    exact fun hst _ => hc.idle hst (.inr hfd)
  · intro hprogress
    rw [hslot, hprep.mailsList, hw.lastTaken]
    unfold InProgress at hprogress
    rw [hslot, hprep.state, hprep.socketFd, hw.readFds, hprep.socketFd] at hprogress
    cases htaken : r.taken with
    | some path =>
        obtain ⟨-, -, mails, hmails⟩ := hprep.taken path htaken
        exact ⟨path, mails, hmails, rfl⟩
    | none =>
        -- no letter is taken, so the step is not the sender's, or it only waits
        refine hc.current ?_
        rcases hprogress with hst | hst | hst | ⟨hst, hmem⟩
        · exact .inl hst
        · exact .inr (.inl hst)
        · exact .inr (.inr (.inl hst))
        · refine .inr (.inr (.inr ⟨hst, ?_⟩))
          have hwaiting : r.early = some .waiting := by
            rcases Dscrptr.retry_snd k.now (c.dscrptrs j) with hnone | hsome
            · exact absurd htaken (hprep.takes hst (hearly.trans hnone))
            · exact hearly.trans hsome
          have hcode : (c.transmit k r).1 = .waiting := by simp [transmit, hwaiting]
          rwa [hcode, if_neg (by simp)] at hmem

/-- Where a reply leads to, by state. -/
theorem clientFsmStep_reply {st st' : ClientState} {event : ClientEvent}
    (hevent : event = .ok ∨ event = .error ∨ event = .commandNotImplemented)
    (h : clientFsmStep st event = .ok st') :
    st' = .done ∨ st' = .init ∨ (st = .init ∧ st' = .connect) ∨ (st = .connect ∧ st' = .sendHelo) ∨
      (st = .sendHelo ∧ st' = .sendMailFrom) ∨ (st = .sendMailFrom ∧ st' = .sendRcptTo) ∨
      (st = .sendRcptTo ∧ st' = .sendData) ∨ (st = .sendData ∧ st' = .sendBody) ∨
      (st = .sendBody ∧ event = .ok ∧ st' = .sendQuit) := by
  rcases hevent with rfl | rfl | rfl <;> cases st <;>
    simp [clientFsmStep, clientFsmTransTable] at h <;> subst h <;> simp

theorem Serving.of_reply {d : Dscrptr} {reply : CStr}
    (hsentinel : none ∈ d.mailsList)
    (hopening : d.state = .connect ∨ d.state = .sendHelo ∨ d.state = .sendMailFrom →
      0 < count d.mailsList)
    (hcurrent : d.state = .sendRcptTo ∨ d.state = .sendData ∨ d.state = .sendBody →
      ∃ path mails, d.mailsList = some path :: mails ∧ lastTaken j c.log = some path) :
    (((c.setDscrptr j d).record
      [.answered j (c.dscrptrs j).state reply]).afterReply d).Serving j := by
  have hslot : (((c.setDscrptr j d).record
      [.answered j (c.dscrptrs j).state reply]).afterReply d).dscrptrs j = d := by
    simp [afterReply, record, setDscrptr]
  have hunread : d.socketFd ∉ c.readFds.erase d.socketFd := Finset.notMem_erase _ _
  constructor
  · rwa [hslot]
  · rwa [hslot]
  · rw [hslot]
    rintro hst (hmem | hmem)
    · exact absurd hmem hunread
    · simp [afterReply, hst] at hmem
  · rw [hslot]
    intro hprogress
    unfold InProgress at hprogress
    rw [hslot] at hprogress
    have hlast : lastTaken j (((c.setDscrptr j d).record
        [.answered j (c.dscrptrs j).state reply]).afterReply d).log = lastTaken j c.log := by
      simp only [afterReply, record, setDscrptr, lastTaken_append]
      rfl
    rw [hlast]
    rcases hprogress with hst | hst | hst | ⟨-, hmem⟩
    · exact hcurrent (.inl hst)
    · exact hcurrent (.inr (.inl hst))
    · exact hcurrent (.inr (.inr hst))
    · exact absurd hmem hunread

theorem Serving.read {results : List RecvResult} (hc : c.Serving j)
    (hfd : (c.dscrptrs j).socketFd ∈ c.readFds) (h : c.handleReadSocket results j = .ok c') :
    c'.Serving j := by
  obtain ⟨reply, d, -, hd, rfl⟩ := handleReadSocket_ok.mp h
  have hevent := checkServerCode_cases reply
  rcases Dscrptr.advance_ok hd with
    ⟨hst, hpos, mails, st, hmails, hstep, rfl⟩ | ⟨hne, st, hstep, rfl⟩
  · have hsentinel : none ∈ mails := by
      have hc' := hc.sentinel
      unfold removeFirst at hmails
      split at hmails
      next hnil => simp [hnil] at hc'
      next => cases hmails
      next path rest hlist =>
        cases hmails
        simpa [hlist] using hc'
    -- a letter is left and its sender comes next, or the session ends
    have hnext : (st = .sendMailFrom ∧ 0 < count mails) ∨ st = .sendQuit :=
      (clientFsmStep_sendBody reply hpos hstep).1
    refine Serving.of_reply hsentinel ?_ ?_
    · rcases hnext with ⟨rfl, hcount⟩ | rfl
      · exact fun _ => hcount
      · rintro (h | h | h) <;> cases h
    · rcases hnext with ⟨rfl, -⟩ | rfl <;> rintro (h | h | h) <;> cases h
  · have hmove := clientFsmStep_reply hevent hstep
    refine Serving.of_reply hc.sentinel ?_ ?_
    · rintro (rfl | rfl | rfl)
      · have hfrom : (c.dscrptrs j).state = .init := by simpa using hmove
        exact hc.idle hfrom (.inl hfd)
      · have hfrom : (c.dscrptrs j).state = .connect := by simpa using hmove
        exact hc.opening (.inl hfrom)
      · have hfrom : (c.dscrptrs j).state = .sendHelo := by simpa using hmove
        exact hc.opening (.inr (.inl hfrom))
    · rintro (rfl | rfl | rfl)
      · have hfrom : (c.dscrptrs j).state = .sendMailFrom := by simpa using hmove
        exact hc.current (.inr (.inr (.inr ⟨hfrom, hfd⟩)))
      · have hfrom : (c.dscrptrs j).state = .sendRcptTo := by simpa using hmove
        exact hc.current (.inl hfrom)
      · have hfrom : (c.dscrptrs j).state = .sendData := by simpa using hmove
        exact hc.current (.inr (.inl hfrom))

theorem count_addFirst_pos {path : CStr} {mails : List (Option CStr)} (h : none ∈ mails) :
    0 < count (addFirst path mails) := by
  have hlen := List.length_pos_of_mem h
  simp only [count, addFirst, List.length_cons]
  omega

theorem Registers.serving {path : CStr} {attempt : Option ℕ} {d : Dscrptr}
    (hreg : Registers path j attempt d c c') (hsentinel : none ∈ d.mailsList)
    (hst : d.state = .connect ∨ d.state = .sendHelo ∨ d.state = .init ∨ d.state = .done) :
    c'.Serving j := by
  have hslot : c'.dscrptrs j = d.enqueue path := hreg.slot
  have hidle : ¬ c'.InProgress j → c'.InProgress j → ∃ path mails,
      (c'.dscrptrs j).mailsList = some path :: mails ∧ lastTaken j c'.log = some path :=
    fun hn h => absurd h hn
  by_cases hdone : d.state = .done
  · obtain ⟨hstate, hmails⟩ := Dscrptr.enqueue_of_done path hdone
    refine ⟨?_, ?_, ?_, hidle ?_⟩
    · rwa [hslot, hmails]
    · rw [hslot, hstate]
      rintro (h | h | h) <;> cases h
    · rw [hslot, hstate]
      intro h
      cases h
    · unfold InProgress
      rw [hslot, hstate]
      simp
  · have hcount : 0 < count (c'.dscrptrs j).mailsList := by
      rw [hslot, Dscrptr.enqueue_of_ne_done hdone]
      exact count_addFirst_pos hsentinel
    refine ⟨?_, fun _ => hcount, fun _ _ => hcount, hidle ?_⟩
    · rw [hslot, Dscrptr.enqueue_of_ne_done hdone]
      exact List.mem_cons_of_mem _ hsentinel
    · unfold InProgress
      rw [hslot, Dscrptr.enqueue_of_ne_done hdone]
      rcases hst with hst | hst | hst | hst <;> simp [hst]

/-- A session that starts over is then connecting, or done. -/
theorem initConn_startsOver {connected : Option ℕ} {d d' : Dscrptr}
    (hst : d.state.startsOver = true) (h : d.initConn connected = .ok d') :
    d'.state = .connect ∨ d'.state = .sendHelo ∨ d'.state = .init ∨ d'.state = .done := by
  obtain ⟨st, hok, hrest⟩ := Dscrptr.initConn_ok h
  have hstep : st = .connect ∨ st = .sendHelo ∨ st = .init := by
    cases hd : d.state <;> simp [hd, ClientState.startsOver] at hst <;>
      simp [hd, clientFsmStep, clientFsmTransTable] at hok <;> simp [← hok]
  rcases hrest with ⟨fd, -, rfl⟩ | ⟨st', -, herr, rfl⟩
  · rcases hstep with rfl | rfl | rfl <;> simp
  · have hdone : st' = .done := by
      rcases hstep with rfl | rfl | rfl <;>
        simpa [clientFsmStep, clientFsmTransTable] using herr.symm
    exact .inr (.inr (.inr hdone))

/-- A registered session with an empty list, or at its start, starts over when
a connection is opened. -/
theorem Serving.startsOver (hc : c.Serving j) (hidle : ¬ c.InProgress j)
    (hopen : count (c.dscrptrs j).mailsList = 0 ∨ (c.dscrptrs j).state = .init) :
    (c.dscrptrs j).state.startsOver = true := by
  have hopening := hc.opening
  unfold InProgress at hidle
  rcases hopen with hcount | hst
  · rw [hcount] at hopening
    cases hd : (c.dscrptrs j).state <;> simp [hd] at hopening hidle <;> rfl
  · rw [hst]
    rfl

theorem Serving.register {path domain : CStr} {connected attempt : Option ℕ} {d : Dscrptr}
    (hc : c.Serving j) (hj : j < c.readyDomainsCount) (hidle : ¬ c.InProgress j)
    (hreach : Reaches connected domain c j attempt d) (hreg : Registers path j attempt d c c') :
    c'.Serving j := by
  rcases hreach.known hj with ⟨hopen, rfl, hd⟩ | ⟨hbusy, rfl, rfl⟩
  · refine hreg.serving ?_ (initConn_startsOver (hc.startsOver hidle hopen) hd)
    rw [(Dscrptr.initConn_kept hd).2]
    exact hc.sentinel
  · -- the session goes on as it is, with one more letter
    by_cases hdone : (c.dscrptrs j).state = .done
    · exact hreg.serving hc.sentinel (.inr (.inr (.inr hdone)))
    · have hslot : c'.dscrptrs j =
          { c.dscrptrs j with mailsList := addFirst path (c.dscrptrs j).mailsList } := by
        rw [hreg.slot, Dscrptr.enqueue_of_ne_done hdone]
      have hcount : 0 < count (c'.dscrptrs j).mailsList := by
        rw [hslot]
        exact count_addFirst_pos hc.sentinel
      have hreads : c'.readFds = c.readFds := by rw [hreg.readFds, if_neg hdone]; rfl
      refine ⟨?_, fun _ => hcount, fun _ _ => hcount, fun h => absurd ?_ hidle⟩
      · rw [hslot]
        exact List.mem_cons_of_mem _ hc.sentinel
      · unfold InProgress at h ⊢
        rwa [hslot, hreads] at h

/-! ### The run -/

structure Serves (j : ℕ) (domain : CStr) (c : Child) : Prop where
  filed : c.Filed
  slot : (j < c.readyDomainsCount ∧ (c.dscrptrs j).domain = domain ∧ c.Serving j) ∨
    (j = c.readyDomainsCount ∧ ∀ i < c.readyDomainsCount, (c.dscrptrs i).domain ≠ domain)

theorem Serves.step {domain : CStr} {op : Op} (hc : c.Serves j domain)
    (hop : Dispatched j domain c op) (hG : Uninterrupted j c op) (h : c.step op = .ok c') :
    c'.Serves j domain := by
  refine ⟨hc.filed.step op h, ?_⟩
  cases op with
  | register path connected =>
      refine .inl ?_
      obtain ⟨dom, i, attempt, d, hdom, hreach, hreg⟩ := registerNewEmail_ok h
      obtain rfl : domain = dom := Except.ok.inj (hop.symm.trans hdom)
      obtain ⟨hd, -, hunique, -⟩ := hreach.filed hc.filed
      rcases hc.slot with ⟨hj, hdomain, hserving⟩ | ⟨rfl, hnew⟩
      · obtain rfl : j = i := hunique j hj hdomain
        refine ⟨hreg.ready_self, ?_, hserving.register hj (hG.1 hj) hreach hreg⟩
        rw [hreg.slot, Dscrptr.enqueue_domain, hd]
      · cases hreach with
        | fresh _ hconn =>
            refine ⟨hreg.ready_self, ?_, ?_⟩
            · rw [hreg.slot, Dscrptr.enqueue_domain, hd]
            · have hst := initConn_startsOver (d := c.nextDscrptr domain) (hG.2 le_rfl) hconn
              exact hreg.serving (by simp) hst
        | reopened hi hdomain => exact absurd hdomain (hnew _ hi)
        | busy hi hdomain => exact absurd hdomain (hnew _ hi)
  | write i k =>
      obtain ⟨rfl, hi, hfd⟩ := hop
      rcases hc.slot with ⟨-, hdomain, hserving⟩ | ⟨rfl, -⟩
      · refine .inl ⟨?_, (hc.filed.domain_kept hi h).trans hdomain, hserving.write hfd h⟩
        obtain ⟨r, -, hw⟩ := handleWriteSocket_ok h
        rwa [hw.ready]
      · exact absurd hi (lt_irrefl _)
  | read i results =>
      obtain ⟨rfl, hi, hfd⟩ := hop
      rcases hc.slot with ⟨-, hdomain, hserving⟩ | ⟨rfl, -⟩
      · refine .inl ⟨?_, (hc.filed.domain_kept hi h).trans hdomain, hserving.read hfd h⟩
        obtain ⟨reply, d, -, -, rfl⟩ := handleReadSocket_ok.mp h
        exact hi
      · exact absurd hi (lt_irrefl _)
  | select readReady writeReady exceptReady =>
      cases h
      refine hc.slot.imp_left fun ⟨hj, hdomain, hserving⟩ => ⟨hj, hdomain, ?_⟩
      refine ⟨hserving.sentinel, hserving.opening, fun hst hfd => hserving.idle hst ?_,
        fun h => hserving.current ?_⟩
      · exact hfd.imp (fun hr => Finset.mem_of_mem_inter_left hr)
          fun hw => Finset.mem_of_mem_inter_left hw
      · exact h.imp_right fun h => h.imp_right fun h => h.imp_right fun ⟨hst, hfd⟩ =>
          ⟨hst, Finset.mem_of_mem_inter_left hfd⟩

theorem Serves.removesSent {domain : CStr} {op : Op} (hc : c.Serves j domain)
    (hop : Dispatched j domain c op) : RemovesSent j c op := by
  cases op with
  | read i results =>
      rintro - hst reply - -
      rcases hc.slot with ⟨-, -, hserving⟩ | ⟨rfl, -⟩
      · obtain ⟨path, mails, hmails, hlast⟩ := hserving.current (.inr (.inr (.inl hst)))
        rw [hmails, hlast]
        exact ⟨rfl, rfl⟩
      · exact absurd hop.2.1 (lt_irrefl _)
  | register path connected => trivial
  | write i k => trivial
  | select readReady writeReady exceptReady => trivial

/-- From the registration of its first letter on, a domain whose letters are
registered between its transactions loses none that was not sent, and keeps
none that was. -/
theorem removesSent_of_uninterrupted {conf : Conf} {files : CStr → Option (List Char)}
    {memory : ℕ → Dscrptr} {before ops : List Op} {domain : CStr}
    (hbefore : run step (bootChild conf files memory) before = .ok c)
    (hnew : ∀ i < c.readyDomainsCount, (c.dscrptrs i).domain ≠ domain)
    (hops : Along step (fun c₁ op => Dispatched c.readyDomainsCount domain c₁ op ∧
      Uninterrupted c.readyDomainsCount c₁ op) c ops) :
    Along step (RemovesSent c.readyDomainsCount) c ops :=
  along_of_invariant (I := Serves c.readyDomainsCount domain)
    (fun _ _ _ hc hG h => hc.step hG.1 hG.2 h) (fun _ _ hc hG => hc.removesSent hG.1)
    ⟨filed_of_run hbefore, .inr ⟨rfl, hnew⟩⟩ hops

def sampleSession : List Op :=
  .register (sampleLetter "a.b") (some 5) :: (upToMailFrom 0 ++ upToBody 0)

theorem removesSent_sample :
    Along step (RemovesSent 0) sampleChild (sampleSession ++ [.read 0 (sampleReply "250")]) := by
  have hbefore : run step sampleChild [] = .ok sampleChild := rfl
  have hops : Along step (fun c op => Dispatched 0 "a.b".toList c op ∧ Uninterrupted 0 c op)
      sampleChild (sampleSession ++ [.read 0 (sampleReply "250")]) := by decide +kernel
  exact removesSent_of_uninterrupted hbefore (by simp [sampleChild, bootChild]) hops

/-- A letter that is registered while the reply to the body is awaited is
removed in place of the one that was sent. -/
theorem reply_removes_new_letter :
    Along step (Dispatched 0 "a.b".toList) sampleChild (sampleSession ++
        [.register "m/u/new/1.3.a.b".toList none, .read 0 (sampleReply "250")]) ∧
      ¬ Along step (RemovesSent 0) sampleChild (sampleSession ++
        [.register "m/u/new/1.3.a.b".toList none, .read 0 (sampleReply "250")]) := by
  constructor
  · decide +kernel
  · decide +kernel

end Child

end SmtpProj.Client
