import SmtpProj.Client.Passes

/-!
The times of the configuration, which have no effect.

`total_send_time` and `retry_time` are read from the configuration, handed down
to every child, and stored in every descriptor. They are looked at, with the
clock, only for a descriptor with a time of its last attempt, and no descriptor
ever gets one. So a child does the same whatever the two times are, and
whatever the clock says: what is left of a run without them is the run without
them.
-/

namespace SmtpProj.Client

open Lib

def Conf.untimed (conf : Conf) : Conf := { conf with totalSendTime := 0, retryTime := 0 }

def Dscrptr.untimed (d : Dscrptr) : Dscrptr := { d with totalSendTime := 0, retryTime := 0 }

def Child.untimed (c : Child) : Child :=
  { c with conf := c.conf.untimed, dscrptrs := fun j => (c.dscrptrs j).untimed }

def WriteKernel.unclocked (k : WriteKernel) : WriteKernel := { k with now := 0 }

def Pass.unclocked (p : Pass) : Pass := { p with writes := fun fd => (p.writes fd).unclocked }

def Sending.untimed (r : Sending) : Sending := { r with dscrptr := r.dscrptr.untimed }

/-! ### The descriptor -/

namespace Dscrptr

theorem initConn_untimed (connected : Option ℕ) (d : Dscrptr) :
    (d.initConn connected).map untimed = d.untimed.initConn connected := by
  have hstate : d.untimed.state = d.state := rfl
  unfold initConn
  rw [hstate]
  cases clientFsmStep d.state .ok with
  | error halt => rfl
  | ok st =>
      cases connected with
      | some fd => rfl
      | none =>
          simp only [bind, Except.bind]
          cases clientFsmStep st .error <;> rfl

theorem advance_untimed (event : ClientEvent) (d : Dscrptr) :
    (d.advance event).map untimed = d.untimed.advance event := by
  have hstate : d.untimed.state = d.state := rfl
  have hmails : d.untimed.mailsList = d.mailsList := rfl
  unfold advance
  rw [hstate, hmails]
  split_ifs
  · cases removeFirst d.mailsList with
    | error halt => rfl
    | ok mails =>
        simp only [bind, Except.bind]
        split <;> rfl
  · cases clientFsmStep d.state event <;> rfl

@[simp] theorem enqueue_untimed (path : CStr) (d : Dscrptr) :
    (d.enqueue path).untimed = d.untimed.enqueue path := by
  have hstate : d.untimed.state = d.state := rfl
  unfold enqueue
  rw [hstate]
  split_ifs <;> rfl

theorem sendCommand_untimed (hostName : CStr) (files : CStr → Option (List Char))
    (place : Option CStr) (d : Dscrptr) :
    (d.sendCommand hostName files place).map Sending.untimed =
      d.untimed.sendCommand hostName files place := by
  have hstate : d.untimed.state = d.state := rfl
  have hmails : d.untimed.mailsList = d.mailsList := rfl
  have hbuffer : d.untimed.buffer = d.buffer := rfl
  unfold sendCommand
  rw [hstate, hmails, hbuffer]
  cases d.state with
  | sendMailFrom =>
      rcases d.mailsList with _ | ⟨_ | path, mails⟩
      · rfl
      · rfl
      · simp only [bind, Except.bind]
        cases readMsgFile (files path) with
        | error halt => rfl
        | ok buffer => simp only; cases sendMailFrom place buffer <;> rfl
  | sendRcptTo =>
      simp only [bind, Except.bind]
      cases sendRcptTo place d.buffer <;> rfl
  | sendBody =>
      simp only [bind, Except.bind]
      cases sendMsgBody place <;> rfl
  | sendHelo | sendData | sendQuit | init | connect | invalid | done => rfl

/-- Without an attempt the clock is not looked at. -/
theorem sendMsgToServer_untimed {d : Dscrptr} (hattempt : d.lastAttemptTime = 0) (now : ℤ)
    (hostName : CStr) (files : CStr → Option (List Char)) (place : Option CStr) :
    (d.sendMsgToServer now hostName files place).map Sending.untimed =
      d.untimed.sendMsgToServer 0 hostName files place := by
  have hattempt' : d.untimed.lastAttemptTime = 0 := hattempt
  simp only [sendMsgToServer, retry, hattempt, hattempt', ne_eq, not_true, if_false]
  exact sendCommand_untimed hostName files place d

end Dscrptr

/-! ### The calls -/

namespace Child

variable {c c' : Child} {j : ℕ}

theorem setDscrptr_untimed (j : ℕ) (d : Dscrptr) (c : Child) :
    (c.setDscrptr j d).untimed = c.untimed.setDscrptr j d.untimed := by
  have hslots : (fun i => (Function.update c.dscrptrs j d i).untimed) =
      Function.update (fun i => (c.dscrptrs i).untimed) j d.untimed := by
    funext i
    by_cases hij : i = j
    · subst hij
      simp
    · simp [hij]
  simp only [setDscrptr, untimed, hslots]

@[simp] theorem openSocket_untimed (connected : Option ℕ) (j : ℕ) (c : Child) :
    (c.openSocket connected j).untimed = c.untimed.openSocket connected j := by
  cases connected <;> rfl

theorem initConnSettings_untimed (connected : Option ℕ) (j : ℕ) (c : Child) :
    (c.initMailDomainConnSettings connected j).map untimed =
      c.untimed.initMailDomainConnSettings connected j := by
  have hslot : c.untimed.dscrptrs j = (c.dscrptrs j).untimed := rfl
  unfold initMailDomainConnSettings
  rw [hslot, ← Dscrptr.initConn_untimed]
  cases (c.dscrptrs j).initConn connected with
  | error halt => rfl
  | ok d =>
      simp only [bind, Except.bind, Except.map, openSocket_untimed, setDscrptr_untimed]

@[simp] theorem enqueue_untimed (path : CStr) (j : ℕ) (c : Child) :
    (c.enqueue path j).untimed = c.untimed.enqueue path j := by
  have hslot : c.untimed.dscrptrs j = (c.dscrptrs j).untimed := rfl
  have hstate : (c.dscrptrs j).untimed.state = (c.dscrptrs j).state := rfl
  have hset := setDscrptr_untimed j ((c.dscrptrs j).enqueue path) c
  rw [Dscrptr.enqueue_untimed] at hset
  simp only [enqueue, hslot, hstate, ← hset]
  rfl

@[simp] theorem findDomain_untimed (domain : CStr) (c : Child) :
    c.untimed.findDomain domain = c.findDomain domain := rfl

theorem registerDomain_untimed (connected : Option ℕ) (domain : CStr) (c : Child) :
    (c.registerDomain connected domain).map untimed =
      c.untimed.registerDomain connected domain := by
  have hready : c.untimed.readyDomainsCount = c.readyDomainsCount := rfl
  have hnext : c.untimed.nextDscrptr domain = (c.nextDscrptr domain).untimed := rfl
  unfold registerDomain
  simp only [hready, hnext]
  split_ifs
  · rw [← setDscrptr_untimed, ← initConnSettings_untimed]
    cases (c.setDscrptr c.readyDomainsCount (c.nextDscrptr domain)).initMailDomainConnSettings
        connected c.readyDomainsCount with
    | error halt => rfl
    | ok c₁ =>
        have hset := setDscrptr_untimed c.readyDomainsCount
          { c₁.dscrptrs c.readyDomainsCount with mailsList := [none] }
          { c₁ with maxFd := max c₁.maxFd (c₁.dscrptrs c.readyDomainsCount).socketFd }
        exact congrArg Except.ok (congrArg (fun c' : Child =>
          { c' with readyDomainsCount := c.readyDomainsCount + 1 }) hset)
  · rfl

theorem reopenDomain_untimed (connected : Option ℕ) (j : ℕ) (c : Child) :
    (c.reopenDomain connected j).map untimed = c.untimed.reopenDomain connected j := by
  have hmails : (c.untimed.dscrptrs j).mailsList = (c.dscrptrs j).mailsList := rfl
  have hstate : (c.untimed.dscrptrs j).state = (c.dscrptrs j).state := rfl
  unfold reopenDomain
  rw [hmails, hstate]
  split_ifs
  · exact initConnSettings_untimed connected j c
  · rfl

theorem enqueue_bind_untimed (path : CStr) (j : ℕ) (x : Except Halt Child) :
    (x >>= fun c => .ok (c.enqueue path j)).map untimed =
      x.map untimed >>= fun c => .ok (c.enqueue path j) := by
  cases x with
  | error halt => rfl
  | ok c => exact congrArg Except.ok (enqueue_untimed path j c)

theorem registerNewEmail_untimed (connected : Option ℕ) (path : CStr) (c : Child) :
    (c.registerNewEmail connected path).map untimed =
      c.untimed.registerNewEmail connected path := by
  cases hdomain : emailDomain path with
  | error halt =>
      unfold registerNewEmail
      rw [hdomain]
      rfl
  | ok domain =>
      rw [registerNewEmail_eq hdomain, registerNewEmail_eq hdomain, findDomain_untimed]
      cases c.findDomain domain with
      | none =>
          refine (enqueue_bind_untimed path c.readyDomainsCount _).trans ?_
          rw [registerDomain_untimed]
          rfl
      | some j =>
          refine (enqueue_bind_untimed path j _).trans ?_
          rw [reopenDomain_untimed]
          rfl

@[simp] theorem applySending_untimed (k : WriteKernel) (j : ℕ) (r : Sending) (c : Child) :
    (c.applySending k j r).untimed = c.untimed.applySending k.unclocked j r.untimed := by
  have hdscrptr : r.untimed.dscrptr = r.dscrptr.untimed := rfl
  unfold applySending
  rw [hdscrptr, ← setDscrptr_untimed]
  rfl

theorem afterSend_untimed (code : SendCode) (d : Dscrptr) (c : Child) :
    (c.afterSend code d).map untimed = c.untimed.afterSend code d.untimed := by
  have hstate : d.untimed.state = d.state := rfl
  unfold afterSend
  rw [hstate]
  cases code with
  | expired =>
      simp only [bind, Except.bind]
      cases clientFsmStep d.state .rtimeExpired <;> rfl
  | sent | failed | waiting => rfl

theorem handleWriteSocket_untimed (k : WriteKernel)
    (hattempt : (c.dscrptrs j).lastAttemptTime = 0) :
    (c.handleWriteSocket k j).map untimed = c.untimed.handleWriteSocket k.unclocked j := by
  have hsend := Dscrptr.sendMsgToServer_untimed hattempt k.now c.conf.hostName c.files (c.placeAt k)
  have hslot : c.untimed.dscrptrs j = (c.dscrptrs j).untimed := rfl
  unfold handleWriteSocket
  rw [hslot]
  change _ = (c.dscrptrs j).untimed.sendMsgToServer 0 c.conf.hostName c.files (c.placeAt k) >>= _
  rw [← hsend]
  cases (c.dscrptrs j).sendMsgToServer k.now c.conf.hostName c.files (c.placeAt k) with
  | error halt => rfl
  | ok r =>
      refine (afterSend_untimed (c.transmit k r).1 r.dscrptr
        ((c.applySending k j r).record (c.transmit k r).2)).trans ?_
      have happly : ((c.applySending k j r).record (c.transmit k r).2).untimed =
          (c.untimed.applySending k.unclocked j r.untimed).record (c.transmit k r).2 :=
        congrArg (record (c.transmit k r).2) (applySending_untimed k j r c)
      rw [happly]
      rfl

theorem handleReadSocket_untimed (results : List RecvResult) (j : ℕ) (c : Child) :
    (c.handleReadSocket results j).map untimed = c.untimed.handleReadSocket results j := by
  have hslot : c.untimed.dscrptrs j = (c.dscrptrs j).untimed := rfl
  have hreceive : c.untimed.receive results (c.dscrptrs j).untimed =
      c.receive results (c.dscrptrs j) := rfl
  unfold handleReadSocket
  rw [hslot, hreceive]
  cases c.receive results (c.dscrptrs j) with
  | none => rfl
  | some reply =>
      simp only [← Dscrptr.advance_untimed]
      cases (c.dscrptrs j).advance (checkServerCode reply) with
      | error halt => rfl
      | ok d =>
          refine congrArg Except.ok ?_
          exact congrArg (fun c' : Child => (c'.record [.answered j (c.dscrptrs j).state
            reply]).afterReply d) (setDscrptr_untimed j d c)

/-! ### The loop -/

/-- What the second loop keeps: no time of an attempt, and a slot that is
registered. -/
def Looping (x : Child × Option ℕ) : Prop :=
  x.1.Prompt ∧ ∀ j, x.2 = some j → j < x.1.readyDomainsCount

def untimedSlot (x : Child × Option ℕ) : Child × Option ℕ := (x.1.untimed, x.2)

theorem lookup_lt {fd : ℤ} {last : Option ℕ} (hlast : ∀ j, last = some j → j < c.readyDomainsCount)
    (h : c.lookup fd last = some j) : j < c.readyDomainsCount := by
  unfold lookup at h
  rcases Option.or_eq_some_iff.mp h with hfound | ⟨-, hlast'⟩
  · exact List.mem_range.mp (List.mem_of_find?_eq_some hfound)
  · exact hlast j hlast'

theorem callIf_kept {ready : Prop} [Decidable ready] {slot : Option ℕ} (op : ℕ → Op)
    (hop : ∀ j c', c.step (op j) = .ok c' → c'.readyDomainsCount = c.readyDomainsCount)
    (hc : c.Prompt) (h : c.callIf ready slot op = .ok c') :
    c'.Prompt ∧ c'.readyDomainsCount = c.readyDomainsCount := by
  unfold callIf at h
  split_ifs at h
  · cases slot with
    | none => cases h
    | some j => exact ⟨hc.step h, hop j c' h⟩
  · cases h
    exact ⟨hc, rfl⟩

theorem callIf_untimed (ready : Prop) [Decidable ready] {slot : Option ℕ} {op op' : ℕ → Op}
    (hop : ∀ j, slot = some j → (c.step (op j)).map untimed = c.untimed.step (op' j)) :
    (c.callIf ready slot op).map untimed = c.untimed.callIf ready slot op' := by
  unfold callIf
  split_ifs
  · cases slot with
    | none => rfl
    | some j => exact hop j rfl
  · rfl

theorem serveFd_kept {p : Pass} {x x' : Child × Option ℕ} {fd : ℤ} (hx : Looping x)
    (h : serveFd p x fd = .ok x') : Looping x' := by
  rw [serveFd_eq] at h
  obtain ⟨c₁, hread, h⟩ := bind_eq_ok.mp h
  obtain ⟨c₂, hwrite, h⟩ := bind_eq_ok.mp h
  cases h
  obtain ⟨hc₁, hready₁⟩ := callIf_kept (.read · (p.reads fd))
    (fun j c' hok => (sameNumbers_of_read hok).ready) hx.1 hread
  obtain ⟨hc₂, hready₂⟩ := callIf_kept (.write · (p.writes fd))
    (fun j c' hok => (sameNumbers_of_write hok).ready) hc₁ hwrite
  refine ⟨hc₂, fun j hj => ?_⟩
  rw [hready₂, hready₁]
  exact lookup_lt hx.2 hj

theorem serveFd_untimed (p : Pass) {x : Child × Option ℕ} (fd : ℤ) (hx : Looping x) :
    (serveFd p x fd).map untimedSlot = serveFd p.unclocked (untimedSlot x) fd := by
  have hslot : ∀ j, x.1.lookup fd x.2 = some j → j < x.1.readyDomainsCount :=
    fun j hj => lookup_lt hx.2 hj
  have hread : (x.1.callIf (fd ∈ x.1.readFds) (x.1.lookup fd x.2)
      (.read · (p.reads fd))).map untimed =
        x.1.untimed.callIf (fd ∈ x.1.readFds) (x.1.lookup fd x.2) (.read · (p.reads fd)) :=
    callIf_untimed _ fun j _ => handleReadSocket_untimed (p.reads fd) j x.1
  rw [serveFd_eq, serveFd_eq]
  change _ = x.1.untimed.callIf (fd ∈ x.1.readFds) (x.1.lookup fd x.2) (.read · (p.reads fd)) >>= _
  rw [← hread]
  cases hc₁ : x.1.callIf (fd ∈ x.1.readFds) (x.1.lookup fd x.2) (.read · (p.reads fd)) with
  | error halt => rfl
  | ok c₁ =>
      obtain ⟨hprompt, hready⟩ := callIf_kept (.read · (p.reads fd))
        (fun j c' hok => (sameNumbers_of_read hok).ready) hx.1 hc₁
      have hwrite : (c₁.callIf (fd ∈ c₁.writeFds) (x.1.lookup fd x.2)
          (.write · (p.writes fd))).map untimed =
            c₁.untimed.callIf (fd ∈ c₁.writeFds) (x.1.lookup fd x.2)
              (.write · (p.writes fd).unclocked) :=
        callIf_untimed _ fun j hj =>
          handleWriteSocket_untimed (p.writes fd) (hprompt j (hready ▸ hslot j hj))
      change _ = c₁.untimed.callIf (fd ∈ c₁.writeFds) (x.1.lookup fd x.2)
        (.write · (p.writes fd).unclocked) >>= _
      rw [← hwrite]
      simp only [bind, Except.bind]
      cases c₁.callIf (fd ∈ c₁.writeFds) (x.1.lookup fd x.2) (.write · (p.writes fd)) <;> rfl

theorem prompt_takeMessage {p : Pass} (hc : c.Prompt) (h : c.takeMessage p = .ok c') :
    c'.Prompt := by
  rw [takeMessage_eq] at h
  exact run_invariant (fun _ _ _ hc _ hok => Prompt.step hc hok) hc (guarded_true _ _) h

theorem prompt_pass {p : Pass} (hc : c.Prompt) (h : c.pass p = .ok c') : c'.Prompt := by
  rw [pass_eq] at h
  obtain ⟨c₀, hmessage, h⟩ := bind_eq_ok.mp h
  obtain ⟨⟨c₂, last⟩, hserve, h⟩ := bind_eq_ok.mp h
  cases h
  have hprompt : c₀.Prompt := prompt_takeMessage hc hmessage
  have hselected : (c₀.selected p).Prompt := hprompt
  exact (run_invariant (P := Looping) (fun _ _ _ hx _ hok => serveFd_kept hx hok)
    ⟨hselected, by simp⟩ (guarded_true _ _) hserve).1

theorem takeMessage_untimed (p : Pass) (c : Child) :
    (c.takeMessage p).map untimed = c.untimed.takeMessage p.unclocked := by
  have hmessage : p.unclocked.message = p.message := rfl
  unfold takeMessage
  rw [hmessage]
  cases p.message with
  | none => rfl
  | some message =>
      simp only
      split_ifs
      · rfl
      · exact registerNewEmail_untimed message.2 message.1 c

theorem pass_untimed (p : Pass) (hc : c.Prompt) :
    (c.pass p).map untimed = c.untimed.pass p.unclocked := by
  rw [pass_eq, pass_eq, ← takeMessage_untimed]
  cases hmessage : c.takeMessage p with
  | error halt => rfl
  | ok c₀ =>
      have hprompt : c₀.Prompt := prompt_takeMessage hc hmessage
      have hselected : (c₀.selected p).Prompt := hprompt
      have hloop : (run (serveFd p) (c₀.selected p, none) (c₀.selected p).numbers).map untimedSlot =
          run (serveFd p.unclocked) (untimedSlot (c₀.selected p, none))
            ((c₀.selected p).numbers.map id) :=
        run_abstraction (I := Looping) (fun _ _ _ hx hok => serveFd_kept hx hok)
          (fun _ fd hx => serveFd_untimed p fd hx) ⟨hselected, by simp⟩
      rw [List.map_id] at hloop
      change (run (serveFd p) (c₀.selected p, none) (c₀.selected p).numbers >>= _).map untimed =
        run (serveFd p.unclocked) (untimedSlot (c₀.selected p, none)) (c₀.selected p).numbers >>= _
      rw [← hloop]
      cases run (serveFd p) (c₀.selected p, none) (c₀.selected p).numbers <;> rfl

/-- A run without the times and the clock is what is left of the run with
them. -/
theorem passes_untimed {ps : List Pass} (hc : c.Prompt) :
    (run pass c ps).map untimed = run pass c.untimed (ps.map Pass.unclocked) :=
  run_abstraction (fun _ _ _ hc hok => prompt_pass hc hok) (fun _ p hc => pass_untimed p hc) hc

/-- The settings `total_send_time` and `retry_time` have no effect. Two children
whose configurations differ in nothing else, and whose kernels differ in nothing
but the clock, end for the same reason, or do the same and are the same but for
the times that they store. -/
theorem times_unread {conf conf' : Conf} {ps ps' : List Pass} (hconf : conf.untimed = conf'.untimed)
    (hps : ps.map Pass.unclocked = ps'.map Pass.unclocked) (files : CStr → Option (List Char))
    (memory : ℕ → Dscrptr) :
    (run pass (bootChild conf files memory) ps).map untimed =
      (run pass (bootChild conf' files memory) ps').map untimed := by
  have hboot : (bootChild conf files memory).untimed = (bootChild conf' files memory).untimed := by
    simp only [bootChild, untimed, hconf]
  rw [passes_untimed (prompt_boot conf files memory),
    passes_untimed (prompt_boot conf' files memory), hboot, hps]

def hastyConf : Conf := ⟨"m/".toList, "h".toList, 1, 0⟩

def clockedAt (now : ℤ) (p : Pass) : Pass :=
  { p with writes := fun fd => { p.writes fd with now := now } }

@[simp] theorem unclocked_clockedAt (now : ℤ) (p : Pass) :
    (clockedAt now p).unclocked = p.unclocked := rfl

theorem times_unread_hasty :
    (run pass (bootChild sampleChild.conf sampleFiles fun _ => zeroDscrptr)
      [openingPass {5}, samplePass none {5}]).map untimed =
    (run pass (bootChild hastyConf sampleFiles fun _ => zeroDscrptr)
      [clockedAt 86400 (openingPass {5}), clockedAt 172800 (samplePass none {5})]).map untimed :=
  times_unread (by rfl) (by simp only [List.map_cons, unclocked_clockedAt]) sampleFiles
    fun _ => zeroDscrptr

end Child

end SmtpProj.Client
