import SmtpProj.Client.Queue
import SmtpProj.Client.Registration

/-!
The list of a domain's letters and the state of its session.

The list is built over one node that is never given a value. Taking the path of
the first node, or freeing it, is sound only if it is not that one, and neither
`send_msg_to_server` nor `handle_read_socket` looks. What they rely on is the
state: a session that has been greeted has a letter.

That is an invariant of the slot only together with its socket. A session at its
start has no letter if its last one was sent, and a reply would take it to the
greeting all the same; but then its socket was closed. A session at the start
with a socket of its own was opened for a letter.
-/

namespace SmtpProj.Client

open Lib

/-! ### Lists over a sentinel -/

/-- `mails` holds `paths`, over the one node without a value. -/
def Holding (paths : List CStr) (mails : List (Option CStr)) : Prop :=
  mails = paths.map some ++ [none]

section Holding

variable {paths : List CStr} {mails mails' : List (Option CStr)} {path : CStr}

@[simp] theorem holding_nil : Holding [] [none] := rfl

theorem Holding.addFirst (h : Holding paths mails) :
    Holding (path :: paths) (addFirst path mails) := by
  rw [Holding] at h
  rw [Holding, h]
  rfl

theorem Holding.count (h : Holding paths mails) : count mails = paths.length := by
  rw [Holding] at h
  simp [Client.count, h]

theorem Holding.count_pos (h : Holding paths mails) : 0 < Client.count mails ↔ paths ≠ [] := by
  rw [h.count, ← List.length_pos_iff]
  omega

theorem Holding.removeFirst (h : Holding (path :: paths) mails) :
    ∃ mails', removeFirst mails = .ok mails' ∧ Holding paths mails' := by
  rw [Holding] at h
  exact ⟨paths.map some ++ [none], by rw [h]; rfl, rfl⟩

end Holding

def ClientState.sending : ClientState → Bool
  | .sendHelo | .sendMailFrom | .sendRcptTo | .sendData | .sendBody => true
  | _ => false

/-- A reply that leads to a state with a letter comes from one, or from the
start. -/
theorem sending_of_reply {st st' : ClientState} {reply : CStr}
    (h : clientFsmStep st (checkServerCode reply) = .ok st')
    (hst' : st' = .connect ∨ st'.sending) : st = .init ∨ st = .connect ∨ st.sending := by
  rcases Child.clientFsmStep_reply (Child.checkServerCode_cases reply) h with
    rfl | rfl | ⟨rfl, -⟩ | ⟨rfl, -⟩ | ⟨rfl, -⟩ | ⟨rfl, -⟩ | ⟨rfl, -⟩ | ⟨rfl, -⟩ | ⟨rfl, -⟩
  · simp [ClientState.sending] at hst'
  · simp [ClientState.sending] at hst'
  all_goals simp [ClientState.sending]

namespace Child

variable {c c' : Child} {j : ℕ} {known : CStr → Prop}

/-! ### The invariant -/

/-- Slot `j` of a registered domain: the letters in its list are known ones, and
the session has one where it needs one. -/
structure Agrees (known : CStr → Prop) (j : ℕ) (c : Child) : Prop where
  letters : ∃ paths, Holding paths (c.dscrptrs j).mailsList ∧ ∀ path ∈ paths, known path
  session : (c.dscrptrs j).state = .connect ∨ (c.dscrptrs j).state.sending →
    0 < count (c.dscrptrs j).mailsList
  opened : (c.dscrptrs j).state = .init → c.sockets (c.dscrptrs j).socketFd = some j →
    0 < count (c.dscrptrs j).mailsList

def Settles (known : CStr → Prop) (j : ℕ) (c : Child) : Prop :=
  j < c.readyDomainsCount → c.Agrees known j

/-- The handlers of slot `j` are called while its own connection is open and in
the set that they are called for. -/
def Watched (j : ℕ) (c : Child) : Op → Prop
  | .register _ _ => True
  | .write i _ => i = j → j < c.readyDomainsCount ∧
      c.sockets (c.dscrptrs j).socketFd = some j ∧ (c.dscrptrs j).socketFd ∈ c.writeFds
  | .read i _ => i = j → j < c.readyDomainsCount ∧
      c.sockets (c.dscrptrs j).socketFd = some j ∧ (c.dscrptrs j).socketFd ∈ c.readFds
  | .select _ _ _ => True

instance (j : ℕ) (c : Child) : DecidablePred (Watched j c)
  | .register _ _ => inferInstanceAs (Decidable True)
  | .write _ _ => inferInstanceAs (Decidable (_ → _ ∧ _ ∧ _))
  | .read _ _ => inferInstanceAs (Decidable (_ → _ ∧ _ ∧ _))
  | .select _ _ _ => inferInstanceAs (Decidable True)

/-- What the invariant reads of the slot was not touched, and no socket was
opened for it. -/
theorem Agrees.of_same (h : c.Agrees known j) (hslot : c'.dscrptrs j = c.dscrptrs j)
    (hsocket : ∀ fd, c'.sockets fd = some j → c.sockets fd = some j) : c'.Agrees known j := by
  constructor
  · rw [hslot]
    exact h.letters
  · rw [hslot]
    exact h.session
  · rw [hslot]
    exact fun hst hopen => h.opened hst (hsocket _ hopen)

theorem Settles.of_same (h : c.Settles known j)
    (hready : c'.readyDomainsCount = c.readyDomainsCount) (hslot : c'.dscrptrs j = c.dscrptrs j)
    (hsocket : ∀ fd, c'.sockets fd = some j → c.sockets fd = some j) : c'.Settles known j := by
  intro hj
  exact (h (hready ▸ hj)).of_same hslot hsocket

theorem sockets_of_close {fd number : ℤ} (h : Function.update c.sockets number none fd = some j) :
    c.sockets fd = some j := by
  by_cases heq : fd = number
  · rw [heq, Function.update_self] at h
    cases h
  · rwa [Function.update_of_ne heq] at h

/-! ### The steps -/

theorem Settles.write {i : ℕ} {k : WriteKernel} (h : c.Settles known j)
    (hown : c.Watched j (.write i k)) (hok : c.handleWriteSocket k i = .ok c') :
    c'.Settles known j := by
  obtain ⟨r, hr, hw⟩ := handleWriteSocket_ok hok
  have hsocket : ∀ fd, c'.sockets fd = some j → c.sockets fd = some j := by
    intro fd hfd
    rw [hw.sockets] at hfd
    split_ifs at hfd
    · exact sockets_of_close hfd
    · exact hfd
  by_cases hij : i = j
  · subst hij
    have hprep := (Dscrptr.sendMsgToServer_ok hr).1
    have hslot : c'.dscrptrs i = r.dscrptr := by rw [hw.dscrptrs, Function.update_self]
    obtain ⟨hready, -⟩ := hown rfl
    have hagrees := h hready
    refine fun _ => ⟨?_, ?_, ?_⟩
    · rw [hslot, hprep.mailsList]
      exact hagrees.letters
    · rw [hslot, hprep.mailsList, hprep.state]
      exact hagrees.session
    · rw [hslot, hprep.mailsList, hprep.state, hprep.socketFd]
      exact fun hst hopen => hagrees.opened hst (hsocket _ hopen)
  · refine h.of_same hw.ready ?_ hsocket
    rw [hw.dscrptrs, Function.update_of_ne (Ne.symm hij)]

/-- What a reply makes of a slot whose socket is its own. -/
theorem Agrees.advance {reply : CStr} {d : Dscrptr} (h : c.Agrees known j)
    (hopen : c.sockets (c.dscrptrs j).socketFd = some j)
    (hd : (c.dscrptrs j).advance (checkServerCode reply) = .ok d) :
    (∃ paths, Holding paths d.mailsList ∧ ∀ path ∈ paths, known path) ∧
      (d.state = .connect ∨ d.state.sending → 0 < count d.mailsList) := by
  obtain ⟨paths, hpaths, hknown⟩ := h.letters
  rcases Dscrptr.advance_ok hd with
    ⟨hst, hne, mails, st, hmails, hstep, rfl⟩ | ⟨-, st, hstep, rfl⟩
  · -- the letter that was sent is the first, and another one follows or none
    cases paths with
    | nil => exact absurd rfl (hpaths.count_pos.mp (h.session (.inr (by rw [hst]; rfl))))
    | cons path paths =>
        obtain ⟨mails', hmails', hrest⟩ := hpaths.removeFirst
        obtain rfl : mails = mails' := Except.ok.inj (hmails.symm.trans hmails')
        refine ⟨⟨paths, hrest, fun p hp => hknown p (by simp [hp])⟩, fun hsending => ?_⟩
        rcases (clientFsmStep_sendBody reply hne hstep).1 with ⟨-, hcount⟩ | rfl
        · exact hcount
        · simp [ClientState.sending] at hsending
  · refine ⟨⟨paths, hpaths, hknown⟩, fun hsending => ?_⟩
    rcases sending_of_reply hstep hsending with hst | hst
    · exact h.opened hst hopen
    · exact h.session hst

theorem Settles.read {i : ℕ} {results : List RecvResult} (h : c.Settles known j)
    (hown : c.Watched j (.read i results)) (hok : c.handleReadSocket results i = .ok c') :
    c'.Settles known j := by
  obtain ⟨reply, d, -, hd, rfl⟩ := handleReadSocket_ok.mp hok
  by_cases hij : i = j
  · subst hij
    obtain ⟨hready, hopen, -⟩ := hown rfl
    obtain ⟨hletters, hsession⟩ := (h hready).advance hopen hd
    have hslot : (((c.setDscrptr i d).record
        [.answered i (c.dscrptrs i).state reply]).afterReply d).dscrptrs i = d := by
      simp [afterReply, record, setDscrptr]
    refine fun _ => ⟨?_, ?_, ?_⟩
    · rwa [hslot]
    · rwa [hslot]
    · -- back at the start the socket is given up
      rw [hslot]
      intro hst hclosed
      simp [afterReply, record, setDscrptr, hst] at hclosed
  · refine h.of_same rfl ?_ fun fd hfd => ?_
    · simp [afterReply, record, setDscrptr, Ne.symm hij]
    · simp only [afterReply, record, setDscrptr] at hfd
      split_ifs at hfd
      · exact sockets_of_close hfd
      · exact hfd

theorem Settles.register_own {path domain : CStr} {connected attempt : Option ℕ} {d : Dscrptr}
    (h : c.Settles known j) (hpath : known path)
    (hreach : Reaches connected domain c j attempt d) (hreg : Registers path j attempt d c c') :
    c'.Settles known j := by
  have hold : ∃ paths, Holding paths d.mailsList ∧ ∀ p ∈ paths, known p := by
    cases hreach with
    | fresh => exact ⟨[], holding_nil, by simp⟩
    | reopened hj _ _ hd =>
        rw [(Dscrptr.initConn_kept hd).2]
        exact (h hj).letters
    | busy hj => exact (h hj).letters
  obtain ⟨paths, hpaths, hknown⟩ := hold
  intro _
  by_cases hdone : d.state = .done
  · obtain ⟨hstate, hmails⟩ := Dscrptr.enqueue_of_done path hdone
    refine ⟨⟨paths, ?_, hknown⟩, ?_, ?_⟩
    · rwa [hreg.slot, hmails]
    · rw [hreg.slot, hstate]
      simp [ClientState.sending]
    · rw [hreg.slot, hstate]
      intro hinit
      cases hinit
  · have hnew : Holding (path :: paths) (c'.dscrptrs j).mailsList := by
      rw [hreg.slot, Dscrptr.enqueue_of_ne_done hdone]
      exact hpaths.addFirst
    have hcount : 0 < count (c'.dscrptrs j).mailsList :=
      hnew.count_pos.mpr (List.cons_ne_nil path paths)
    refine ⟨⟨path :: paths, hnew, ?_⟩, fun _ => hcount, fun _ _ => hcount⟩
    intro p hp
    rcases List.mem_cons.mp hp with rfl | hp
    · exact hpath
    · exact hknown p hp

theorem Settles.register {path : CStr} {connected : Option ℕ} (h : c.Settles known j)
    (hpath : known path) (hok : c.registerNewEmail connected path = .ok c') :
    c'.Settles known j := by
  obtain ⟨domain, i, attempt, d, hdomain, hreach, hreg⟩ := registerNewEmail_ok hok
  by_cases hij : i = j
  · subst hij
    exact h.register_own hpath hreach hreg
  · have hslot : c'.dscrptrs j = c.dscrptrs j := hreg.other (Ne.symm hij)
    have hsocket : ∀ fd, c'.sockets fd = some j → c.sockets fd = some j := by
      intro fd hfd
      cases hreach.registered hreg with
      | @opened new _ _ _ hsockets =>
          rw [hsockets] at hfd
          by_cases hnew : fd = new
          · rw [hnew, Function.update_self] at hfd
            exact absurd (Option.some.inj hfd) hij
          · rwa [Function.update_of_ne hnew] at hfd
      | dropped _ _ _ hsockets | added _ _ _ _ hsockets => rwa [hsockets] at hfd
    intro hj
    -- a slot that is new is slot `i`
    have hready : j < c.readyDomainsCount := hreg.ready_of_ne hreach.le hj (Ne.symm hij)
    exact (h hready).of_same hslot hsocket

theorem Settles.step {op : Op} (h : c.Settles known j) (hown : c.Watched j op)
    (hop : ∀ path connected, op = .register path connected → known path)
    (hok : c.step op = .ok c') : c'.Settles known j := by
  cases op with
  | register path connected => exact h.register (hop path connected rfl) hok
  | write i k => exact h.write hown hok
  | read i results => exact h.read hown hok
  | select readReady writeReady exceptReady =>
      cases hok
      exact h.of_same rfl rfl fun _ hfd => hfd

/-! ### The sentinel -/

def registeredPaths (ops : List Op) : List CStr :=
  ops.filterMap fun
    | .register path _ => some path
    | _ => none

theorem mem_registeredPaths {ops : List Op} {path : CStr} {connected : Option ℕ}
    (h : Op.register path connected ∈ ops) : path ∈ registeredPaths ops :=
  List.mem_filterMap.mpr ⟨_, h, rfl⟩

/-- The computation may stop, but not at a pointer that was never set. -/
def Sound {σ : Type} (x : Except Halt σ) : Prop :=
  Ends (fun _ => True) (fun halt => halt ≠ .badPointer) x

theorem Sound.bind {σ τ : Type} {x : Except Halt σ} {f : σ → Except Halt τ} (hx : Sound x)
    (hf : ∀ s, Sound (f s)) : Sound (x >>= f) := Ends.bind hx fun s _ => hf s

theorem Sound.ok {σ : Type} (s : σ) : Sound (.ok s) := Ends.ok trivial

theorem Sound.error {σ : Type} {halt : Halt} (h : halt ≠ .badPointer) :
    Sound (.error halt : Except Halt σ) := Ends.error h

theorem strtok_sound (place str : Option CStr) : Sound (strtok place str) := by
  unfold strtok
  split
  · exact .error (by simp)
  · split <;> exact .ok _

theorem readMsgFile_sound (file : Option (List Char)) : Sound (readMsgFile file) := by
  unfold readMsgFile
  split
  · exact .ok _
  · exact .error (by simp)
  · exact .ok _

theorem clientFsmStep_sound (st : ClientState) (event : ClientEvent) :
    Sound (clientFsmStep st event) := by
  unfold clientFsmStep
  split
  · exact .ok _
  · exact .ok _
  · split
    · exact .ok _
    · exact .error (by simp)

theorem sendMailFrom_sound (place msg : Option CStr) : Sound (sendMailFrom place msg) := by
  refine (strtok_sound place msg).bind fun ⟨token, rest⟩ => ?_
  cases token with
  | none => exact .error (by simp)
  | some token => exact .ok _

theorem sendRcptTo_sound (place msg : Option CStr) : Sound (sendRcptTo place msg) := by
  refine (strtok_sound place none).bind fun ⟨token, rest⟩ => ?_
  cases token with
  | none => exact .error (by simp)
  | some token => exact .ok _

theorem sendMsgBody_sound (place : Option CStr) : Sound (sendMsgBody place) := by
  unfold sendMsgBody
  split
  · exact .error (by simp)
  · exact .ok _

variable {paths : List CStr} {d : Dscrptr}

/-- A sender is read from the first letter of the list, if it has one. -/
theorem sendCommand_sound {hostName : CStr} {files : CStr → Option (List Char)}
    {place : Option CStr} (h : Holding paths d.mailsList)
    (hsession : d.state = .sendMailFrom → paths ≠ []) :
    Sound (d.sendCommand hostName files place) := by
  unfold Dscrptr.sendCommand
  split
  case h_2 hst =>
    obtain ⟨path, rest, rfl⟩ := List.exists_cons_of_ne_nil (hsession hst)
    have hmails : d.mailsList = some path :: (rest.map some ++ [none]) := h
    rw [hmails]
    exact (readMsgFile_sound _).bind fun _ => (sendMailFrom_sound _ _).bind fun _ => .ok _
  case h_3 => exact (sendRcptTo_sound _ _).bind fun _ => .ok _
  case h_5 => exact (sendMsgBody_sound _).bind fun _ => .ok _
  all_goals exact .ok _

theorem sendMsgToServer_sound {now : ℤ} {hostName : CStr} {files : CStr → Option (List Char)}
    {place : Option CStr} (h : Holding paths d.mailsList)
    (hsession : d.state = .sendMailFrom → paths ≠ []) :
    Sound (d.sendMsgToServer now hostName files place) := by
  obtain ⟨canBeSend, hmsg⟩ := Dscrptr.sendMsgToServer_eq now d
  rw [hmsg]
  cases (d.retry now).2 with
  | some code => exact .ok _
  | none => exact sendCommand_sound h hsession

theorem afterSend_sound (code : SendCode) (d : Dscrptr) (c : Child) :
    Sound (c.afterSend code d) := by
  cases code with
  | expired => exact (clientFsmStep_sound _ _).bind fun _ => .ok _
  | sent | failed | waiting => exact .ok _

theorem handleWriteSocket_sound (k : WriteKernel) (h : Holding paths (c.dscrptrs j).mailsList)
    (hsession : (c.dscrptrs j).state = .sendMailFrom → paths ≠ []) :
    Sound (c.handleWriteSocket k j) :=
  (sendMsgToServer_sound h hsession).bind fun _ => afterSend_sound _ _ _

theorem advance_sound (event : ClientEvent) (h : Holding paths d.mailsList)
    (hsession : d.state = .sendBody → paths ≠ []) : Sound (d.advance event) := by
  unfold Dscrptr.advance
  split
  next hbody =>
    obtain ⟨path, rest, rfl⟩ := List.exists_cons_of_ne_nil (hsession hbody.1)
    obtain ⟨mails, hmails, -⟩ := h.removeFirst
    rw [hmails]
    exact (clientFsmStep_sound _ _).bind fun _ => .ok _
  next => exact (clientFsmStep_sound _ _).bind fun _ => .ok _

theorem handleReadSocket_sound (results : List RecvResult)
    (h : Holding paths (c.dscrptrs j).mailsList)
    (hsession : (c.dscrptrs j).state = .sendBody → paths ≠ []) :
    Sound (c.handleReadSocket results j) := by
  unfold handleReadSocket
  split
  · exact .error (by simp)
  · exact (advance_sound _ h hsession).bind fun _ => .ok _

theorem Sound.ne_badPointer {σ : Type} {x : Except Halt σ} (h : Sound x) :
    x ≠ .error .badPointer := fun hx => Ends.of_error h hx rfl

/-! ### The run -/

/-- The queue of a domain and its session agree, in every state that the loop
brings its slot to: the list holds registered letters of the domain over one
sentinel, a session from `HELO` to the body has a letter, and neither the sender
nor the removal of a letter comes to the sentinel. -/
theorem queue_agrees_with_session {conf : Conf} {files : CStr → Option (List Char)}
    {memory : ℕ → Dscrptr} {ops : List Op}
    (hops : Along step (Watched j) (bootChild conf files memory) ops)
    (hrun : run step (bootChild conf files memory) ops = .ok c) (hj : j < c.readyDomainsCount) :
    ∃ paths : List CStr, (c.dscrptrs j).mailsList = paths.map some ++ [none] ∧
      (∀ path ∈ paths, path ∈ registeredPaths ops ∧
        emailDomain path = .ok (c.dscrptrs j).domain) ∧
      count (c.dscrptrs j).mailsList = paths.length ∧
      ((c.dscrptrs j).state.sending → 1 ≤ count (c.dscrptrs j).mailsList) ∧
      (∀ k, c.handleWriteSocket k j ≠ .error .badPointer) ∧
      ∀ results, c.handleReadSocket results j ≠ .error .badPointer := by
  have hsettles : c.Settles (fun path => path ∈ registeredPaths ops) j := by
    refine run_invariant_of_mem (fun c₁ op hop c₂ h hown hok => ?_)
      (fun hj₀ => absurd hj₀ (Nat.not_lt_zero j)) hops.guarded hrun
    refine h.step hown (fun path connected heq => ?_) hok
    subst heq
    exact mem_registeredPaths hop
  have hagrees := hsettles hj
  obtain ⟨paths, hpaths, hknown⟩ := hagrees.letters
  have hsending : (c.dscrptrs j).state.sending → paths ≠ [] := fun hst =>
    hpaths.count_pos.mp (hagrees.session (.inr hst))
  refine ⟨paths, hpaths, fun path hpath => ⟨hknown path hpath, ?_⟩, hpaths.count,
    fun hst => hagrees.session (.inr hst), fun k => ?_, fun results => ?_⟩
  · refine (filed_of_run hrun).letters j hj path ?_
    rw [hpaths]
    simpa using hpath
  · exact (handleWriteSocket_sound k hpaths fun hst => hsending (by rw [hst]; rfl)).ne_badPointer
  · exact (handleReadSocket_sound results hpaths fun hst =>
      hsending (by rw [hst]; rfl)).ne_badPointer

/-- One letter, sent up to its body. -/
theorem sampleSession_agrees : ∃ c, run step sampleChild sampleSession = .ok c ∧
    ∃ paths : List CStr, (c.dscrptrs 0).mailsList = paths.map some ++ [none] ∧
      (∀ path ∈ paths, path ∈ registeredPaths sampleSession ∧
        emailDomain path = .ok (c.dscrptrs 0).domain) ∧
      count (c.dscrptrs 0).mailsList = paths.length ∧
      ((c.dscrptrs 0).state.sending → 1 ≤ count (c.dscrptrs 0).mailsList) ∧
      (∀ k, c.handleWriteSocket k 0 ≠ .error .badPointer) ∧
      ∀ results, c.handleReadSocket results 0 ≠ .error .badPointer := by
  have hops : Along step (Watched 0) sampleChild sampleSession := by decide +kernel
  have hend : (run step sampleChild sampleSession).map (fun c => c.readyDomainsCount) = .ok 1 := by
    decide +kernel
  cases hrun : run step sampleChild sampleSession with
  | error halt =>
      rw [hrun] at hend
      cases hend
  | ok c =>
      rw [hrun] at hend
      have hready : c.readyDomainsCount = 1 := Except.ok.inj hend
      exact ⟨c, rfl, queue_agrees_with_session hops hrun (by omega)⟩

end Child

end SmtpProj.Client
