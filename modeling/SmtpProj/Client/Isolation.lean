import SmtpProj.Client.Frame

/-!
Whether the domains of a client process disturb one another.

The process has one place of `strtok`. The session of a domain sets it with
the sender of its letter and goes on from it with the recipient and the text,
in later calls; in between the sessions of other domains and every registration
set it too. The per-domain buffer that `send_rcpt_to` is given is not used.
So what a session sends is its own letter only if nothing else called `strtok`
since its own last call. After a registration, of whatever domain, `strtok` goes
on in a text that is freed; what it finds there is not said by the source.

Two other things are shared. A socket number that was closed and not forgotten
may have become another domain's socket, and a letter may be renamed onto
another domain's. Where none of the three happens to a session, its run is
compared with the run of its own calls alone: `Alike` is what the two agree in,
and `run_unwinding` does the rest.
-/

namespace SmtpProj.Client

open Lib

/-- The calls of the session of slot `a`, and the registrations for its
domain. -/
def Op.ownedBy (a : ℕ) (domain : CStr) : Op → Bool
  | .register path _ => emailDomain path = .ok domain
  | .write j _ => j = a
  | .read j _ => j = a
  | .select _ _ _ => false

def sentTo (a : ℕ) (log : List Event) : List CStr :=
  log.filterMap fun
    | .sent k bytes => if k = a then some bytes else none
    | _ => none

/-- The next text is made with `strtok(NULL, ...)`: the recipient, the body, or
the sender when the letter cannot be read. -/
def Dscrptr.continues (files : CStr → Option (List Char)) (d : Dscrptr) : Prop :=
  d.state = .sendRcptTo ∨ d.state = .sendBody ∨
    (d.state = .sendMailFrom ∧ ∀ path mails, d.mailsList = some path :: mails → files path = none)

namespace Child

/-- The descriptor's socket number is closed, or its own connection. -/
def OwnSocket (c : Child) (j : ℕ) : Prop :=
  j < c.readyDomainsCount ∧ ∀ i, c.sockets (c.dscrptrs j).socketFd = some i → i = j

/-- `strtok` was last called for slot `a`, and goes on in its letter. -/
structure OwnPlace (a : ℕ) (c : Child) : Prop where
  user : c.placeUser = some a
  owner : c.placeOwner = some a
  kept : (c.dscrptrs a).textFreed = false

/-- The call does not touch what the session of slot `a` depends on. -/
def Undisturbed (a : ℕ) (c : Child) : Op → Prop
  -- the kernel does not hand out a number that is open
  | .register _ connected => ∀ fd : ℕ, connected = some fd → c.sockets fd = none
  | .write j _ => c.OwnSocket j ∧
      (j = a → (c.dscrptrs a).continues c.files → c.OwnPlace a) ∧
      (j ≠ a → ∀ path mails, (c.dscrptrs j).state = .sendMailFrom →
        (c.dscrptrs j).mailsList = some path :: mails →
          emailDomain (renameTarget path) ≠ .ok (c.dscrptrs a).domain)
  | .read j _ => c.OwnSocket j
  | .select _ _ _ => True

end Child

/-! ### What is sent -/

@[simp] theorem sentTo_append (a : ℕ) (log events : List Event) :
    sentTo a (log ++ events) = sentTo a log ++ sentTo a events := by
  simp [sentTo, List.filterMap_append]

@[simp] theorem sentTo_connected (a j : ℕ) : sentTo a [.connected j] = [] := rfl

@[simp] theorem sentTo_answered (a j : ℕ) (st : ClientState) (reply : CStr) :
    sentTo a [.answered j st reply] = [] := rfl

/-- Nothing reaches a slot over a socket that is not its own. -/
theorem sentTo_sendAll {a : ℕ} {owner : Option ℕ} (howner : owner ≠ some a)
    (writes : ℕ → Option ℕ) (n : ℕ) (data : List CStr) :
    sentTo a (sendAll owner writes n data).2 = [] := by
  induction data generalizing n with
  | nil => rfl
  | cons text rest ih =>
      have htext : sentTo a (sendData owner text (writes n)).2 = [] := by
        unfold sendData
        split
        next k _ hk =>
          have hka : k ≠ a := fun h => howner (h ▸ rfl)
          simp [sentTo, hka]
        next => rfl
      simp [sendAll, htext, ih (n + 1)]

theorem sentTo_transmit {a : ℕ} {c : Child} {r : Sending}
    (howner : c.sockets r.dscrptr.socketFd ≠ some a) (k : WriteKernel) :
    sentTo a (c.transmit k r).2 = [] := by
  unfold Child.transmit
  cases r.early with
  | some code => rfl
  | none => exact sentTo_sendAll howner _ _ _

theorem sentTo_applySending (a j : ℕ) (k : WriteKernel) (r : Sending) (c : Child) :
    sentTo a (c.applySending k j r).log = sentTo a c.log := by
  have htook : ∀ taken : Option CStr,
      sentTo a (taken.toList.map fun path => .took j path r.dscrptr.buffer) = [] := by
    rintro (_ | path) <;> rfl
  have hmoved : ∀ renamed : Option CStr,
      sentTo a (renamed.toList.map fun path => .moved path (renameTarget path)) = [] := by
    rintro (_ | path) <;> rfl
  simp [Child.applySending, htook, hmoved]

/-! ### The text of a step -/

namespace Dscrptr

variable {d : Dscrptr} {files files' : CStr → Option (List Char)} {place place' : Option CStr}

theorem sendCommand_congr {hostName : CStr}
    (hfiles : ∀ path mails, d.mailsList = some path :: mails → files' path = files path)
    (hplace : d.continues files → place' = place) :
    d.sendCommand hostName files' place' = d.sendCommand hostName files place := by
  unfold sendCommand
  cases hst : d.state with
  | sendMailFrom =>
      cases hmails : d.mailsList with
      | nil => rfl
      | cons head mails =>
          cases head with
          | none => rfl
          | some path =>
              simp only [hfiles path mails hmails]
              cases hfile : files path with
              | none =>
                  have hcontinues : d.continues files := by
                    refine .inr (.inr ⟨hst, fun p ms h => ?_⟩)
                    rw [hmails] at h
                    cases h
                    exact hfile
                  rw [hplace hcontinues]
              | some content =>
                  cases content with
                  | nil => rfl
                  | cons ch rest => rfl
  | sendRcptTo => rw [hplace (.inl hst)]
  | sendBody => rw [hplace (.inr (.inl hst))]
  | sendHelo | sendData | sendQuit | init | connect | invalid | done => rfl

/-- The text depends on the letter at the head of the list, and on the place of
`strtok` only where it goes on from there. -/
theorem sendMsgToServer_congr {now : ℤ} {hostName : CStr}
    (hfiles : ∀ path mails, d.mailsList = some path :: mails → files' path = files path)
    (hplace : d.continues files → place' = place) :
    d.sendMsgToServer now hostName files' place' = d.sendMsgToServer now hostName files place := by
  obtain ⟨canBeSend, hmsg⟩ := sendMsgToServer_eq now d
  rw [hmsg, hmsg]
  cases (d.retry now).2 with
  | some code => rfl
  | none => exact sendCommand_congr hfiles hplace

/-- `strtok` goes on, or starts in the letter that was read. -/
theorem continues_of_place {now : ℤ} {hostName : CStr} {r : Sending}
    (h : d.sendMsgToServer now hostName files place = .ok r) (hplace : r.place.isSome)
    (hread : ¬(r.taken.isSome ∧ r.dscrptr.buffer.isSome)) : d.continues files := by
  obtain ⟨canBeSend, hmsg⟩ := sendMsgToServer_eq now d
  rw [hmsg] at h
  cases hearly : (d.retry now).2 with
  | some code =>
      simp only [hearly] at h
      cases h
      cases hplace
  | none =>
      simp only [hearly] at h
      unfold sendCommand at h
      cases hst : d.state with
      | sendRcptTo => exact .inl hst
      | sendBody => exact .inr (.inl hst)
      | sendMailFrom =>
          refine .inr (.inr ⟨hst, fun path mails hmails => ?_⟩)
          simp only [hst, hmails] at h
          obtain ⟨buffer, hbuffer, h⟩ := bind_eq_ok.mp h
          obtain ⟨⟨text, place'⟩, -, h⟩ := bind_eq_ok.mp h
          cases h
          cases buffer with
          | some text => exact absurd ⟨rfl, rfl⟩ hread
          | none => exact readMsgFile_eq_none.mp hbuffer
      | sendHelo | sendData | sendQuit | init | connect | invalid | done =>
          simp only [hst] at h
          cases h
          cases hplace

end Dscrptr

/-! ### Two processes that a session cannot tell apart -/

namespace Child

variable {a : ℕ} {s t s' : Child}

/-- What the session of slot `a` depends on is the same in both processes. -/
structure Alike (a : ℕ) (s t : Child) : Prop where
  filedLeft : s.Filed
  filedRight : t.Filed
  readyLeft : a < s.readyDomainsCount
  readyRight : a < t.readyDomainsCount
  conf : t.conf = s.conf
  dscrptr : t.dscrptrs a = s.dscrptrs a
  sockets : ∀ fd, t.sockets fd = some a ↔ s.sockets fd = some a
  files : ∀ path, emailDomain path = .ok (s.dscrptrs a).domain → t.files path = s.files path
  place : s.placeUser = some a → s.placeOwner = some a →
    t.place = s.place ∧ t.placeOwner = some a
  sent : sentTo a t.log = sentTo a s.log

theorem Alike.refl (hs : s.Filed) (ha : a < s.readyDomainsCount) : Alike a s s :=
  ⟨hs, hs, ha, ha, rfl, rfl, fun _ => Iff.rfl, fun _ _ => rfl, fun _ howner => ⟨rfl, howner⟩, rfl⟩

/-- Where the session goes on in its letter, both find the same. -/
theorem Alike.placeAt (h : Alike a s t) (hown : s.OwnPlace a) (k : WriteKernel) :
    t.placeAt k = s.placeAt k := by
  obtain ⟨hplace, howner⟩ := h.place hown.user hown.owner
  rw [placeAt_of_owner k hown.owner hown.kept,
    placeAt_of_owner k howner (by rw [h.dscrptr, hown.kept]), hplace]

/-- Closing a number that is not the session's own takes no socket of the
session. -/
theorem closed_iff {sockets : ℤ → Option ℕ} {fd : ℤ} (h : sockets fd ≠ some a) (p : Prop)
    [Decidable p] (x : ℤ) :
    (if p then Function.update sockets fd none else sockets) x = some a ↔ sockets x = some a := by
  split_ifs
  · by_cases hx : x = fd
    · subst hx
      simp [h]
    · simp [hx]
  · rfl

/-- A foreign call: the session's slot, sockets and letters stay, nothing is
sent for it, and if the place of `strtok` moves, it is not the session's any
more. -/
theorem Alike.foreign (h : Alike a s t) (hfiled : s'.Filed)
    (hready : s.readyDomainsCount ≤ s'.readyDomainsCount) (hconf : s'.conf = s.conf)
    (hslot : s'.dscrptrs a = s.dscrptrs a)
    (hsockets : ∀ fd, s'.sockets fd = some a ↔ s.sockets fd = some a)
    (hfiles : ∀ path, emailDomain path = .ok (s.dscrptrs a).domain → s'.files path = s.files path)
    (hplace : s'.placeUser = some a → s'.placeOwner = some a →
      s.placeUser = some a ∧ s.placeOwner = some a ∧ s'.place = s.place)
    (hsent : sentTo a s'.log = sentTo a s.log) : Alike a s' t where
  filedLeft := hfiled
  filedRight := h.filedRight
  readyLeft := h.readyLeft.trans_le hready
  readyRight := h.readyRight
  conf := h.conf.trans hconf.symm
  dscrptr := h.dscrptr.trans hslot.symm
  sockets fd := (h.sockets fd).trans (hsockets fd).symm
  files path hpath := by
    rw [hslot] at hpath
    rw [h.files path hpath, hfiles path hpath]
  place huser howner := by
    obtain ⟨hs, ho, hp⟩ := hplace huser howner
    rw [hp]
    exact h.place hs ho
  sent := h.sent.trans hsent.symm

/-! ### Foreign calls -/

theorem Alike.foreign_register {path : CStr} {connected : Option ℕ} (h : Alike a s t)
    (hG : Undisturbed a s (.register path connected))
    (hforeign : emailDomain path ≠ .ok (s.dscrptrs a).domain)
    (hstep : s.registerNewEmail connected path = .ok s') : Alike a s' t := by
  obtain ⟨domain, j, attempt, d, hdomain, hreach, hreg⟩ := registerNewEmail_ok hstep
  obtain ⟨-, -, hunique, -⟩ := hreach.filed h.filedLeft
  have haj : a ≠ j := by
    rintro rfl
    apply hforeign
    cases hreach with
    | fresh => exact absurd h.readyLeft (lt_irrefl _)
    | reopened _ hdom => rw [hdomain, hdom]
    | busy _ hdom => rw [hdomain, hdom]
  have hattempt : ∀ fd : ℕ, attempt = some fd → s.sockets fd = none := by
    intro fd hfd
    cases hreach with
    | fresh => exact hG fd hfd
    | reopened => exact hG fd hfd
    | busy => cases hfd
  refine h.foreign (h.filedLeft.register hstep) ?_ hreg.conf ?_ ?_ ?_ ?_ ?_
  · rw [hreg.ready]
    exact le_max_left _ _
  · exact hreg.other haj
  · intro fd
    rw [hreg.sockets]
    cases attempt with
    | none => rfl
    | some n =>
        have hn := hattempt n rfl
        by_cases hfd : fd = n
        · subst hfd
          simp [openSocket, hn, haj.symm]
        · simp [openSocket, hfd]
  · intro p _
    rw [hreg.files]
  · intro _ howner
    rw [hreg.placeOwner] at howner
    cases howner
  · rw [hreg.log]
    cases attempt <;> simp [openSocket, record]

theorem Alike.foreign_write {j : ℕ} {k : WriteKernel} (h : Alike a s t)
    (hG : Undisturbed a s (.write j k)) (hja : j ≠ a)
    (hstep : s.handleWriteSocket k j = .ok s') : Alike a s' t := by
  obtain ⟨⟨hready, hown⟩, -, htarget⟩ := hG
  obtain ⟨r, hr, hw⟩ := handleWriteSocket_ok hstep
  have hprep := (Dscrptr.sendMsgToServer_ok hr).1
  have howner : s.sockets r.dscrptr.socketFd ≠ some a := fun hs => by
    rw [hprep.socketFd] at hs
    exact hja (hown a hs).symm
  refine h.foreign (h.filedLeft.step (.write j k) hstep) hw.ready.ge hw.conf ?_ ?_ ?_ ?_ ?_
  · rw [hw.dscrptrs, Function.update_of_ne hja.symm]
  · rw [hw.sockets]
    exact closed_iff howner _
  · intro path hpath
    rw [hw.files]
    simp only [applySending]
    cases hmoved : s.renamed k r with
    | none => rfl
    | some p =>
        obtain ⟨-, hst, mails, hmails⟩ := hprep.taken p (Option.filter_eq_some_iff.mp hmoved).1
        -- the letter is one for the domain of slot `j`, and so is not `path`
        have hp : emailDomain p = .ok (s.dscrptrs j).domain :=
          h.filedLeft.letters j hready p (hmails ▸ List.mem_cons_self)
        have hne : path ≠ p := by
          rintro rfl
          rw [hpath] at hp
          exact hja (h.filedLeft.distinct j hready a h.readyLeft (Except.ok.inj hp).symm)
        have hnt : path ≠ renameTarget p := by
          rintro rfl
          exact htarget hja p mails hst hmails hpath
        simp [moveFile, hne, hnt]
  · intro huser howner
    rw [hw.placeUser] at huser
    rw [hw.placeOwner] at howner
    rw [hw.place]
    simp only [applySending] at huser howner
    split_ifs at huser with hplace
    · exact absurd (Option.some.inj huser) hja
    · simp only [Option.not_isSome_iff_eq_none] at hplace
      split_ifs at howner
      · exact absurd (Option.some.inj howner) hja
      · exact ⟨huser, howner, by simp [hplace]⟩
  · rw [hw.log, sentTo_append, sentTo_transmit howner, List.append_nil, sentTo_applySending]

theorem Alike.foreign_read {j : ℕ} {results : List RecvResult} (h : Alike a s t)
    (hG : s.OwnSocket j) (hja : j ≠ a) (hstep : s.handleReadSocket results j = .ok s') :
    Alike a s' t := by
  have hfiled := h.filedLeft.step (.read j results) hstep
  obtain ⟨reply, d, -, hd, rfl⟩ := handleReadSocket_ok.mp hstep
  obtain ⟨-, hfd, -⟩ := Dscrptr.advance_kept hd
  have howner : s.sockets d.socketFd ≠ some a := fun hs => by
    rw [hfd] at hs
    exact hja (hG.2 a hs).symm
  refine h.foreign hfiled le_rfl rfl ?_ ?_ (fun _ _ => rfl)
    (fun huser howner => ⟨huser, howner, rfl⟩) ?_
  · simp [afterReply, record, setDscrptr, hja.symm]
  · exact closed_iff howner _
  · simp [afterReply, record, setDscrptr]

/-! ### Own calls -/

theorem update_iff {sockets sockets' : ℤ → Option ℕ}
    (h : ∀ fd, sockets' fd = some a ↔ sockets fd = some a) (x : ℤ) (v : Option ℕ) (fd : ℤ) :
    Function.update sockets' x v fd = some a ↔ Function.update sockets x v fd = some a := by
  by_cases hfd : fd = x
  · simp [hfd]
  · simpa [hfd] using h fd

/-- Files that agree where the old and the new name are looked up agree after
the move. -/
theorem moveFile_congr {files files' : CStr → Option (List Char)} {p path : CStr}
    (hp : files' p = files p) (hpath : files' path = files path) :
    moveFile p files' path = moveFile p files path := by
  unfold moveFile
  rw [hp]
  by_cases htarget : path = renameTarget p
  · simp [htarget]
  · by_cases hpp : path = p
    · subst hpp
      simp [htarget]
    · simp [htarget, hpp, hpath]

theorem Alike.letter {path : CStr} {mails : List (Option CStr)} (h : Alike a s t)
    (hmails : (s.dscrptrs a).mailsList = some path :: mails) : t.files path = s.files path :=
  h.files path (h.filedLeft.letters a h.readyLeft path (hmails ▸ List.mem_cons_self))

theorem Reaches.unique {connected attempt attempt' : Option ℕ} {domain : CStr} {d d' : Dscrptr}
    (hs : Reaches connected domain s a attempt d) (ht : Reaches connected domain t a attempt' d')
    (has : a < s.readyDomainsCount) (hat : a < t.readyDomainsCount)
    (hslot : t.dscrptrs a = s.dscrptrs a) : attempt' = attempt ∧ d' = d := by
  have hknown := ht.known hat
  rw [hslot] at hknown
  rcases hs.known has with ⟨hidle, rfl, hd⟩ | ⟨hbusy, rfl, rfl⟩
  · rcases hknown with ⟨-, rfl, hd'⟩ | ⟨hbusy, -⟩
    · rw [hd] at hd'
      exact ⟨rfl, (Except.ok.inj hd').symm⟩
    · exact absurd hidle hbusy
  · rcases hknown with ⟨hidle, -⟩ | ⟨-, rfl, rfl⟩
    · exact absurd hidle hbusy
    · exact ⟨rfl, rfl⟩

theorem Alike.registers {path : CStr} {connected : Option ℕ} (h : Alike a s t)
    (hdomain : emailDomain path = .ok (s.dscrptrs a).domain)
    (hstep : s.registerNewEmail connected path = .ok s') :
    ∃ t' attempt d, t.registerNewEmail connected path = .ok t' ∧
      d.domain = (s.dscrptrs a).domain ∧ Registers path a attempt d s s' ∧
        Registers path a attempt d t t' := by
  obtain ⟨_, j, attempt, d, hdom, hreach, hreg⟩ := registerNewEmail_ok hstep
  obtain rfl : (s.dscrptrs a).domain = _ := Except.ok.inj (hdomain.symm.trans hdom)
  obtain ⟨hd, -, hunique, -⟩ := hreach.filed h.filedLeft
  obtain rfl : a = j := hunique a h.readyLeft rfl
  -- the other process finds the domain in the same slot, and can do the same
  have hfind : t.findDomain (s.dscrptrs a).domain = some a := by
    rcases findDomain_cases (s.dscrptrs a).domain t with ⟨-, hnew⟩ | ⟨i, hi, hsome, hi'⟩
    · exact absurd (congrArg Dscrptr.domain h.dscrptr) (hnew a h.readyRight)
    · rw [← h.dscrptr] at hi'
      rw [hsome, h.filedRight.distinct i hi a h.readyRight hi']
  obtain ⟨t', ht'⟩ : ∃ t', t.registerNewEmail connected path = .ok t' := by
    refine registerNewEmail_of_known hdomain hfind fun hidle => ?_
    rw [h.dscrptr] at hidle ⊢
    rcases hreach.known h.readyLeft with ⟨-, -, hd⟩ | ⟨hbusy, -⟩
    · exact ⟨d, hd⟩
    · exact absurd hidle hbusy
  obtain ⟨_, j', attempt', d', hdom', hreach', hreg'⟩ := registerNewEmail_ok ht'
  obtain rfl : (s.dscrptrs a).domain = _ := Except.ok.inj (hdomain.symm.trans hdom')
  obtain ⟨-, -, hunique', -⟩ := hreach'.filed h.filedRight
  obtain rfl : a = j' := hunique' a h.readyRight (congrArg Dscrptr.domain h.dscrptr)
  obtain ⟨rfl, rfl⟩ := hreach.unique hreach' h.readyLeft h.readyRight h.dscrptr
  exact ⟨t', attempt', d', ht', hd, hreg, hreg'⟩

theorem Alike.own_register {path : CStr} {connected : Option ℕ} (h : Alike a s t)
    (hdomain : emailDomain path = .ok (s.dscrptrs a).domain)
    (hstep : s.registerNewEmail connected path = .ok s') :
    ∃ t', t.registerNewEmail connected path = .ok t' ∧ Alike a s' t' := by
  obtain ⟨t', attempt, d, ht', hd, hreg, hreg'⟩ := h.registers hdomain hstep
  have hslot : s'.dscrptrs a = d.enqueue path := hreg.slot
  refine ⟨t', ht', h.filedLeft.register hstep, h.filedRight.register ht',
    ?_, ?_, ?_, ?_, ?_, ?_, ?_, ?_⟩
  · exact hreg.ready_old h.readyLeft
  · exact hreg'.ready_old h.readyRight
  · rw [hreg.conf, hreg'.conf, h.conf]
  · rw [hslot, hreg'.slot]
  · rw [hreg.sockets, hreg'.sockets]
    cases attempt with
    | none => exact h.sockets
    | some n => exact update_iff h.sockets n (some a)
  · intro p hp
    rw [hreg.files, hreg'.files]
    refine h.files p ?_
    rw [hp, hslot, Dscrptr.enqueue_domain, hd]
  · intro _ howner
    rw [hreg.placeOwner] at howner
    cases howner
  · rw [hreg.log, hreg'.log]
    cases attempt <;> simpa [openSocket, record] using h.sent

theorem Alike.sends {k : WriteKernel} {r : Sending} (h : Alike a s t)
    (hG : (s.dscrptrs a).continues s.files → s.OwnPlace a)
    (hr : (s.dscrptrs a).sendMsgToServer k.now s.conf.hostName s.files (s.placeAt k) = .ok r) :
    (t.dscrptrs a).sendMsgToServer k.now t.conf.hostName t.files (t.placeAt k) = .ok r ∧
      t.renamed k r = s.renamed k r := by
  refine ⟨?_, ?_⟩
  · rw [h.dscrptr, h.conf, ← hr]
    exact Dscrptr.sendMsgToServer_congr (fun _ _ hmails => h.letter hmails)
      fun hcontinues => h.placeAt (hG hcontinues) k
  · unfold renamed
    cases htaken : r.taken with
    | none => rfl
    | some path =>
        obtain ⟨-, -, mails, hmails⟩ := (Dscrptr.sendMsgToServer_ok hr).1.taken path htaken
        simp [Option.filter, h.letter hmails]

theorem Alike.transmit_eq {r : Sending} (h : Alike a s t) (k : WriteKernel)
    (hs : s.sockets r.dscrptr.socketFd = some a) : t.transmit k r = s.transmit k r := by
  simp only [transmit, hs, (h.sockets _).mpr hs]

theorem Alike.own_write {k : WriteKernel} (h : Alike a s t)
    (hG : (s.dscrptrs a).continues s.files → s.OwnPlace a)
    (hstep : s.handleWriteSocket k a = .ok s') :
    ∃ t', t.handleWriteSocket k a = .ok t' ∧ Alike a s' t' := by
  obtain ⟨r, hr, hw⟩ := handleWriteSocket_ok hstep
  have hprep := (Dscrptr.sendMsgToServer_ok hr).1
  obtain ⟨hr', hrenamed⟩ := h.sends hG hr
  obtain ⟨t', ht'⟩ := handleWriteSocket_of_ok hr'
  obtain ⟨r', hr'', hw'⟩ := handleWriteSocket_ok ht'
  obtain rfl : r' = r := Except.ok.inj (hr''.symm.trans hr')
  refine ⟨t', ht', h.filedLeft.step (.write a k) hstep, h.filedRight.step (.write a k) ht',
    ?_, ?_, ?_, ?_, ?_, ?_, ?_, ?_⟩
  · rw [hw.ready]
    exact h.readyLeft
  · rw [hw'.ready]
    exact h.readyRight
  · rw [hw.conf, hw'.conf, h.conf]
  · rw [hw.dscrptrs, hw'.dscrptrs, Function.update_self, Function.update_self]
  · intro fd
    rw [hw.sockets, hw'.sockets]
    by_cases hs : s.sockets r'.dscrptr.socketFd = some a
    · rw [h.transmit_eq k hs]
      split_ifs
      · exact update_iff h.sockets _ none fd
      · exact h.sockets fd
    · have ht : t.sockets r'.dscrptr.socketFd ≠ some a := fun ht => hs ((h.sockets _).mp ht)
      rw [closed_iff hs, closed_iff ht]
      exact h.sockets fd
  · intro path hpath
    rw [hw.dscrptrs, Function.update_self, hprep.domain] at hpath
    rw [hw.files, hw'.files]
    simp only [applySending, hrenamed]
    cases hmoved : s.renamed k r' with
    | none => exact h.files path hpath
    | some p =>
        obtain ⟨-, -, mails, hmails⟩ := hprep.taken p (Option.filter_eq_some_iff.mp hmoved).1
        exact moveFile_congr (h.letter hmails) (h.files path hpath)
  · intro huser howner
    rw [hw.placeUser] at huser
    rw [hw.placeOwner] at howner
    rw [hw.place, hw'.place, hw'.placeOwner]
    simp only [applySending] at huser howner ⊢
    by_cases hread : r'.taken.isSome ∧ r'.dscrptr.buffer.isSome
    · obtain ⟨place, hplace⟩ := Option.isSome_iff_exists.mp (hprep.place hread.1)
      simp [hread, hplace]
    · rw [if_neg hread] at howner ⊢
      cases hplace : r'.place with
      | some text =>
          -- the text goes on in the letter, which the two have in common
          have hown := hG (Dscrptr.continues_of_place hr (by simp [hplace]) hread)
          exact ⟨rfl, (h.place hown.user howner).2⟩
      | none =>
          simp only [hplace, Option.isSome_none, Bool.false_eq_true, if_false] at huser
          exact h.place huser howner
  · rw [hw.log, hw'.log, sentTo_append, sentTo_append, sentTo_applySending, sentTo_applySending,
      h.sent]
    by_cases hs : s.sockets r'.dscrptr.socketFd = some a
    · rw [h.transmit_eq k hs]
    · rw [sentTo_transmit hs, sentTo_transmit fun ht => hs ((h.sockets _).mp ht)]

theorem Alike.own_read {results : List RecvResult} (h : Alike a s t) (hG : s.OwnSocket a)
    (hstep : s.handleReadSocket results a = .ok s') :
    ∃ t', t.handleReadSocket results a = .ok t' ∧ Alike a s' t' := by
  have hfiled := h.filedLeft.step (.read a results) hstep
  obtain ⟨reply, d, hreply, hd, rfl⟩ := handleReadSocket_ok.mp hstep
  -- the socket is open, so it is the session's own in both processes
  have hopen : s.sockets (s.dscrptrs a).socketFd = some a := by
    unfold receive at hreply
    split at hreply
    next hsome =>
      obtain ⟨i, hi⟩ := Option.isSome_iff_exists.mp hsome
      rw [hi, hG.2 i hi]
    next => cases hreply
  have hreply' : t.receive results (t.dscrptrs a) = some reply := by
    rw [← hreply, h.dscrptr]
    simp only [receive, hopen, (h.sockets _).mpr hopen]
  have ht' := handleReadSocket_ok.mpr ⟨reply, d, hreply', by rwa [h.dscrptr], rfl⟩
  have hfiled' := h.filedRight.step (.read a results) ht'
  obtain ⟨hdom, -, -⟩ := Dscrptr.advance_kept hd
  refine ⟨_, ht', hfiled, hfiled', h.readyLeft, h.readyRight, h.conf, ?_, ?_, ?_, h.place, ?_⟩
  · simp [afterReply, record, setDscrptr]
  · intro fd
    simp only [afterReply, record, setDscrptr]
    split_ifs
    · exact update_iff h.sockets _ none fd
    · exact h.sockets fd
  · intro path hpath
    refine h.files path ?_
    simpa [afterReply, record, setDscrptr, hdom] using hpath
  · simpa [afterReply, record, setDscrptr] using h.sent

/-! ### The session alone -/

/-- Any call of the session can be made by both processes. -/
theorem Alike.own {op : Op} (h : Alike a s t) (hG : Undisturbed a s op)
    (hown : op.ownedBy a (s.dscrptrs a).domain = true) (hstep : s.step op = .ok s') :
    ∃ t', t.step op = .ok t' ∧ Alike a s' t' := by
  cases op with
  | register path connected => exact h.own_register (by simpa [Op.ownedBy] using hown) hstep
  | write j k =>
      obtain rfl : j = a := by simpa [Op.ownedBy] using hown
      exact h.own_write (hG.2.1 rfl) hstep
  | read j results =>
      obtain rfl : j = a := by simpa [Op.ownedBy] using hown
      exact h.own_read hG hstep
  | select readReady writeReady exceptReady => cases hown

/-- Any other call can be left out. -/
theorem Alike.other {op : Op} (h : Alike a s t) (hG : Undisturbed a s op)
    (hown : op.ownedBy a (s.dscrptrs a).domain = false) (hstep : s.step op = .ok s') :
    Alike a s' t := by
  cases op with
  | register path connected =>
      exact h.foreign_register hG (by simpa [Op.ownedBy] using hown) hstep
  | write j k => exact h.foreign_write hG (by simpa [Op.ownedBy] using hown) hstep
  | read j results => exact h.foreign_read hG (by simpa [Op.ownedBy] using hown) hstep
  | select readReady writeReady exceptReady =>
      have hfiled := h.filedLeft.step _ hstep
      cases hstep
      exact h.foreign hfiled le_rfl rfl rfl (fun _ => Iff.rfl) (fun _ _ => rfl)
        (fun huser howner => ⟨huser, howner, rfl⟩) rfl

/-- The run of all the calls sends for slot `a` what the run of the session's
own calls sends. -/
def Isolated (a : ℕ) (s : Child) (ops : List Op) : Prop :=
  ∀ s', run step s ops = .ok s' →
    ∃ t', run step s (ops.filter (Op.ownedBy a (s.dscrptrs a).domain)) = .ok t' ∧
      sentTo a s'.log = sentTo a t'.log

/-- In a process that booted and ran, a session that is not disturbed sends
what it would send alone. -/
theorem isolated_of_undisturbed {conf : Conf} {files : CStr → Option (List Char)}
    {memory : ℕ → Dscrptr} {before ops : List Op}
    (hbefore : run step (bootChild conf files memory) before = .ok s)
    (ha : a < s.readyDomainsCount) (hG : Guarded step (Undisturbed a) s ops) :
    Isolated a s ops := by
  intro s' hrun
  have hpair : ∃ t', run step s (ops.filter (Op.ownedBy a (s.dscrptrs a).domain)) = .ok t' ∧
      Alike a s' t' ∧ (s'.dscrptrs a).domain = (s.dscrptrs a).domain := by
    refine run_unwinding (R := fun s₁ t₁ =>
      Alike a s₁ t₁ ∧ (s₁.dscrptrs a).domain = (s.dscrptrs a).domain)
      ?_ ?_ ⟨Alike.refl (filed_of_run hbefore) ha, rfl⟩ hG hrun
    · rintro s₁ t₁ op s₂ ⟨hR, hdom⟩ hg hown hstep
      obtain ⟨t₂, ht₂, hR₂⟩ := hR.own hg (by rwa [hdom]) hstep
      exact ⟨t₂, ht₂, hR₂, (hR.filedLeft.domain_kept hR.readyLeft hstep).trans hdom⟩
    · rintro s₁ t₁ op s₂ ⟨hR, hdom⟩ hg hown hstep
      exact ⟨hR.other hg (by rwa [hdom]) hstep,
        (hR.filedLeft.domain_kept hR.readyLeft hstep).trans hdom⟩
  obtain ⟨t', ht', hR, -⟩ := hpair
  exact ⟨t', ht', hR.sent.symm⟩

def sampleRegistrations : List Op :=
  [.register (sampleLetter "a.b") (some 5), .register (sampleLetter "c.d") (some 6)]

theorem isolated_helo : ∃ s, run step sampleChild sampleRegistrations = .ok s ∧
    Isolated 0 s [.read 0 (sampleReply "220"), .read 1 (sampleReply "220"),
      .write 0 sampleWrites] := by
  have hbefore : run step sampleChild sampleRegistrations = .ok _ := rfl
  refine ⟨_, hbefore, isolated_of_undisturbed hbefore (by decide) ?_⟩
  rintro _ ⟨⟩
  refine ⟨⟨by decide, by rintro i ⟨⟩; rfl⟩, ?_⟩
  rintro _ ⟨⟩
  refine ⟨⟨by decide, by rintro i ⟨⟩; rfl⟩, ?_⟩
  rintro _ ⟨⟩
  refine ⟨⟨⟨by decide, by rintro i ⟨⟩; rfl⟩, fun _ hcontinues => ?_, fun h => absurd rfl h⟩,
    trivial⟩
  rcases hcontinues with h | h | ⟨h, -⟩ <;> cases h

/-- Between the sender and the recipient of the first letter the other session
sends its sender, and the recipient is read from the other letter. -/
theorem recipient_from_other_letter : ∃ s, run step sampleChild sampleRegistrations = .ok s ∧
    1 < s.readyDomainsCount ∧
    ¬ Isolated 0 s (upToMailFrom 0 ++ upToMailFrom 1 ++
      [.read 0 (sampleReply "250"), .write 0 sampleWrites]) := by
  refine ⟨_, rfl, by decide, fun h => ?_⟩
  obtain ⟨t', ht', hsent⟩ := h _ rfl
  cases ht'
  revert hsent
  decide

end Child

end SmtpProj.Client
