import SmtpProj.Client.Registration
import SmtpProj.Client.Spool
import SmtpProj.Client.Duplicates

/-!
How a domain is given up, for as long as its child runs.

A registration drops its letter if it leaves the session of the domain done. It
connects again only for a list without letters, or a session at its start. So
once it has left a session done that still has letters, no later registration
connects, and since it has also taken the number of the session away, no reply
comes to it either: the session stays as it is, its letters stay in the list,
and every new letter of the domain is dropped.

One refusal of the server, or one failed attempt to connect again, is enough,
whatever the master, the other children and the kernel do.
-/

namespace SmtpProj.Client

open Lib

/-! ### What children keep -/

namespace MailClient

variable {s s' : MailClient} {i : ℕ}

theorem childStep_of_stopped {op : Op} (hc : s.children i = none) : s.childStep i op = s := by
  unfold childStep
  rw [hc]

theorem childStep_of_error {op : Op} {c : Child} {halt : Halt} (hc : s.children i = some c)
    (h : ({ c with files := s.files } : Child).step op = .error halt) :
    s.childStep i op = { s with children := Function.update s.children i none } := by
  unfold childStep
  rw [hc]
  simp only [h]

theorem childStep_of_ok {op : Op} {c c' : Child} (hc : s.children i = some c)
    (h : ({ c with files := s.files } : Child).step op = .ok c') :
    s.childStep i op =
      { s with children := Function.update s.children i (some c'), files := c'.files } := by
  unfold childStep
  rw [hc]
  simp only [h]

def Moved (i : ℕ) (s s' : MailClient) : Prop :=
  s'.children i = s.children i ∨ s'.children i = none ∨
    ∃ c op c', s.children i = some c ∧ ({ c with files := s.files } : Child).step op = .ok c' ∧
      s'.children i = some c'

theorem childStep_moved (s : MailClient) (i k : ℕ) (op : Op) : Moved i s (s.childStep k op) := by
  cases hc : s.children k with
  | none =>
      rw [childStep_of_stopped hc]
      exact .inl rfl
  | some c =>
      cases hok : ({ c with files := s.files } : Child).step op with
      | error halt =>
          rw [childStep_of_error hc hok]
          by_cases hik : i = k
          · subst hik
            exact .inr (.inl (Function.update_self i _ _))
          · exact .inl (Function.update_of_ne hik _ _)
      | ok c' =>
          rw [childStep_of_ok hc hok]
          by_cases hik : i = k
          · subst hik
            exact .inr (.inr ⟨c, op, c', hc, hok, Function.update_self i _ _⟩)
          · exact .inl (Function.update_of_ne hik _ _)

@[simp] theorem send_children (accepted : Bool) (msg : Option (ℕ × CStr)) (s : MailClient) :
    (s.send accepted msg).children = s.children := by
  unfold send
  split <;> rfl

theorem masterStep_children (dirs : List (CStr × List CStr)) (accepted : Bool) (s : MailClient) :
    (s.masterStep dirs accepted).children = s.children := by
  unfold masterStep
  split
  next => rfl
  next m hm =>
    split
    next => rfl
    next => exact send_children accepted _ _

theorem step_moved {a : Action} (h : s.step a = .ok s') (i : ℕ) : Moved i s s' := by
  cases a with
  | master dirs accepted =>
      cases h
      exact .inl (congrFun (masterStep_children dirs accepted s) i)
  | receive k connected =>
      cases h
      unfold receive
      split
      next path rest _ _ =>
        split
        · exact childStep_moved { s with queues := Function.update s.queues k rest } i k
            (.register path connected)
        · exact .inl rfl
      next => exact .inl rfl
  | write k j kernel =>
      cases h
      exact childStep_moved s i k _
  | read k j results =>
      cases h
      exact childStep_moved s i k _
  | select k readReady writeReady exceptReady =>
      cases h
      exact childStep_moved s i k _

/-- What the calls of a child keep, whatever the files are, the client keeps for
as long as the child runs. -/
theorem childKeeps_step {P : Child → Prop} {a : Action}
    (hfiles : ∀ c files, P c → P { c with files := files })
    (hstep : ∀ c op c', P c → c.step op = .ok c' → P c')
    (hs : ∀ c, s.children i = some c → P c) (h : s.step a = .ok s') :
    ∀ c, s'.children i = some c → P c := by
  intro c' hc'
  rcases step_moved h i with hsame | hnone | ⟨c, op, c₁, hc, hcall, hc₁⟩
  · exact hs c' (hsame ▸ hc')
  · rw [hnone] at hc'
    cases hc'
  · rw [hc₁] at hc'
    cases hc'
    exact hstep _ op _ (hfiles c s.files (hs c hc)) hcall

theorem childKeeps_run {P : Child → Prop} {actions : List Action}
    (hfiles : ∀ c files, P c → P { c with files := files })
    (hstep : ∀ c op c', P c → c.step op = .ok c' → P c')
    (hs : ∀ c, s.children i = some c → P c) (h : run step s actions = .ok s') :
    ∀ c, s'.children i = some c → P c :=
  run_invariant (P := fun s : MailClient => ∀ c, s.children i = some c → P c)
    (fun _ _ _ hs _ hok => childKeeps_step hfiles hstep hs hok) hs (guarded_true _ _) h

end MailClient

/-! ### A session that is given up -/

/-- The slot that an event is about; sockets and files have none. -/
def Event.slot : Event → Option ℕ
  | .connected j => some j
  | .took j _ _ => some j
  | .answered j _ _ => some j
  | .moved _ _ => none
  | .sent _ _ => none

namespace Child

variable {c c' : Child} {j : ℕ} {domain : CStr} {mails : List (Option CStr)} {log : List Event}

/-- The session of slot `j` is done, has letters left, and no number. -/
structure GivenUp (j : ℕ) (domain : CStr) (mails : List (Option CStr)) (c : Child) : Prop where
  ready : j < c.readyDomainsCount
  named : (c.dscrptrs j).domain = domain
  state : (c.dscrptrs j).state = .done
  letters : (c.dscrptrs j).mailsList = mails
  number : (c.dscrptrs j).socketFd = -1
  left : 0 < count mails

/-- No call for slot `j`, or for a letter of its domain, reads, renames or sends
anything, and no write of any slot renames a letter of the domain. -/
structure Mute (j : ℕ) (domain : CStr) (c : Child) : Prop where
  calls : ∀ files op c', op.ownedBy j domain = true →
    ({ c with files := files } : Child).step op = .ok c' → c'.log = c.log
  moves : ∀ files i k c', i < c.readyDomainsCount →
    ({ c with files := files } : Child).step (.write i k) = .ok c' →
      ∃ events, c'.log = c.log ++ events ∧
        ∀ path target, .moved path target ∈ events → emailDomain path ≠ .ok domain

/-- Since `log` nothing has happened to slot `j`. -/
def SilentSince (log : List Event) (j : ℕ) (c : Child) : Prop :=
  ∃ events, c.log = log ++ events ∧ ∀ e ∈ events, e.slot ≠ some j

theorem SilentSince.append {events : List Event} (h : c.SilentSince log j)
    (hlog : c'.log = c.log ++ events) (hevents : ∀ e ∈ events, e.slot ≠ some j) :
    c'.SilentSince log j := by
  obtain ⟨events₀, hlog₀, hevents₀⟩ := h
  refine ⟨events₀ ++ events, by rw [hlog, hlog₀, List.append_assoc], fun e he => ?_⟩
  exact (List.mem_append.mp he).elim (hevents₀ e) (hevents e)

/-- A write is about the slot it is called for, and only if it takes a
letter. -/
theorem Wrote.slots {i : ℕ} {k : WriteKernel} {r : Sending} (hw : Wrote k i r c c') :
    ∃ events, c'.log = c.log ++ events ∧
      ∀ e ∈ events, ∀ j, e.slot = some j → i = j ∧ r.taken ≠ none := by
  refine ⟨_, by rw [hw.log, applySending, List.append_assoc, List.append_assoc],
    fun e he j hj => ?_⟩
  simp only [List.mem_append, List.mem_map, Option.mem_toList] at he
  rcases he with ⟨path, hpath, rfl⟩ | ⟨path, -, rfl⟩ | he
  · exact ⟨Option.some.inj hj, by rw [hpath]; simp⟩
  · cases hj
  · unfold transmit at he
    split at he
    · simp at he
    · obtain ⟨_, _, rfl⟩ := sendAll_events _ _ _ _ he
      cases hj

theorem openSocket_log (attempt : Option ℕ) (i : ℕ) (c : Child) :
    ∃ events, (c.openSocket attempt i).log = c.log ++ events ∧ ∀ e ∈ events, e.slot = some i := by
  cases attempt with
  | none => exact ⟨[], by simp [openSocket], by simp⟩
  | some fd => exact ⟨[.connected i], rfl, by simp [Event.slot]⟩

/-- The session is registered for and called in vain. -/
theorem GivenUp.step {op : Op} (h : c.GivenUp j domain mails) (hnatural : c.OpensNatural)
    (hsilent : c.SilentSince log j) (hok : c.step op = .ok c') :
    c'.GivenUp j domain mails ∧ c'.SilentSince log j := by
  have hother : c'.dscrptrs j = c.dscrptrs j → c.readyDomainsCount ≤ c'.readyDomainsCount →
      c'.GivenUp j domain mails := fun hslot hready =>
    ⟨h.ready.trans_le hready, hslot ▸ h.named, hslot ▸ h.state, hslot ▸ h.letters,
      hslot ▸ h.number, h.left⟩
  cases op with
  | register path connected =>
      obtain ⟨given, i, attempt, d, -, hreach, hreg⟩ := registerNewEmail_ok hok
      obtain ⟨events, hlog, hevents⟩ := openSocket_log attempt i c
      have hready : c.readyDomainsCount ≤ c'.readyDomainsCount := by
        rw [hreg.ready]
        exact le_max_left _ _
      by_cases hij : j = i
      · subst hij
        rcases hreach.known h.ready with ⟨hidle, -⟩ | ⟨-, rfl, rfl⟩
        · rw [h.letters, h.state] at hidle
          have hleft := h.left
          simp at hidle
          omega
        · have hslot := hreg.slot
          rw [Dscrptr.enqueue, if_pos h.state] at hslot
          refine ⟨⟨h.ready.trans_le hready, ?_, ?_, ?_, ?_, h.left⟩,
            hsilent.append (by rw [hreg.log, hlog]) fun e he => ?_⟩
          · rw [hslot]
            exact h.named
          · rw [hslot]
            exact h.state
          · rw [hslot]
            exact h.letters
          · rw [hslot]
          · have hnone : events = [] := by simpa [openSocket] using hlog
            simp [hnone] at he
      · refine ⟨hother (hreg.other hij) hready,
          hsilent.append (by rw [hreg.log, hlog]) fun e he => ?_⟩
        rw [hevents e he]
        exact fun heq => hij (Option.some.inj heq).symm
  | write i k =>
      obtain ⟨r, hr, hw⟩ := handleWriteSocket_ok hok
      obtain ⟨events, hlog, hevents⟩ := hw.slots
      by_cases hij : j = i
      · subst hij
        obtain ⟨hprep, -⟩ := Dscrptr.sendMsgToServer_ok hr
        have hslot : c'.dscrptrs j = r.dscrptr := by rw [hw.dscrptrs, Function.update_self]
        refine ⟨⟨hw.ready ▸ h.ready, ?_, ?_, ?_, ?_, h.left⟩, hsilent.append hlog fun e he hj => ?_⟩
        · rw [hslot, hprep.domain, h.named]
        · rw [hslot, hprep.state, h.state]
        · rw [hslot, hprep.mailsList, h.letters]
        · rw [hslot, hprep.socketFd, h.number]
        · obtain ⟨path, hpath⟩ := Option.ne_none_iff_exists'.mp (hevents e he j hj).2
          have hstate := (hprep.taken path hpath).2.1
          rw [h.state] at hstate
          cases hstate
      · refine ⟨hother (by rw [hw.dscrptrs, Function.update_of_ne hij]) hw.ready.ge,
          hsilent.append hlog fun e he hj => ?_⟩
        exact hij (hevents e he j hj).1.symm
  | read i results =>
      obtain ⟨reply, d, hreply, hd, rfl⟩ := handleReadSocket_ok.mp hok
      by_cases hij : j = i
      · subst hij
        rw [receive, h.number, hnatural (-1) (by omega)] at hreply
        cases hreply
      · refine ⟨hother ?_ le_rfl, hsilent.append rfl fun e he => ?_⟩
        · simp [afterReply, record, setDscrptr, hij]
        · rw [List.mem_singleton.mp he]
          exact fun heq => hij (Option.some.inj heq).symm
  | select readReady writeReady exceptReady =>
      cases hok
      exact ⟨hother rfl le_rfl, hsilent.append (List.append_nil _).symm (by simp)⟩

theorem sendMsgToServer_of_done {d : Dscrptr} {now : ℤ} {hostName : CStr}
    {files : CStr → Option (List Char)} {place : Option CStr} {r : Sending} (hd : d.state = .done)
    (h : d.sendMsgToServer now hostName files place = .ok r) : r.taken = none ∧ r.data = [] := by
  obtain ⟨canBeSend, hmsg⟩ := Dscrptr.sendMsgToServer_eq now d
  rw [hmsg] at h
  cases hretry : (d.retry now).2 with
  | some code =>
      simp only [hretry] at h
      cases h
      exact ⟨rfl, rfl⟩
  | none =>
      simp only [hretry, Dscrptr.sendCommand, hd] at h
      cases h
      exact ⟨rfl, rfl⟩

theorem transmit_of_nil {k : WriteKernel} {r : Sending} (h : r.data = []) :
    (c.transmit k r).2 = [] := by
  unfold transmit
  split
  next => rfl
  next => rw [h, sendAll]

/-- A session that is given up is not heard of again. -/
theorem GivenUp.mute (h : c.GivenUp j domain mails) (hfiled : c.Filed)
    (hnatural : c.OpensNatural) : c.Mute j domain := by
  refine ⟨fun files op c' hown hok => ?_, fun files i k c' hi hok => ?_⟩
  · cases op with
    | register path connected =>
        obtain ⟨given, i, attempt, d, hgiven, hreach, hreg⟩ := registerNewEmail_ok hok
        have hdomain : emailDomain path = .ok domain := by simpa [Op.ownedBy] using hown
        obtain rfl := Except.ok.inj (hdomain.symm.trans hgiven)
        have hfiled' : ({ c with files := files } : Child).Filed :=
          ⟨hfiled.distinct, hfiled.letters⟩
        obtain rfl : j = i := (hreach.filed hfiled').2.2.1 j h.ready h.named
        rcases hreach.known h.ready with ⟨hidle, -⟩ | ⟨-, rfl, -⟩
        · have hleft := h.left
          simp only [h.letters, h.state] at hidle
          simp at hidle
          omega
        · exact hreg.log
    | write i k =>
        obtain rfl : i = j := by simpa [Op.ownedBy] using hown
        obtain ⟨r, hr, hw⟩ := handleWriteSocket_ok hok
        obtain ⟨htaken, hdata⟩ := sendMsgToServer_of_done h.state hr
        rw [hw.log, transmit_of_nil hdata]
        simp [applySending, renamed, htaken]
    | read i results =>
        obtain rfl : i = j := by simpa [Op.ownedBy] using hown
        obtain ⟨reply, d, hreply, -, -⟩ := handleReadSocket_ok.mp hok
        simp [receive, h.number, hnatural (-1) (by omega)] at hreply
    | select readReady writeReady exceptReady => cases hown
  · obtain ⟨r, hr, hw⟩ := handleWriteSocket_ok hok
    obtain ⟨events, hlog, -, hmoved⟩ := hw.log_append
    refine ⟨events, hlog, fun path target hmem hpath => ?_⟩
    obtain ⟨hrenamed, -⟩ := (hmoved path target).mp hmem
    obtain ⟨-, hst, rest, hmails⟩ :=
      (Dscrptr.sendMsgToServer_ok hr).1.taken path (Option.filter_eq_some_iff.mp hrenamed).1
    -- a letter of the domain is in the list of its own slot, which is done
    have hi' : emailDomain path = .ok (c.dscrptrs i).domain :=
      hfiled.letters i hi path (hmails ▸ List.mem_cons_self)
    rw [hpath] at hi'
    obtain rfl := hfiled.distinct j h.ready i hi (h.named.trans (Except.ok.inj hi'))
    rw [h.state] at hst
    cases hst

/-- A registration that leaves the session of a domain done, with letters in its
list, gives it up. -/
theorem givenUp_of_register {path : CStr} {connected : Option ℕ} (hfiled : c.Filed)
    (hj : j < c.readyDomainsCount) (hdomain : emailDomain path = .ok (c.dscrptrs j).domain)
    (hleft : 0 < count (c.dscrptrs j).mailsList)
    (hends : (c.dscrptrs j).state = .done ∨ (c.dscrptrs j).state = .init ∧ connected = none)
    (hok : c.registerNewEmail connected path = .ok c') :
    c'.GivenUp j (c.dscrptrs j).domain (c.dscrptrs j).mailsList ∧ c'.SilentSince c.log j := by
  obtain ⟨domain, i, attempt, d, hdomain', hreach, hreg⟩ := registerNewEmail_ok hok
  obtain rfl := Except.ok.inj (hdomain.symm.trans hdomain')
  obtain rfl : j = i := (hreach.filed hfiled).2.2.1 j hj rfl
  have hd : attempt = none ∧ d.domain = (c.dscrptrs j).domain ∧ d.state = .done ∧
      d.mailsList = (c.dscrptrs j).mailsList := by
    rcases hreach.known hj with ⟨hidle, rfl, hconn⟩ | ⟨hbusy, rfl, rfl⟩
    · have hinit : (c.dscrptrs j).state = .init := hidle.resolve_left hleft.ne'
      rcases hends with hdone | ⟨-, rfl⟩
      · rw [hinit] at hdone
        cases hdone
      · obtain ⟨hdom, hmails⟩ := Dscrptr.initConn_kept hconn
        rcases Dscrptr.initConn_cases hconn with ⟨-, hdone, -⟩ | ⟨fd, hfd, -⟩
        · exact ⟨rfl, hdom, hdone, hmails⟩
        · cases hfd
    · have hdone : (c.dscrptrs j).state = .done :=
        hends.resolve_right fun h => hbusy (.inr h.1)
      exact ⟨rfl, rfl, hdone, rfl⟩
  obtain ⟨rfl, hdom, hdone, hmails⟩ := hd
  have hslot := hreg.slot
  rw [Dscrptr.enqueue, if_pos hdone] at hslot
  refine ⟨⟨hreg.ready_old hj, ?_, ?_, ?_, ?_, hleft⟩, [], ?_, by simp⟩
  · rw [hslot]
    exact hdom
  · rw [hslot]
    exact hdone
  · rw [hslot]
    exact hmails
  · rw [hslot]
  · rw [hreg.log, openSocket, List.append_nil]

end Child

namespace MailClient

variable {s s' : MailClient} {i j : ℕ} {c c' : Child} {path : CStr} {rest : List CStr}

theorem ne_nil_of_emailDomain {domain : CStr} (h : emailDomain path = .ok domain) : path ≠ [] := by
  rintro rfl
  cases h

/-- In a client that was started the children file their letters, and have
opened only what the kernel gave. -/
theorem child_of_run {conf : Conf} {procNum : ℕ} {files : CStr → Option (List Char)}
    {domains : ℤ → CStr} {counts : ℤ → ℤ} {memory : ℕ → ℕ → Dscrptr} {actions : List Action}
    (h : run step (bootClient conf procNum files domains counts memory) actions = .ok s)
    (hc : s.children i = some c) : c.Filed ∧ c.OpensNatural := by
  refine childKeeps_run (P := fun c => c.Filed ∧ c.OpensNatural)
    (fun c files hc => ⟨⟨hc.1.distinct, hc.1.letters⟩, hc.2⟩)
    (fun c op c' hc hok => ⟨hc.1.step op hok, hc.2.step hok⟩) (fun c hc => ?_) h c hc
  simp only [bootClient] at hc
  split_ifs at hc
  cases hc
  exact ⟨Child.filed_boot conf files (memory i), fun _ _ => rfl⟩

/-- A letter comes to a domain whose session is done, or cannot be reached
again, while letters are left for it. From then on, whatever the client does,
and for as long as the child runs, the session is done, its letters stay in the
list, and no letter is added to them; nothing has happened to it, and no call
for it does anything. -/
theorem domain_given_up {conf : Conf} {procNum : ℕ} {files : CStr → Option (List Char)}
    {domains : ℤ → CStr} {counts : ℤ → ℤ} {memory : ℕ → ℕ → Dscrptr}
    {actions actions' : List Action} {connected : Option ℕ}
    (hrun : run step (bootClient conf procNum files domains counts memory) actions = .ok s)
    (hc : s.children i = some c) (hqueue : s.queues i = path :: rest)
    (hj : j < c.readyDomainsCount) (hdomain : emailDomain path = .ok (c.dscrptrs j).domain)
    (hleft : 0 < count (c.dscrptrs j).mailsList)
    (hends : (c.dscrptrs j).state = .done ∨ (c.dscrptrs j).state = .init ∧ connected = none)
    (hrun' : run step s (.receive i connected :: actions') = .ok s')
    (hc' : s'.children i = some c') :
    c'.GivenUp j (c.dscrptrs j).domain (c.dscrptrs j).mailsList ∧ c'.SilentSince c.log j ∧
      c'.Mute j (c.dscrptrs j).domain := by
  obtain ⟨hfiled, hnatural⟩ := child_of_run hrun hc
  obtain ⟨s₁, hreceive, hrest⟩ := bind_eq_ok.mp hrun'
  cases hreceive
  have hfirst : ∀ c₁, (s.receive i connected).children i = some c₁ →
      (c₁.Filed ∧ c₁.OpensNatural) ∧
        c₁.GivenUp j (c.dscrptrs j).domain (c.dscrptrs j).mailsList ∧ c₁.SilentSince c.log j := by
    intro c₁ hc₁
    simp only [receive, hc, hqueue, if_pos (ne_nil_of_emailDomain hdomain)] at hc₁
    cases hok : ({ c with files := s.files } : Child).step (.register path connected) with
    | error halt =>
        rw [childStep_of_error (s := { s with queues := Function.update s.queues i rest }) hc hok]
          at hc₁
        simp at hc₁
    | ok c₂ =>
        rw [childStep_of_ok (s := { s with queues := Function.update s.queues i rest }) hc hok]
          at hc₁
        obtain rfl : c₂ = c₁ := by simpa using hc₁
        have hfiled₀ : ({ c with files := s.files } : Child).Filed :=
          ⟨hfiled.distinct, hfiled.letters⟩
        have hnatural₀ : ({ c with files := s.files } : Child).OpensNatural := hnatural
        exact ⟨⟨hfiled₀.step _ hok, hnatural₀.step hok⟩,
          Child.givenUp_of_register (c := { c with files := s.files }) hfiled₀ hj hdomain hleft
            hends hok⟩
  have hkeeps := childKeeps_run (i := i)
    (P := fun c₁ => (c₁.Filed ∧ c₁.OpensNatural) ∧
      c₁.GivenUp j (c.dscrptrs j).domain (c.dscrptrs j).mailsList ∧ c₁.SilentSince c.log j)
    (fun c files h => ⟨⟨⟨h.1.1.distinct, h.1.1.letters⟩, h.1.2⟩, ⟨h.2.1.ready, h.2.1.named,
      h.2.1.state, h.2.1.letters, h.2.1.number, h.2.1.left⟩, h.2.2⟩)
    (fun c op c' h hok => ⟨⟨h.1.1.step op hok, h.1.2.step hok⟩, h.2.1.step h.1.2 h.2.2 hok⟩)
    hfirst hrest
  obtain ⟨⟨hfiled', hnatural'⟩, hgiven, hsilent⟩ := hkeeps c' hc'
  exact ⟨hgiven, hsilent, hgiven.mute hfiled' hnatural'⟩

def sampleRefused : List Action :=
  sampleScan ++ [.receive 0 (some 5), .read 0 0 (sampleReply "554")] ++ sampleScan

def refusedClient : MailClient :=
  match run step sampleClient sampleRefused with
  | .ok s => s
  | .error _ => sampleClient

def sampleLate : List Action := .receive 0 (some 6) :: (sampleScan ++ [.receive 0 (some 7)])

def givenUpClient : MailClient :=
  match run step refusedClient sampleLate with
  | .ok s => s
  | .error _ => sampleClient

theorem domain_given_up_sample : ∃ c c', refusedClient.children 0 = some c ∧
    run step refusedClient sampleLate = .ok givenUpClient ∧ givenUpClient.children 0 = some c' ∧
      c'.GivenUp 0 (c.dscrptrs 0).domain (c.dscrptrs 0).mailsList ∧ c'.SilentSince c.log 0 ∧
        c'.Mute 0 (c.dscrptrs 0).domain := by
  have hrefused : (refusedClient.children 0).map (fun c => (c.readyDomainsCount,
      (c.dscrptrs 0).domain, count (c.dscrptrs 0).mailsList, (c.dscrptrs 0).state)) =
      some (1, "a.b".toList, 1, .done) := by
    decide +kernel
  obtain ⟨c, hc, hfields⟩ := Option.map_eq_some_iff.mp hrefused
  simp only [Prod.mk.injEq] at hfields
  obtain ⟨hready, hnamed, hcount, hstate⟩ := hfields
  obtain ⟨c', hc'⟩ : ∃ c', givenUpClient.children 0 = some c' :=
    Option.isSome_iff_exists.mp (by decide +kernel)
  have hrun : run step sampleClient sampleRefused = .ok refusedClient := rfl
  have hlate : run step refusedClient sampleLate = .ok givenUpClient := rfl
  have hdomain : emailDomain (sampleLetter "a.b") = .ok (c.dscrptrs 0).domain := by
    rw [hnamed]
    decide +kernel
  refine ⟨c, c', hc, hlate, hc', domain_given_up hrun hc rfl ?_ hdomain ?_ (.inl hstate) hlate hc'⟩
  · omega
  · omega

end MailClient

end SmtpProj.Client
