import SmtpProj.Client.Sockets
import SmtpProj.Client.Replies

/-!
What the registration of a letter leaves behind.

A registration tries to connect if the domain is new, has no letter, or is at
its start. The state that the new session starts in is not written anywhere: it
is what one step of the automaton makes of the state that was there. Only from
the start is that the greeting; from a session that waits for its last reply it
is the start, and from a slot that was never written it is anything.

A registration that does not try to connect relies on the session that the
domain has. It is not asked whether that session is still alive: one that a
negative reply has ended, with letters in its list, drops the new letter, and
one whose socket a failed write has closed keeps it without a way to send it.
-/

namespace SmtpProj.Client

open Lib

/-! ### The ends of a registration -/

@[simp] theorem clientFsmStep_ok_eq_connect {st : ClientState} :
    clientFsmStep st .ok = .ok .connect ↔ st = .init := by
  cases st <;> simp [clientFsmStep, clientFsmTransTable]

theorem Dscrptr.exists_initConn (connected : Option ℕ) (d : Dscrptr) :
    ∃ d', d.initConn connected = .ok d' := by
  obtain ⟨st, hst⟩ := clientFsmStep_ok d.state
  obtain ⟨st', hst'⟩ := clientFsmStep_error st
  cases connected with
  | some fd => exact ⟨_, by rw [Dscrptr.initConn, hst]; rfl⟩
  | none => exact ⟨_, by rw [Dscrptr.initConn, hst]; simp only [bind, Except.bind, hst']; rfl⟩

namespace Child

variable {c c' : Child} {j : ℕ} {path domain : CStr} {connected attempt : Option ℕ} {d : Dscrptr}

/-- A letter for `domain` has a slot: one that has the domain, or one that is
left in the array. -/
def HasSlot (domain : CStr) (c : Child) : Prop :=
  (c.findDomain domain).isSome ∨ c.readyDomainsCount < maxMailDomainNum

instance (domain : CStr) (c : Child) : Decidable (c.HasSlot domain) :=
  inferInstanceAs (Decidable (_ ∨ _))

/-- A registration stops only at a domain that it has no slot for. -/
theorem exists_registerNewEmail_iff (hdomain : emailDomain path = .ok domain) :
    (∃ c', c.registerNewEmail connected path = .ok c') ↔ c.HasSlot domain := by
  cases hfind : c.findDomain domain with
  | some j =>
      refine iff_of_true ?_ (.inl (by rw [hfind]; rfl))
      exact registerNewEmail_of_known hdomain hfind fun _ => Dscrptr.exists_initConn _ _
  | none =>
      have hslot : c.HasSlot domain ↔ c.readyDomainsCount < maxMailDomainNum := by
        simp [HasSlot, hfind]
      rw [hslot]
      constructor
      · rintro ⟨c', h⟩
        by_contra hfull
        simp [registerNewEmail, hdomain, hfind, registerDomain, hfull, bind, Except.bind] at h
      · intro hroom
        obtain ⟨d, hd⟩ := Dscrptr.exists_initConn connected (c.nextDscrptr domain)
        have hd' : ({ c with
              place := some [], placeUser := some c.readyDomainsCount, placeOwner := none } :
            Child).nextDscrptr domain = c.nextDscrptr domain := rfl
        simp [registerNewEmail, hdomain, hfind, registerDomain, hroom, bind, Except.bind,
          initMailDomainConnSettings, setDscrptr, hd', hd]

/-- What is tried in slot `j`: nothing comes of it and the session is done, or
a socket is opened, and the state is one step further. -/
theorem Reaches.tried (h : Reaches connected domain c j attempt d) (hconnects : c.Connects j) :
    (connected = none ∧ d.state = .done) ∨
      ∃ fd : ℕ, connected = some fd ∧ clientFsmStep (c.dscrptrs j).state .ok = .ok d.state ∧
        d.state ≠ .done := by
  have hcases : ∀ {d₀ d' : Dscrptr}, d₀.state = (c.dscrptrs j).state →
      d₀.initConn connected = .ok d' → (connected = none ∧ d'.state = .done) ∨
        ∃ fd : ℕ, connected = some fd ∧ clientFsmStep (c.dscrptrs j).state .ok = .ok d'.state ∧
          d'.state ≠ .done := by
    intro d₀ d' hst hd
    rcases Dscrptr.initConn_cases hd with ⟨hnone, hdone, -⟩ | ⟨fd, hfd, hstep, hdone, -, -⟩
    · exact .inl ⟨hnone, hdone⟩
    · exact .inr ⟨fd, hfd, hst ▸ hstep, hdone⟩
  cases h with
  | fresh _ hd =>
      have hst : (c.nextDscrptr domain).state = (c.dscrptrs c.readyDomainsCount).state := rfl
      have htried := hcases hst hd
      exact htried
  | reopened _ _ _ hd => exact hcases rfl hd
  | busy hj _ hbusy => exact absurd (hconnects hj) hbusy

theorem Reaches.untried (h : Reaches connected domain c j attempt d) (hbusy : ¬c.Connects j) :
    d = c.dscrptrs j := by
  cases h with
  | fresh => exact absurd (fun hj => absurd hj (lt_irrefl _)) hbusy
  | reopened _ _ hidle => exact absurd (fun _ => hidle) hbusy
  | busy => rfl

/-! ### The greeting -/

/-- A connection that the registration of a letter opens starts at the
greeting, and one that fails ends the session. -/
def StartsAtGreeting (c : Child) : Op → Prop
  | .register path connected => ∀ domain, emailDomain path = .ok domain →
      ∀ c', c.registerNewEmail connected path = .ok c' → c.Connects (c.slotOf domain) →
        (c'.dscrptrs (c.slotOf domain)).state = if connected.isSome then .connect else .done
  | .write _ _ => True
  | .read _ _ => True
  | .select _ _ _ => True

/-- A connection is opened only for a session, or a new slot, at its start. -/
def FromInit (c : Child) : Op → Prop
  | .register path connected => ∀ domain, emailDomain path = .ok domain →
      c.HasSlot domain → c.Connects (c.slotOf domain) → connected.isSome →
        (c.dscrptrs (c.slotOf domain)).state = .init
  | .write _ _ => True
  | .read _ _ => True
  | .select _ _ _ => True

instance (c : Child) : DecidablePred (StartsAtGreeting c)
  | .register path connected =>
      inferInstanceAs (Decidable (∀ domain, emailDomain path = .ok domain →
        ∀ c', c.registerNewEmail connected path = .ok c' → _ → _))
  | .write _ _ => inferInstanceAs (Decidable True)
  | .read _ _ => inferInstanceAs (Decidable True)
  | .select _ _ _ => inferInstanceAs (Decidable True)

theorem Filed.startsAtGreeting_iff (hc : c.Filed) (op : Op) :
    c.StartsAtGreeting op ↔ c.FromInit op := by
  cases op with
  | write | read | select => exact Iff.rfl
  | register path connected =>
      refine forall_congr' fun domain => forall_congr' fun hdomain => ?_
      have hslot : (∃ c', c.registerNewEmail connected path = .ok c') ↔ c.HasSlot domain :=
        exists_registerNewEmail_iff hdomain
      rw [← hslot]
      have hstate : ∀ c', c.registerNewEmail connected path = .ok c' →
          c.Connects (c.slotOf domain) →
            ((c'.dscrptrs (c.slotOf domain)).state =
                (if connected.isSome then .connect else .done) ↔
              (connected.isSome → (c.dscrptrs (c.slotOf domain)).state = .init)) := by
        intro c' hok hconnects
        obtain ⟨domain', j, attempt, d, hdomain', hreach, hreg⟩ := registerNewEmail_ok hok
        obtain rfl : domain = domain' := Except.ok.inj (hdomain.symm.trans hdomain')
        obtain rfl := hreach.slotOf hc
        rw [hreg.slot, Dscrptr.enqueue_state]
        rcases hreach.tried hconnects with ⟨rfl, hdone⟩ | ⟨fd, rfl, hstep, -⟩
        · simp [hdone]
        · have hinit : clientFsmStep (c.dscrptrs (c.slotOf domain)).state .ok = .ok .connect ↔
              (c.dscrptrs (c.slotOf domain)).state = .init := clientFsmStep_ok_eq_connect
          rw [hstep] at hinit
          simpa using hinit
      constructor
      · rintro hgreets ⟨c', hok⟩ hconnects
        exact (hstate c' hok hconnects).mp (hgreets c' hok hconnects)
      · intro hinit c' hok hconnects
        exact (hstate c' hok hconnects).mpr (hinit ⟨c', hok⟩ hconnects)

/-- Every connection of a child starts at the greeting exactly if each is opened
from the start of a session. -/
theorem startsAtGreeting_iff_fromInit (conf : Conf) (files : CStr → Option (List Char))
    (memory : ℕ → Dscrptr) (ops : List Op) :
    Along step StartsAtGreeting (bootChild conf files memory) ops ↔
      Along step FromInit (bootChild conf files memory) ops :=
  along_congr (I := Filed) (fun _ op _ hc h => hc.step op h)
    (fun _ op _ hc => hc.startsAtGreeting_iff op) (filed_boot conf files memory)

def sampleReturn : List Op :=
  .register (sampleLetter "a.b") (some 5) :: upToMailFrom 0 ++ upToBody 0 ++
    [.read 0 (sampleReply "250"), .register (sampleLetter "a.b") (some 6)]

/-- The new connection is back at the start, where no greeting was asked for. -/
theorem return_misses_greeting :
    Along step Called sampleChild sampleReturn ∧
      ¬Along step StartsAtGreeting sampleChild sampleReturn := by
  constructor
  · decide +kernel
  · decide +kernel

/-! ### The letter -/

/-- Only numbers that the kernel gives are open. -/
def OpensNatural (c : Child) : Prop := ∀ fd < 0, c.sockets fd = none

theorem openSocket_natural (connected : Option ℕ) (j : ℕ) (h : c.OpensNatural) :
    (c.openSocket connected j).OpensNatural := by
  intro fd hfd
  cases connected with
  | none => exact h fd hfd
  | some new =>
      have hne : fd ≠ new := by omega
      simpa [openSocket, hne] using h fd hfd

theorem OpensNatural.step {op : Op} (h : c.OpensNatural) (hok : c.step op = .ok c') :
    c'.OpensNatural := by
  have hclosed : ∀ number, ∀ fd < 0, Function.update c.sockets number none fd = none := by
    intro number fd hfd
    by_cases heq : fd = number
    · rw [heq, Function.update_self]
    · rw [Function.update_of_ne heq, h fd hfd]
  intro fd hfd
  cases op with
  | register path connected =>
      obtain ⟨domain, j, attempt, d, -, -, hreg⟩ := registerNewEmail_ok hok
      rw [hreg.sockets]
      exact openSocket_natural attempt j h fd hfd
  | write j k =>
      obtain ⟨r, -, hw⟩ := handleWriteSocket_ok hok
      rw [hw.sockets]
      split_ifs
      · exact hclosed _ fd hfd
      · exact h fd hfd
  | read j results =>
      obtain ⟨reply, d, -, -, rfl⟩ := handleReadSocket_ok.mp hok
      simp only [afterReply, record, setDscrptr]
      split_ifs
      · exact hclosed _ fd hfd
      · exact h fd hfd
  | select readReady writeReady exceptReady =>
      cases hok
      exact h fd hfd

/-- The letter is the first of slot `j`, which has an open socket of its own. -/
def Queued (path : CStr) (j : ℕ) (c : Child) : Prop :=
  (c.dscrptrs j).mailsList.head? = some (some path) ∧ c.sockets (c.dscrptrs j).socketFd = some j

instance (path : CStr) (j : ℕ) (c : Child) : Decidable (c.Queued path j) :=
  inferInstanceAs (Decidable (_ ∧ _))

/-- A letter is queued where it can be sent, unless its registration tried to
connect and failed. -/
def KeepsLetter (c : Child) : Op → Prop
  | .register path connected => ∀ domain, emailDomain path = .ok domain →
      ∀ c', c.registerNewEmail connected path = .ok c' →
        ¬(c.Connects (c.slotOf domain) ∧ connected = none) → c'.Queued path (c.slotOf domain)
  | .write _ _ => True
  | .read _ _ => True
  | .select _ _ _ => True

/-- A registration tries to connect, or finds a session that goes on and has its
socket. -/
def FindsSession (c : Child) : Op → Prop
  | .register path _ => ∀ domain, emailDomain path = .ok domain →
      c.Connects (c.slotOf domain) ∨ (c.dscrptrs (c.slotOf domain)).state ≠ .done ∧
        c.sockets (c.dscrptrs (c.slotOf domain)).socketFd = some (c.slotOf domain)
  | .write _ _ => True
  | .read _ _ => True
  | .select _ _ _ => True

instance (c : Child) : DecidablePred (KeepsLetter c)
  | .register path connected =>
      inferInstanceAs (Decidable (∀ domain, emailDomain path = .ok domain →
        ∀ c', c.registerNewEmail connected path = .ok c' → _ → _))
  | .write _ _ => inferInstanceAs (Decidable True)
  | .read _ _ => inferInstanceAs (Decidable True)
  | .select _ _ _ => inferInstanceAs (Decidable True)

/-- A letter that finds a session going on is put in front of its list. -/
theorem Registers.mailsList (hreg : Registers path j attempt d c c') (hdone : d.state ≠ .done) :
    (c'.dscrptrs j).mailsList.head? = some (some path) := by
  rw [hreg.slot, Dscrptr.enqueue_of_ne_done hdone]
  rfl

theorem queued_iff (hc : c.OpensNatural) (hreach : Reaches connected domain c j attempt d)
    (hreg : Registers path j attempt d c c') (htry : ¬(c.Connects j ∧ connected = none)) :
    c'.Queued path j ↔ c.Connects j ∨ (c.dscrptrs j).state ≠ .done ∧
      c.sockets (c.dscrptrs j).socketFd = some j := by
  cases hreach.registered hreg with
  | @opened fd hconnects hconnected hnumber hsockets _ _ =>
      refine iff_of_true ⟨hreg.mailsList ?_, ?_⟩ (.inl hconnects)
      · rcases hreach.tried hconnects with ⟨hnone, -⟩ | ⟨-, -, -, hdone⟩
        · exact absurd ⟨hconnects, hnone⟩ htry
        · exact hdone
      · rw [hnumber, hsockets, Function.update_self]
  | dropped hwhy hnumber _ hsockets _ _ =>
      obtain ⟨hbusy, hdone⟩ := hwhy.resolve_left htry
      refine iff_of_false (fun h => ?_) fun h => ?_
      · -- the number it leaves is no socket
        have hopen := h.2
        rw [hnumber, hsockets, hc (-1) (by omega)] at hopen
        cases hopen
      · exact (h.resolve_left hbusy).1 hdone
  | added hbusy hdone hnumber _ hsockets _ _ =>
      have hhead := hreg.mailsList (by rwa [hreach.untried hbusy])
      rw [Queued, hnumber, hsockets, and_iff_right hhead, or_iff_right hbusy, and_iff_right hdone]

theorem keepsLetter_iff (hfiled : c.Filed) (hc : c.OpensNatural) (op : Op) :
    c.KeepsLetter op ↔ c.FindsSession op := by
  cases op with
  | write | read | select => exact Iff.rfl
  | register path connected =>
      refine forall_congr' fun domain => forall_congr' fun hdomain => ?_
      constructor
      · intro hkeeps
        by_contra hlost
        have hbusy : ¬c.Connects (c.slotOf domain) := fun h => hlost (.inl h)
        have hslot : c.HasSlot domain := by
          by_contra hnone
          refine hbusy fun hj => absurd hj ?_
          have hfind : c.findDomain domain = none := by
            simpa [HasSlot] using fun h => hnone (.inl h)
          rw [slotOf, hfind]
          exact lt_irrefl _
        obtain ⟨c', hok⟩ : ∃ c', c.registerNewEmail connected path = .ok c' :=
          (exists_registerNewEmail_iff hdomain).mpr hslot
        obtain ⟨domain', j, attempt, d, hdomain', hreach, hreg⟩ := registerNewEmail_ok hok
        obtain rfl : domain = domain' := Except.ok.inj (hdomain.symm.trans hdomain')
        obtain rfl := hreach.slotOf hfiled
        have htry : ¬(c.Connects (c.slotOf domain) ∧ connected = none) := fun h => hbusy h.1
        exact hlost ((queued_iff hc hreach hreg htry).mp (hkeeps c' hok htry))
      · intro hfinds c' hok htry
        obtain ⟨domain', j, attempt, d, hdomain', hreach, hreg⟩ := registerNewEmail_ok hok
        obtain rfl : domain = domain' := Except.ok.inj (hdomain.symm.trans hdomain')
        obtain rfl := hreach.slotOf hfiled
        exact (queued_iff hc hreach hreg htry).mpr hfinds

/-- No registration drops its letter, or leaves it to a session without a
socket, exactly if each tries to connect or finds a session that is alive. -/
theorem keepsLetter_iff_findsSession (conf : Conf) (files : CStr → Option (List Char))
    (memory : ℕ → Dscrptr) (ops : List Op) :
    Along step KeepsLetter (bootChild conf files memory) ops ↔
      Along step FindsSession (bootChild conf files memory) ops :=
  along_congr (I := fun c => c.Filed ∧ c.OpensNatural)
    (fun _ op _ hc h => ⟨hc.1.step op h, hc.2.step h⟩)
    (fun _ op _ hc => keepsLetter_iff hc.1 hc.2 op) ⟨filed_boot conf files memory, fun _ _ => rfl⟩

def sampleRefusal : List Op :=
  [.register (sampleLetter "a.b") (some 5), .read 0 (sampleReply "554"),
    .register "m/u/new/1.3.a.b".toList none]

/-- The second letter is in no list, and no connection was tried for it. -/
theorem refusal_drops_letter :
    Along step Called sampleChild sampleRefusal ∧
      ¬Along step KeepsLetter sampleChild sampleRefusal := by
  constructor
  · decide +kernel
  · decide +kernel

end Child

end SmtpProj.Client
