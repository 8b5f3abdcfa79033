import SmtpProj.Client.Frame

/-!
Whose socket a watched number is.

The loop knows a ready socket by its number, and looks the number up among the
descriptors. That finds the right one as long as every watched number is open
and stands in the descriptor it was opened for, and in no other. Three things
can take this away: a failed write closes the socket and leaves the number in
`write_fds`; a connection that is opened for a descriptor, or given up, leaves
its old number behind; and since no close resets `socket_fd`, a number that the
kernel hands out again may still stand in the descriptor of a session that
ended. `KeepsOwners` excludes exactly these.
-/

namespace SmtpProj.Client

open Lib

namespace Child

def watched (c : Child) : Finset ℤ := c.readFds ∪ c.writeFds

/-- Slot `j`, and no other, has the number `fd`. -/
structure Holds (fd : ℤ) (j : ℕ) (c : Child) : Prop where
  ready : j < c.readyDomainsCount
  number : (c.dscrptrs j).socketFd = fd
  only : ∀ i < c.readyDomainsCount, (c.dscrptrs i).socketFd = fd → i = j

/-- Every watched number is an open socket, and the number of the slot it was
opened for alone. -/
def Owned (c : Child) : Prop := ∀ fd ∈ c.watched, ∃ j, c.Holds fd j ∧ c.sockets fd = some j

/-- The search of the loop for the slot of a number: the first that has it, or
the one that was found for the number before. -/
def lookup (fd : ℤ) (last : Option ℕ) (c : Child) : Option ℕ :=
  ((List.range c.readyDomainsCount).find? fun j => (c.dscrptrs j).socketFd = fd).or last

/-- A ready number is handed to the descriptor that opened it. -/
def HandsOver (c : Child) : Prop :=
  ∀ fd ∈ c.watched, ∀ last, ∃ j, c.lookup fd last = some j ∧ c.sockets fd = some j

/-- The calls of the loop: a handler is called for a slot whose number is
watched, and the kernel does not hand out a number that is open. -/
def Called (c : Child) : Op → Prop
  | .register _ connected => ∀ fd : ℕ, connected = some fd → c.sockets fd = none
  | .write j _ => j < c.readyDomainsCount ∧ (c.dscrptrs j).socketFd ∈ c.writeFds
  | .read j _ => j < c.readyDomainsCount ∧ (c.dscrptrs j).socketFd ∈ c.readFds
  | .select _ _ _ => True

@[simp] theorem called_register_iff {c : Child} {path : CStr} {connected : Option ℕ} :
    c.Called (.register path connected) ↔
      connected.any (fun fd => (c.sockets fd).isSome) = false := by
  cases connected <;> simp [Called]

instance (c : Child) : DecidablePred (Called c)
  | .register _ _ => decidable_of_iff' _ called_register_iff
  | .write _ _ => inferInstanceAs (Decidable (_ ∧ _))
  | .read _ _ => inferInstanceAs (Decidable (_ ∧ _))
  | .select _ _ _ => inferInstanceAs (Decidable True)

/-- What is open for a slot was open before another slot got a number, and has
not this number. -/
theorem sockets_of_open {c : Child} {fd number : ℤ} {i j : ℕ} (hij : i ≠ j)
    (h : Function.update c.sockets fd (some j) number = some i) :
    number ≠ fd ∧ c.sockets number = some i := by
  have hne : number ≠ fd := by
    rintro rfl
    rw [Function.update_self] at h
    exact hij (Option.some.inj h).symm
  rw [Function.update_of_ne hne] at h
  exact ⟨hne, h⟩

def slotOf (domain : CStr) (c : Child) : ℕ := (c.findDomain domain).getD c.readyDomainsCount

def Connects (j : ℕ) (c : Child) : Prop :=
  j < c.readyDomainsCount → count (c.dscrptrs j).mailsList = 0 ∨ (c.dscrptrs j).state = .init

instance (j : ℕ) (c : Child) : Decidable (c.Connects j) := inferInstanceAs (Decidable (_ → _))

/-- What is registered in slot `j` takes a number that no other slot has, and
does not leave a watched number behind. -/
def Replaces (connected : Option ℕ) (j : ℕ) (c : Child) : Prop :=
  if c.Connects j then
    match connected with
    | some fd =>
        (∀ i < c.readyDomainsCount, i ≠ j → (c.dscrptrs i).socketFd ≠ fd) ∧
          (j < c.readyDomainsCount → (c.dscrptrs j).socketFd ∉ c.watched)
    | none => j < c.readyDomainsCount → (c.dscrptrs j).socketFd ∉ c.writeFds
  else (c.dscrptrs j).state = .done → (c.dscrptrs j).socketFd ∉ c.writeFds

/-- The last `write` of a call is not the one that fails, and a registration
replaces no watched number and takes no other slot's. -/
def KeepsOwners (c : Child) : Op → Prop
  | .register path connected => ∀ domain, emailDomain path = .ok domain →
      c.Replaces connected (c.slotOf domain)
  | .write j k => ∀ r,
      (c.dscrptrs j).sendMsgToServer k.now c.conf.hostName c.files (c.placeAt k) = .ok r →
        r.early = none → r.data ≠ [] → k.writes (r.data.length - 1) ≠ none
  | .read _ _ => True
  | .select _ _ _ => True

variable {c c' : Child} {fd : ℤ} {j : ℕ}

/-! ### The search -/

theorem Holds.lookup (h : c.Holds fd j) (last : Option ℕ) : c.lookup fd last = some j := by
  have hfind : ((List.range c.readyDomainsCount).find? fun j => (c.dscrptrs j).socketFd = fd) =
      some j := by
    refine List.find?_range_eq_some.mpr ⟨by simp [h.number], by simp [h.ready], fun i hi => ?_⟩
    simp only [Bool.not_eq_true', decide_eq_false_iff_not]
    exact fun hnumber => absurd (h.only i (hi.trans h.ready) hnumber) hi.ne
  rw [Child.lookup, hfind, Option.some_or]

theorem Owned.handsOver (h : c.Owned) : c.HandsOver := by
  intro fd hfd last
  obtain ⟨j, hj, hsocket⟩ := h fd hfd
  exact ⟨j, hj.lookup last, hsocket⟩

/-! ### What does not matter -/

structure SameNumbers (c c' : Child) : Prop where
  ready : c'.readyDomainsCount = c.readyDomainsCount
  numbers : ∀ i, (c'.dscrptrs i).socketFd = (c.dscrptrs i).socketFd

theorem Holds.of_same (h : c.Holds fd j) (hsame : SameNumbers c c') : c'.Holds fd j := by
  refine ⟨hsame.ready ▸ h.ready, (hsame.numbers j).trans h.number, fun i hi hnumber => ?_⟩
  rw [hsame.numbers] at hnumber
  exact h.only i (hsame.ready ▸ hi) hnumber

theorem Owned.of_same (h : c.Owned) (hsame : SameNumbers c c') (hwatched : c'.watched ⊆ c.watched)
    (hsockets : ∀ fd ∈ c'.watched, c'.sockets fd = c.sockets fd) : c'.Owned := by
  intro fd hfd
  obtain ⟨j, hj, hsocket⟩ := h fd (hwatched hfd)
  exact ⟨j, hj.of_same hsame, (hsockets fd hfd).trans hsocket⟩

/-! ### Registering -/

/-- The ends of a registration in slot `j`: a connection is opened, the letter
is dropped with the number of the slot, or it is added to a session that goes
on. -/
inductive Registered (connected : Option ℕ) (j : ℕ) (c c' : Child) : Prop
  | opened {fd : ℕ} (hconnects : c.Connects j) (hconnected : connected = some fd)
      (number : (c'.dscrptrs j).socketFd = fd)
      (sockets : c'.sockets = Function.update c.sockets fd (some j))
      (readFds : c'.readFds = insert (fd : ℤ) c.readFds)
      (log : c'.log = c.log ++ [.connected j])
  | dropped (hwhy : (c.Connects j ∧ connected = none) ∨
        (¬c.Connects j ∧ (c.dscrptrs j).state = .done))
      (number : (c'.dscrptrs j).socketFd = -1) (state : (c'.dscrptrs j).state = .done)
      (sockets : c'.sockets = c.sockets)
      (readFds : c'.readFds = c.readFds.erase (c.dscrptrs j).socketFd)
      (log : c'.log = c.log)
  | added (hbusy : ¬c.Connects j) (hdone : (c.dscrptrs j).state ≠ .done)
      (number : (c'.dscrptrs j).socketFd = (c.dscrptrs j).socketFd)
      (state : (c'.dscrptrs j).state = (c.dscrptrs j).state)
      (sockets : c'.sockets = c.sockets) (readFds : c'.readFds = c.readFds)
      (log : c'.log = c.log)

theorem Reaches.registered {connected attempt : Option ℕ} {domain path : CStr} {d : Dscrptr}
    (hreach : Reaches connected domain c j attempt d) (hreg : Registers path j attempt d c c') :
    Registered connected j c c' := by
  have hslot : c'.dscrptrs j = d.enqueue path := hreg.slot
  -- a connection is tried, from the state and the number that the slot has
  have htried : c.Connects j → attempt = connected →
      ((connected = none ∧ d.state = .done ∧ d.socketFd = (c.dscrptrs j).socketFd) ∨
        ∃ fd : ℕ, connected = some fd ∧ clientFsmStep (c.dscrptrs j).state .ok = .ok d.state ∧
          d.state ≠ .done ∧ d.socketFd = fd ∧ d.lastAttemptTime = 0) →
      Registered connected j c c' := by
    rintro hconnects rfl (⟨rfl, hdone, hfd⟩ | ⟨fd, rfl, -, hdone, hfd, -⟩)
    · refine .dropped (.inl ⟨hconnects, rfl⟩) ?_ ?_ hreg.sockets ?_ hreg.log
      · simp [hslot, Dscrptr.enqueue, hdone]
      · rw [hslot, (Dscrptr.enqueue_of_done path hdone).1]
      · rw [hreg.readFds, if_pos hdone, hfd]
        rfl
    · refine .opened hconnects rfl ?_ hreg.sockets ?_ hreg.log
      · rw [hslot, Dscrptr.enqueue_of_ne_done hdone, hfd]
      · rw [hreg.readFds, if_neg hdone]
        rfl
  cases hreach with
  | fresh hnew hd =>
      have hcases := Dscrptr.initConn_cases hd
      exact htried (fun hj => absurd hj (lt_irrefl _)) rfl hcases
  | reopened hj hdomain hidle hd => exact htried (fun _ => hidle) rfl (Dscrptr.initConn_cases hd)
  | busy hj hdomain hbusy =>
      have hconnects : ¬c.Connects j := fun h => hbusy (h hj)
      by_cases hdone : (c.dscrptrs j).state = .done
      · refine .dropped (.inr ⟨hconnects, hdone⟩) ?_ ?_ hreg.sockets ?_ hreg.log
        · simp [hslot, Dscrptr.enqueue, hdone]
        · rw [hslot, (Dscrptr.enqueue_of_done path hdone).1]
        · rw [hreg.readFds, if_pos hdone]
          rfl
      · refine .added hconnects hdone ?_ ?_ hreg.sockets ?_ hreg.log
        · rw [hslot, Dscrptr.enqueue_of_ne_done hdone]
        · rw [hslot, Dscrptr.enqueue_of_ne_done hdone]
        · rw [hreg.readFds, if_neg hdone]
          rfl

theorem slotOf_of_domain {domain : CStr} (hfiled : c.Filed) (hj : j < c.readyDomainsCount)
    (hdomain : (c.dscrptrs j).domain = domain) : c.slotOf domain = j := by
  rcases findDomain_cases domain c with ⟨-, hnew⟩ | ⟨i, hi, hsome, hi'⟩
  · exact absurd hdomain (hnew j hj)
  · rw [slotOf, hsome, Option.getD_some]
    exact hfiled.distinct i hi j hj (hi'.trans hdomain.symm)

theorem Reaches.slotOf {connected attempt : Option ℕ} {domain : CStr} {d : Dscrptr}
    (hfiled : c.Filed) (h : Reaches connected domain c j attempt d) : c.slotOf domain = j := by
  cases h with
  | fresh hnew =>
      rcases findDomain_cases domain c with ⟨hnone, -⟩ | ⟨i, hi, -, hdomain⟩
      · rw [Child.slotOf, hnone, Option.getD_none]
      · exact absurd hdomain (hnew i hi)
  | reopened hj hdomain | busy hj hdomain => exact slotOf_of_domain hfiled hj hdomain

theorem Registers.holds {path : CStr} {attempt : Option ℕ} {d : Dscrptr} {i : ℕ}
    (hreg : Registers path j attempt d c c') (hj : j ≤ c.readyDomainsCount) (h : c.Holds fd i)
    (hij : i ≠ j) (hfd : (c'.dscrptrs j).socketFd ≠ fd) : c'.Holds fd i := by
  refine ⟨hreg.ready_old h.ready, by rw [hreg.other hij]; exact h.number, fun i' hi' hnumber => ?_⟩
  have hij' : i' ≠ j := by
    rintro rfl
    exact hfd hnumber
  rw [hreg.other hij'] at hnumber
  exact h.only i' (hreg.ready_of_ne hj hi' hij') hnumber

theorem Registers.holds_new {path : CStr} {attempt : Option ℕ} {d : Dscrptr}
    (hreg : Registers path j attempt d c c') (hj : j ≤ c.readyDomainsCount)
    (hfd : (c'.dscrptrs j).socketFd = fd)
    (hnew : ∀ i < c.readyDomainsCount, i ≠ j → (c.dscrptrs i).socketFd ≠ fd) : c'.Holds fd j := by
  refine ⟨hreg.ready_self, hfd, fun i hi hnumber => ?_⟩
  by_contra hij
  rw [hreg.other hij] at hnumber
  exact hnew i (hreg.ready_of_ne hj hi hij) hij hnumber

@[simp] theorem mem_watched : fd ∈ c.watched ↔ fd ∈ c.readFds ∨ fd ∈ c.writeFds := Finset.mem_union

theorem ready_of_not_connects (h : ¬c.Connects j) : j < c.readyDomainsCount := by
  by_contra hready
  exact h fun hj => absurd hj hready

/-- A watched number of slot `j` is a socket that was opened for it. -/
theorem Owned.self (h : c.Owned) (hready : j < c.readyDomainsCount)
    (hmem : (c.dscrptrs j).socketFd ∈ c.watched) : c.sockets (c.dscrptrs j).socketFd = some j := by
  obtain ⟨o, ho, hsocket⟩ := h _ hmem
  exact hsocket.trans (congrArg some (ho.only j hready rfl).symm)

/-- A connection that is opened leaves every watched number with its slot exactly
if no other slot has the new number and the old one is not watched. -/
theorem Owned.opened_iff {path : CStr} {attempt : Option ℕ} {d : Dscrptr} {fd : ℕ} (h : c.Owned)
    (hreg : Registers path j attempt d c c') (hj : j ≤ c.readyDomainsCount)
    (hfresh : c.sockets fd = none) (hnumber : (c'.dscrptrs j).socketFd = fd)
    (hsockets : c'.sockets = Function.update c.sockets fd (some j))
    (hreads : c'.readFds = insert (fd : ℤ) c.readFds) :
    c'.Owned ↔ (∀ i < c.readyDomainsCount, i ≠ j → (c.dscrptrs i).socketFd ≠ fd) ∧
      (j < c.readyDomainsCount → (c.dscrptrs j).socketFd ∉ c.watched) := by
  constructor
  · intro h'
    refine ⟨fun i hi hij hi' => ?_, fun hready hmem => ?_⟩
    · obtain ⟨o, ho, -⟩ := h' fd (mem_watched.mpr (.inl (by simp [hreads])))
      have hjo := ho.only j hreg.ready_self hnumber
      have hio := ho.only i (hreg.ready_old hi) (by rw [hreg.other hij, hi'])
      exact hij (hio.trans hjo.symm)
    · have hsocket := h.self hready hmem
      have hne : (c.dscrptrs j).socketFd ≠ fd := by
        intro heq
        rw [heq, hfresh] at hsocket
        cases hsocket
      obtain ⟨o, ho, hsocket'⟩ := h' (c.dscrptrs j).socketFd <| mem_watched.mpr <|
        (mem_watched.mp hmem).imp (fun hr => by rw [hreads]; exact Finset.mem_insert_of_mem hr)
          fun hw => by rwa [hreg.writeFds]
      rw [hsockets, Function.update_of_ne hne, hsocket] at hsocket'
      obtain rfl : j = o := Option.some.inj hsocket'
      exact hne (ho.number.symm.trans hnumber)
  · rintro ⟨hnew, hold⟩ x hx
    by_cases hxfd : x = fd
    · subst hxfd
      exact ⟨j, hreg.holds_new hj hnumber hnew, by simp [hsockets]⟩
    · have hxold : x ∈ c.watched := by
        rw [mem_watched, hreads, hreg.writeFds, Finset.mem_insert, or_iff_right hxfd] at hx
        exact mem_watched.mpr hx
      obtain ⟨i, hi, hsocket⟩ := h x hxold
      have hij : i ≠ j := by
        rintro rfl
        exact hold hi.ready (hi.number ▸ hxold)
      refine ⟨i, hreg.holds hj hi hij (by rw [hnumber]; exact Ne.symm hxfd), ?_⟩
      rw [hsockets, Function.update_of_ne hxfd, hsocket]

/-- A letter that is dropped takes the number of the slot with it, and only out
of `read_fds`. -/
theorem Owned.dropped_iff {path : CStr} {attempt : Option ℕ} {d : Dscrptr} (h : c.Owned)
    (hnatural : ∀ fd ∈ c.watched, 0 ≤ fd) (hreg : Registers path j attempt d c c')
    (hj : j ≤ c.readyDomainsCount) (hnumber : (c'.dscrptrs j).socketFd = -1)
    (hsockets : c'.sockets = c.sockets)
    (hreads : c'.readFds = c.readFds.erase (c.dscrptrs j).socketFd) :
    c'.Owned ↔ (j < c.readyDomainsCount → (c.dscrptrs j).socketFd ∉ c.writeFds) := by
  constructor
  · intro h' hready hmem
    have hwatched : (c.dscrptrs j).socketFd ∈ c.watched := mem_watched.mpr (.inr hmem)
    obtain ⟨o, ho, hsocket⟩ := h' _ (mem_watched.mpr (.inr (by rwa [hreg.writeFds])))
    rw [hsockets, h.self hready hwatched] at hsocket
    obtain rfl : j = o := Option.some.inj hsocket
    have hnegative : (c.dscrptrs j).socketFd = -1 := ho.number.symm.trans hnumber
    have := hnatural _ hwatched
    omega
  · intro hold x hx
    rw [mem_watched, hreads, hreg.writeFds, Finset.mem_erase] at hx
    have hxold : x ∈ c.watched := mem_watched.mpr (hx.imp_left And.right)
    obtain ⟨i, hi, hsocket⟩ := h x hxold
    have hij : i ≠ j := by
      rintro rfl
      rcases hx with ⟨hne, -⟩ | hw
      · exact hne hi.number.symm
      · exact hold hi.ready (hi.number ▸ hw)
    refine ⟨i, hreg.holds hj hi hij ?_, hsockets ▸ hsocket⟩
    have := hnatural x hxold
    rw [hnumber]
    omega

theorem Registers.sameNumbers {path : CStr} {attempt : Option ℕ} {d : Dscrptr}
    (hreg : Registers path j attempt d c c') (hready : j < c.readyDomainsCount)
    (hnumber : (c'.dscrptrs j).socketFd = (c.dscrptrs j).socketFd) : SameNumbers c c' := by
  refine ⟨hreg.ready.trans (max_eq_left hready), fun i => ?_⟩
  by_cases hij : i = j
  · rw [hij, hnumber]
  · rw [hreg.other hij]

theorem Owned.register_iff {path : CStr} {connected : Option ℕ} (h : c.Owned) (hfiled : c.Filed)
    (hnatural : ∀ fd ∈ c.watched, 0 ≤ fd) (hcalled : c.Called (.register path connected))
    (hstep : c.registerNewEmail connected path = .ok c') :
    c'.Owned ↔ c.KeepsOwners (.register path connected) := by
  obtain ⟨domain, j, attempt, d, hdomain, hreach, hreg⟩ := registerNewEmail_ok hstep
  have hkeeps : c.KeepsOwners (.register path connected) ↔ c.Replaces connected j := by
    rw [← hreach.slotOf hfiled]
    constructor
    · exact fun hkeeps => hkeeps domain hdomain
    · intro hreplaces domain' hdomain'
      obtain rfl : domain = domain' := Except.ok.inj (hdomain.symm.trans hdomain')
      exact hreplaces
  rw [hkeeps]
  cases hreach.registered hreg with
  | opened hconnects hconnected hnumber hsockets hreads _ =>
      rw [h.opened_iff hreg hreach.le (hcalled _ hconnected) hnumber hsockets hreads]
      simp [Replaces, hconnects, hconnected]
  | dropped hwhy hnumber _ hsockets hreads _ =>
      rw [h.dropped_iff hnatural hreg hreach.le hnumber hsockets hreads]
      rcases hwhy with ⟨hconnects, rfl⟩ | ⟨hconnects, hdone⟩
      · simp [Replaces, hconnects]
      · simp [Replaces, hconnects, hdone, ready_of_not_connects hconnects]
  | added hbusy hdone hnumber _ hsockets hreads _ =>
      have hsame : SameNumbers c c' := hreg.sameNumbers (ready_of_not_connects hbusy) hnumber
      refine iff_of_true (h.of_same hsame ?_ fun _ _ => by rw [hsockets]) ?_
      · rw [watched, watched, hreads, hreg.writeFds]
      · simp [Replaces, hbusy, hdone]

/-! ### Writing and reading -/

theorem sendAll_cons_fst {owner : Option ℕ} {writes : ℕ → Option ℕ} {n : ℕ} {text : CStr}
    {rest : List CStr} (h : rest ≠ []) :
    (sendAll owner writes n (text :: rest)).1 = (sendAll owner writes (n + 1) rest).1 := by
  simp [sendAll, h]

/-- On an open socket the last `write` decides. -/
theorem sendAll_failed_iff {o n : ℕ} {writes : ℕ → Option ℕ} {data : List CStr} :
    (sendAll (some o) writes n data).1 = .failed ↔
      data ≠ [] ∧ writes (n + (data.length - 1)) = none := by
  induction data generalizing n with
  | nil => simp [sendAll]
  | cons text rest ih =>
      cases rest with
      | nil => cases hn : writes n <;> simp [sendAll, sendData, hn]
      | cons text' rest =>
          have hlen : n + 1 + ((text' :: rest).length - 1) =
              n + ((text :: text' :: rest).length - 1) := by
            simp only [List.length_cons]
            omega
          rw [sendAll_cons_fst (List.cons_ne_nil text' rest), ih, hlen]
          simp

theorem failed_iff {k : WriteKernel} {r : Sending} {o : ℕ}
    (hr : (c.dscrptrs j).sendMsgToServer k.now c.conf.hostName c.files (c.placeAt k) = .ok r)
    (hsocket : c.sockets r.dscrptr.socketFd = some o) :
    (c.transmit k r).1 = .failed ↔
      r.early = none ∧ r.data ≠ [] ∧ k.writes (r.data.length - 1) = none := by
  have hearly := (Dscrptr.sendMsgToServer_ok hr).2
  rcases Dscrptr.retry_snd k.now (c.dscrptrs j) with hnone | hwaiting
  · rw [hnone] at hearly
    simp [transmit, hearly, hsocket, sendAll_failed_iff]
  · rw [hwaiting] at hearly
    simp [transmit, hearly]

theorem sameNumbers_of_write {k : WriteKernel} (h : c.handleWriteSocket k j = .ok c') :
    SameNumbers c c' := by
  obtain ⟨r, hr, hw⟩ := handleWriteSocket_ok h
  refine ⟨hw.ready, fun i => ?_⟩
  rw [hw.dscrptrs]
  by_cases hij : i = j
  · rw [hij, Function.update_self, (Dscrptr.sendMsgToServer_ok hr).1.socketFd]
  · rw [Function.update_of_ne hij]

theorem sameNumbers_of_read {results : List RecvResult}
    (h : c.handleReadSocket results j = .ok c') :
    SameNumbers c c' := by
  obtain ⟨reply, d, -, hd, rfl⟩ := handleReadSocket_ok.mp h
  refine ⟨rfl, fun i => ?_⟩
  by_cases hij : i = j
  · simp [hij, afterReply, record, setDscrptr, (Dscrptr.advance_kept hd).2.1]
  · simp [afterReply, record, setDscrptr, hij]

/-- A write watches no number but the slot's own. -/
theorem watched_of_write {k : WriteKernel} (hfd : (c.dscrptrs j).socketFd ∈ c.watched)
    (h : c.handleWriteSocket k j = .ok c') : c'.watched ⊆ c.watched := by
  obtain ⟨r, hr, hw⟩ := handleWriteSocket_ok h
  have hnumber := (Dscrptr.sendMsgToServer_ok hr).1.socketFd
  intro x hx
  rcases eq_or_ne x (c.dscrptrs j).socketFd with rfl | hne
  · exact hfd
  · rw [mem_watched, hw.readFds, writeFds_of_write hr h, hnumber] at hx
    refine mem_watched.mpr (hx.imp (fun hx => ?_) fun hx => ?_)
    · split_ifs at hx
      · exact (Finset.mem_insert.mp hx).resolve_left hne
      · exact hx
    · split at hx <;> simpa [hne] using hx

theorem Owned.write_iff {k : WriteKernel} (h : c.Owned) (hcalled : c.Called (.write j k))
    (hstep : c.handleWriteSocket k j = .ok c') : c'.Owned ↔ c.KeepsOwners (.write j k) := by
  obtain ⟨hready, hfd⟩ := hcalled
  have hwatched : (c.dscrptrs j).socketFd ∈ c.watched := mem_watched.mpr (.inr hfd)
  obtain ⟨o, ho, hsocket⟩ := h _ hwatched
  obtain ⟨r, hr, hw⟩ := handleWriteSocket_ok hstep
  have hnumber := (Dscrptr.sendMsgToServer_ok hr).1.socketFd
  have hkeeps : c.KeepsOwners (.write j k) ↔ (c.transmit k r).1 ≠ .failed := by
    rw [Ne, failed_iff hr (hnumber ▸ hsocket)]
    constructor
    · rintro hkeeps ⟨hearly, hdata, hwrite⟩
      exact hkeeps r hr hearly hdata hwrite
    · intro hne r' hr' hearly hdata hwrite
      cases hr.symm.trans hr'
      exact hne ⟨hearly, hdata, hwrite⟩
  rw [hkeeps]
  constructor
  · intro h' hfailed
    obtain ⟨o', -, hsocket'⟩ := h' (c.dscrptrs j).socketFd <| mem_watched.mpr <| .inr <| by
      rw [writeFds_of_write hr hstep, hfailed]
      exact hfd
    rw [hw.sockets, if_pos hfailed, hnumber, Function.update_self] at hsocket'
    cases hsocket'
  · intro hne
    refine h.of_same (sameNumbers_of_write hstep) (watched_of_write hwatched hstep) fun x _ => ?_
    rw [hw.sockets, if_neg hne]

/-- A reply unwatches its number, or moves it to `write_fds`. -/
theorem watched_of_read {results : List RecvResult} (hfd : (c.dscrptrs j).socketFd ∈ c.watched)
    (h : c.handleReadSocket results j = .ok c') : c'.watched ⊆ c.watched := by
  obtain ⟨reply, d, -, hd, rfl⟩ := handleReadSocket_ok.mp h
  have hnumber := (Dscrptr.advance_kept hd).2.1
  intro x hx
  rcases eq_or_ne x (c.dscrptrs j).socketFd with rfl | hne
  · exact hfd
  · rw [mem_watched] at hx ⊢
    simp only [afterReply, record, setDscrptr, hnumber] at hx
    refine hx.imp Finset.mem_of_mem_erase fun hx => ?_
    split_ifs at hx
    · exact Finset.mem_of_mem_erase hx
    · exact (Finset.mem_insert.mp hx).resolve_left hne

theorem Owned.read {results : List RecvResult} (h : c.Owned) (hcalled : c.Called (.read j results))
    (hstep : c.handleReadSocket results j = .ok c') : c'.Owned := by
  obtain ⟨hready, hfd⟩ := hcalled
  have hwatched : (c.dscrptrs j).socketFd ∈ c.watched := mem_watched.mpr (.inl hfd)
  refine h.of_same (sameNumbers_of_read hstep) (watched_of_read hwatched hstep) fun x hx => ?_
  obtain ⟨reply, d, -, hd, rfl⟩ := handleReadSocket_ok.mp hstep
  have hnumber := (Dscrptr.advance_kept hd).2.1
  simp only [afterReply, record, setDscrptr, hnumber] at hx ⊢
  split_ifs with hst
  · have hne : x ≠ (c.dscrptrs j).socketFd := by
      rintro rfl
      simp [watched, hst] at hx
    rw [Function.update_of_ne hne]
  · rfl

/-! ### The run -/

/-- The watched numbers of a child are numbers that the kernel gave. -/
structure Watching (c : Child) : Prop where
  filed : c.Filed
  natural : ∀ fd ∈ c.watched, 0 ≤ fd

theorem watching_boot (conf : Conf) (files : CStr → Option (List Char)) (memory : ℕ → Dscrptr) :
    (bootChild conf files memory).Watching :=
  ⟨filed_boot conf files memory, by simp [watched, bootChild]⟩

theorem Watching.step {op : Op} (h : c.Watching) (hcalled : c.Called op)
    (hstep : c.step op = .ok c') : c'.Watching := by
  refine ⟨h.filed.step op hstep, fun fd hfd => ?_⟩
  cases op with
  | register path connected =>
      obtain ⟨domain, j, attempt, d, -, hreach, hreg⟩ := registerNewEmail_ok hstep
      rw [mem_watched, hreg.writeFds] at hfd
      rcases hfd with hfd | hfd
      · cases hreach.registered hreg with
        | opened _ _ _ _ hreads =>
            rcases Finset.mem_insert.mp (hreads ▸ hfd) with rfl | hfd
            · exact Int.natCast_nonneg _
            · exact h.natural fd (mem_watched.mpr (.inl hfd))
        | dropped _ _ _ _ hreads =>
            exact h.natural fd (mem_watched.mpr (.inl (Finset.mem_of_mem_erase (hreads ▸ hfd))))
        | added _ _ _ _ _ hreads => exact h.natural fd (mem_watched.mpr (.inl (hreads ▸ hfd)))
      · exact h.natural fd (mem_watched.mpr (.inr hfd))
  | write j k =>
      exact h.natural fd (watched_of_write (mem_watched.mpr (.inr hcalled.2)) hstep hfd)
  | read j results =>
      exact h.natural fd (watched_of_read (mem_watched.mpr (.inl hcalled.2)) hstep hfd)
  | select readReady writeReady exceptReady =>
      cases hstep
      refine h.natural fd (mem_watched.mpr ((mem_watched.mp hfd).imp ?_ ?_)) <;>
        exact Finset.mem_of_mem_inter_left

/-- Socket ownership. Along the calls of the loop, every watched number is open
and its owner's alone, and is handed to the owner, exactly if every call keeps
it so. -/
theorem owned_iff {conf : Conf} {files : CStr → Option (List Char)} {memory : ℕ → Dscrptr}
    {ops : List Op} (hcalled : Guarded step Called (bootChild conf files memory) ops) :
    Always step (fun c => c.Owned ∧ c.HandsOver) (bootChild conf files memory) ops ↔
      Guarded step KeepsOwners (bootChild conf files memory) ops := by
  have hboth : ∀ c : Child, c.Owned ∧ c.HandsOver ↔ c.Owned :=
    fun c => ⟨And.left, fun h => ⟨h, h.handsOver⟩⟩
  simp only [hboth]
  refine always_iff_guarded_of (fun c op c' hc _ hop hstep => hc.step hop hstep)
    (fun c op c' hc h hop hstep => ?_) (watching_boot conf files memory) ?_ hcalled
  · cases op with
    | register path connected => exact h.register_iff hc.filed hc.natural hop hstep
    | write j k => exact h.write_iff hop hstep
    | read j results => exact iff_of_true (h.read hop hstep) trivial
    | select readReady writeReady exceptReady =>
        cases hstep
        refine iff_of_true (h.of_same ⟨rfl, fun _ => rfl⟩ (fun fd hfd => ?_) fun _ _ => rfl) trivial
        refine mem_watched.mpr ((mem_watched.mp hfd).imp ?_ ?_) <;>
          exact Finset.mem_of_mem_inter_left
  · simp [Owned, watched, bootChild]

def sampleOpening : List Op :=
  [.register (sampleLetter "a.b") (some 5), .read 0 (sampleReply "220"), .write 0 sampleWrites]

theorem owned_opening :
    Always step (fun c => c.Owned ∧ c.HandsOver) sampleChild sampleOpening := by
  have hcalled : Along step Called sampleChild sampleOpening := by decide +kernel
  refine (owned_iff hcalled.guarded).mpr fun c _ => ⟨fun domain _ => ?_, fun c₁ _ => ?_⟩
  · simp [Replaces, Connects, bootChild]
  · exact ⟨trivial, fun c₂ _ => ⟨fun _ _ _ _ => by simp [sampleWrites], trivial⟩⟩

def sampleReuse : List Op :=
  .register (sampleLetter "a.b") (some 5) :: upToMailFrom 0 ++ upToBody 0 ++
    [.read 0 (sampleReply "250"), .write 0 sampleWrites, .read 0 (sampleReply "221"),
      .register (sampleLetter "c.d") (some 5)]

/-- The loop hands the number to the session that is over. -/
theorem reused_number_misleads : Along step Called sampleChild sampleReuse ∧
    ¬Always step (fun c => c.Owned ∧ c.HandsOver) sampleChild sampleReuse := by
  refine ⟨by decide +kernel, fun halways => ?_⟩
  have hend : (run step sampleChild sampleReuse).map (fun c =>
      (decide (5 ∈ c.watched), c.lookup 5 none, c.sockets 5)) = .ok (true, some 0, some 1) := by
    decide +kernel
  cases hrun : run step sampleChild sampleReuse with
  | error halt =>
      rw [hrun] at hend
      cases hend
  | ok c =>
      rw [hrun] at hend
      obtain ⟨hfd, hend⟩ := Prod.mk.inj (Except.ok.inj hend)
      obtain ⟨hlookup, hsocket⟩ := Prod.mk.inj hend
      obtain ⟨j, hj, hopened⟩ := (halways.last hrun).2 5 (of_decide_eq_true hfd) none
      rw [hlookup] at hj
      rw [hsocket, ← hj] at hopened
      cases hopened

end Child

end SmtpProj.Client
