import SmtpProj.Server.Commands

/-!
What a worker does with one connection is what its link does.

The loops of `conn_update` and the pass of `protocol_update` come to the
descriptors one after the other, and what they do for one of them leaves the
others as they are. So a turn of a worker that completes is a round for every
connection it has, and a run of turns is a run of rounds, which begins with the
greeting in the turn that accepts the connection. What holds of every run of a
link holds of every connection of a worker.
-/

namespace SmtpProj.Server

open Lib

/-- What the worker has at descriptor `i`. -/
structure Shows (i : ℕ) (w : Worker) (l : Link) : Prop where
  slot : w.connections i = .live l.session
  inRead : i ∈ w.activeRead ↔ l.inRead = true
  inWrite : i ∈ w.activeWrite ↔ l.inWrite = true
  bound : i ≤ w.maxFd
  accepted : i ≠ w.listener

structure SameAt (i : ℕ) (w w' : Worker) : Prop where
  slot : w'.connections i = w.connections i
  activeRead : i ∈ w'.activeRead ↔ i ∈ w.activeRead
  activeWrite : i ∈ w'.activeWrite ↔ i ∈ w.activeWrite
  readFds : i ∈ w'.readFds ↔ i ∈ w.readFds
  writeFds : i ∈ w'.writeFds ↔ i ∈ w.writeFds
  listener : w'.listener = w.listener
  maxFd : w.maxFd ≤ w'.maxFd

theorem SameAt.refl (i : ℕ) (w : Worker) : SameAt i w w :=
  ⟨rfl, Iff.rfl, Iff.rfl, Iff.rfl, Iff.rfl, rfl, le_rfl⟩

theorem SameAt.trans {i : ℕ} {w w₁ w' : Worker} (h : SameAt i w w₁) (h' : SameAt i w₁ w') :
    SameAt i w w' where
  slot := h'.slot.trans h.slot
  activeRead := h'.activeRead.trans h.activeRead
  activeWrite := h'.activeWrite.trans h.activeWrite
  readFds := h'.readFds.trans h.readFds
  writeFds := h'.writeFds.trans h.writeFds
  listener := h'.listener.trans h.listener
  maxFd := h.maxFd.trans h'.maxFd

theorem Shows.of_sameAt {i : ℕ} {w w' : Worker} {l : Link} (hl : Shows i w l)
    (h : SameAt i w w') : Shows i w' l where
  slot := h.slot.trans hl.slot
  inRead := h.activeRead.trans hl.inRead
  inWrite := h.activeWrite.trans hl.inWrite
  bound := hl.bound.trans h.maxFd
  accepted := h.listener ▸ hl.accepted

namespace Worker

variable {i j : ℕ} {k : Kernel} {w w' : Worker} {l : Link}

/-! ### The other descriptors -/

theorem sameAt_setSlot (hj : j ≠ i) (slot : Slot) (w : Worker) : SameAt i w (w.setSlot j slot) :=
  ⟨setSlot_other hj.symm slot w, Iff.rfl, Iff.rfl, Iff.rfl, Iff.rfl, rfl, le_rfl⟩

theorem acceptConn_sameAt (h : k.accept ≠ some i) (w : Worker) : SameAt i w (w.acceptConn k) := by
  unfold acceptConn
  split
  next => exact .refl i w
  next fd hfd =>
    have hne : i ≠ fd := fun heq => h (heq ▸ hfd)
    refine ⟨setSlot_other hne _ w, ?_, Iff.rfl, Iff.rfl, Iff.rfl, rfl, le_max_left _ _⟩
    simp [hne]

theorem recvFrom_sameAt {res : RecvResult} (hj : j ≠ i) (h : w.recvFrom res j = .ok w') :
    SameAt i w w' := by
  have hinto : SameAt i w (w.recvInto res j) := by
    cases res with
    | bytes b => exact ⟨rfl, Iff.rfl, Iff.rfl, Iff.rfl, Iff.rfl, rfl, le_rfl⟩
    | closed => exact ⟨rfl, Iff.rfl, Iff.rfl, by simp [recvInto, hj.symm], Iff.rfl, rfl, le_rfl⟩
    | failed => exact .refl i w
  obtain ⟨s, text, -, -, rfl⟩ := recvFrom_ok h
  exact hinto.trans ((sameAt_setSlot hj (.live (s.receive text)) _).trans
    ⟨rfl, Iff.rfl, Iff.rfl, Iff.rfl, Iff.rfl, rfl, le_rfl⟩)

theorem resendTo_sameAt {res : SendResult} (hj : j ≠ i) (h : w.resendTo res j = .ok w') :
    SameAt i w w' := by
  rcases resendTo_ok h with ⟨-, rfl⟩ | ⟨s, -, ⟨-, rfl⟩ | ⟨-, rfl⟩⟩
  · exact .refl i _
  · exact (sameAt_setSlot hj (.live (s.resend res)) w).trans
      ⟨rfl, by simp [setSlot, hj.symm], by simp [setSlot, hj.symm], Iff.rfl, Iff.rfl, rfl, le_rfl⟩
  · exact sameAt_setSlot hj _ w

theorem serveReady_sameAt (hj : j ≠ i) (haccept : j = w.listener → k.accept ≠ some i)
    (h : w.serveReady k j = .ok w') : SameAt i w w' := by
  unfold serveReady at h
  split_ifs at h with hread hl hwrite
  · cases h
    exact acceptConn_sameAt (haccept hl) w
  · exact recvFrom_sameAt hj h
  · exact resendTo_sameAt hj h
  · cases h
    exact .refl i w

theorem closeConn_sameAt (hj : j ≠ i) (w : Worker) : SameAt i w (w.closeConn j) :=
  (sameAt_setSlot hj .freed w).trans
    ⟨rfl, by simp [closeConn, setSlot, hj.symm], by simp [closeConn, setSlot, hj.symm], Iff.rfl,
      Iff.rfl, rfl, le_rfl⟩

theorem sendReply_sameAt (hj : j ≠ i) (h : w.sendReply k j = .ok w') : SameAt i w w' := by
  rcases sendReply_ok h with ⟨-, rfl⟩ | ⟨s, -, hbody⟩
  · exact .refl i _
  have hwait : SameAt i w (if s.sendBuf ≠ [] then w.awaitWrite (k.send j) j else w) := by
    split_ifs
    · cases k.send j with
      | sent n => exact .refl i w
      | failed => exact .refl i w
      | again =>
          exact ⟨rfl, by simp [awaitWrite, hj.symm], by simp [awaitWrite, hj.symm], Iff.rfl,
            Iff.rfl, rfl, le_rfl⟩
    · exact .refl i w
  have hset := hwait.trans (sameAt_setSlot hj (.live (s.flush (k.send j))) _)
  rcases hbody with ⟨-, rfl⟩ | ⟨-, rfl⟩
  · exact hset.trans (closeConn_sameAt hj _)
  · exact hset

theorem updateConn_sameAt {e : Env} (hj : j ≠ i) (h : w.updateConn e j = .ok w') :
    SameAt i w w' := by
  rcases updateConn_cases h with ⟨-, rfl⟩ | ⟨s, s', -, -, rfl⟩
  · exact .refl i _
  · exact sameAt_setSlot hj _ w

theorem run_sameAt {body : Worker → ℕ → Except WorkerStop Worker} {js : List ℕ}
    (hbody : ∀ w, ∀ j ∈ js, ∀ w', body w j = .ok w' → SameAt i w w')
    (h : run body w js = .ok w') : SameAt i w w' :=
  run_invariant (P := SameAt i w) (G := fun _ j => j ∈ js)
    (fun _ j _ hw hj hok => hw.trans (hbody _ j hj _ hok)) (.refl i w)
    (guarded_of_forall fun _ hj _ => hj) h

theorem run_range {body : Worker → ℕ → Except WorkerStop Worker} (hi : i < connSize)
    (h : run body w (List.range connSize) = .ok w') : ∃ before behind w₁ w₂,
      i ∉ before ∧ i ∉ behind ∧ run body w before = .ok w₁ ∧ body w₁ i = .ok w₂ ∧
        run body w₂ behind = .ok w' := by
  obtain ⟨before, behind, hrange, hbefore⟩ :=
    List.eq_append_cons_of_mem (List.mem_range.mpr hi)
  have hnodup : (before ++ i :: behind).Nodup := hrange ▸ List.nodup_range
  have hbehind : i ∉ behind := (List.nodup_cons.mp (List.nodup_append.mp hnodup).2.1).1
  rw [hrange] at h
  obtain ⟨w₁, w₂, h₁, h₂, h₃⟩ := run_around h
  exact ⟨before, behind, w₁, w₂, hbefore, hbehind, h₁, h₂, h₃⟩

/-! ### The descriptor itself -/

/-- `select` reports watched descriptors only, and `accept` does not yield one
that is open. -/
structure ServesAt (i : ℕ) (w : Worker) (k : Kernel) : Prop where
  select : ∀ reads writes, k.select = some (reads, writes) →
    reads ⊆ w.activeRead ∧ writes ⊆ w.activeWrite
  accept : k.accept ≠ some i

instance (i : ℕ) (w : Worker) (k : Kernel) : Decidable (ServesAt i w k) :=
  decidable_of_iff ((∀ ready ∈ k.select, ready.1 ⊆ w.activeRead ∧ ready.2 ⊆ w.activeWrite) ∧
    k.accept ≠ some i) ⟨fun h => ⟨fun _ _ hsel => h.1 _ hsel, h.2⟩,
      fun h => ⟨fun _ hsel => h.select _ _ hsel, h.accept⟩⟩

theorem recvFrom_shows {res : RecvResult} (hl : Shows i w l) (h : w.recvFrom res i = .ok w') :
    ∃ text, Shows i w' { l with session := l.session.receive text } := by
  have hinto : Shows i (w.recvInto res i) l := by
    cases res <;> exact ⟨hl.slot, hl.inRead, hl.inWrite, hl.bound, hl.accepted⟩
  obtain ⟨s, text, hs, -, rfl⟩ := recvFrom_ok h
  cases hs.symm.trans hl.slot
  exact ⟨text, setSlot_same i _ _, hinto.inRead, hinto.inWrite, hinto.bound, hinto.accepted⟩

theorem resendTo_shows {res : SendResult} (hl : Shows i w l) (hin : l.inWrite = true)
    (h : w.resendTo res i = .ok w') : Shows i w' (l.serve (.writable res)) := by
  rcases resendTo_ok h with ⟨hnone, -⟩ | ⟨s, hs, hbody⟩
  · cases hnone.symm.trans hl.slot
  cases hs.symm.trans hl.slot
  simp only [Link.serve, hin, if_true]
  rcases hbody with ⟨⟨n, rfl⟩, rfl⟩ | ⟨hne, rfl⟩
  · exact ⟨setSlot_same i _ _, by simp, by simp, hl.bound, hl.accepted⟩
  · cases res with
    | sent n => exact absurd rfl (hne n)
    | again | failed =>
        exact ⟨setSlot_same i _ _, hl.inRead, by simpa [setSlot, hin] using hl.inWrite, hl.bound,
          hl.accepted⟩

theorem serveReady_shows (hl : Shows i w l) (hread : i ∈ w.readFds → i ∈ w.activeRead)
    (hwrite : i ∈ w.writeFds → i ∈ w.activeWrite) (h : w.serveReady k i = .ok w') :
    ∃ ready, ready ≠ .selectFailed ∧ Shows i w' (l.serve ready) := by
  unfold serveReady at h
  split_ifs at h with hr hlistener hw
  · exact absurd hlistener hl.accepted
  · have hin : l.inRead = true := hl.inRead.mp (hread hr)
    obtain ⟨text, hw'⟩ := recvFrom_shows hl h
    exact ⟨.readable text, by simp, by simpa [Link.serve, hin] using hw'⟩
  · have hin : l.inWrite = true := hl.inWrite.mp (hwrite hw)
    exact ⟨.writable (k.resend i), by simp, resendTo_shows hl hin h⟩
  · cases h
    exact ⟨.idle, by simp, hl⟩

theorem sendReply_shows (hl : Shows i w l) (h : w.sendReply k i = .ok w') :
    (l.session.state = .disconnected ∧ w'.connections i = .freed) ∨
      (l.session.state ≠ .disconnected ∧ Shows i w' (l.flush (k.send i))) := by
  rcases sendReply_ok h with ⟨hnone, -⟩ | ⟨s, hs, hbody⟩
  · cases hnone.symm.trans hl.slot
  cases hs.symm.trans hl.slot
  rcases hbody with ⟨hstate, rfl⟩ | ⟨hstate, rfl⟩
  · exact .inl ⟨hstate, setSlot_same i _ _⟩
  · refine .inr ⟨hstate, ?_⟩
    by_cases hpending : l.session.sendBuf = []
    · simp only [hpending, ne_eq, not_true_eq_false, if_false, Link.flush, false_and]
      exact ⟨setSlot_same i _ _, hl.inRead, hl.inWrite, hl.bound, hl.accepted⟩
    · simp only [hpending, ne_eq, not_false_eq_true, if_true, Link.flush, true_and]
      cases k.send i with
      | sent n => exact ⟨setSlot_same i _ _, hl.inRead, hl.inWrite, hl.bound, hl.accepted⟩
      | failed => exact ⟨setSlot_same i _ _, hl.inRead, hl.inWrite, hl.bound, hl.accepted⟩
      | again =>
          exact ⟨setSlot_same i _ _, by simp [awaitWrite, setSlot], by simp [awaitWrite, setSlot],
            hl.bound, hl.accepted⟩

/-! ### Turns -/

/-- What a loop over the descriptors does at this one, and what it leaves. -/
theorem forFds_at {body : Worker → ℕ → Except WorkerStop Worker}
    (hframe : ∀ w j w', j ≠ i → body w j = .ok w' → SameAt i w w') (hi : i < connSize)
    (hmax : i ≤ w.maxFd) (h : forFds body w = .ok w') :
    ∃ w₁ w₂, SameAt i w w₁ ∧ body w₁ i = .ok w₂ ∧ SameAt i w₂ w' := by
  unfold forFds at h
  obtain ⟨before, behind, w₁, w₂, hbefore, hbehind, h₁, h₂, h₃⟩ := run_range hi h
  have hothers : ∀ js : List ℕ, i ∉ js → ∀ w, ∀ j ∈ js, ∀ w',
      (if j ≤ w.maxFd then body w j else .ok w) = .ok w' → SameAt i w w' := by
    intro js hjs w j hj w' hok
    split at hok
    · exact hframe w j w' (ne_of_mem_of_not_mem hj hjs) hok
    · cases hok
      exact .refl i w
  have hsame := run_sameAt (hothers before hbefore) h₁
  rw [if_pos (hmax.trans hsame.maxFd)] at h₂
  exact ⟨w₁, w₂, hsame, h₂, run_sameAt (hothers behind hbehind) h₃⟩

theorem protocolUpdate_at {e : Env} (hi : i < connSize) (h : w.protocolUpdate e = .ok w') :
    ∃ w₁ w₂, SameAt i w w₁ ∧ w₁.updateConn e i = .ok w₂ ∧ SameAt i w₂ w' := by
  unfold protocolUpdate at h
  obtain ⟨before, behind, w₁, w₂, hbefore, hbehind, h₁, h₂, h₃⟩ := run_range hi h
  have hothers : ∀ js : List ℕ, i ∉ js → ∀ w, ∀ j ∈ js, ∀ w',
      w.updateConn e j = .ok w' → SameAt i w w' :=
    fun js hjs _ j hj _ hok => updateConn_sameAt (ne_of_mem_of_not_mem hj hjs) hok
  exact ⟨w₁, w₂, run_sameAt (hothers before hbefore) h₁, h₂,
    run_sameAt (hothers behind hbehind) h₃⟩

theorem protocolUpdate_shows {e : Env} (hi : i < connSize) (hl : Shows i w l)
    (h : w.protocolUpdate e = .ok w') :
    ∃ s, Server.protocolUpdate e l.session = .ok s ∧ Shows i w' { l with session := s } := by
  obtain ⟨w₁, w₂, hbefore, hbody, hbehind⟩ := protocolUpdate_at hi h
  have hl₁ := hl.of_sameAt hbefore
  obtain ⟨s, hs, rfl⟩ := updateConn_ok hl₁.slot hbody
  have hl₂ : Shows i (w₁.setSlot i (.live s)) { l with session := s } :=
    ⟨setSlot_same i _ _, hl₁.inRead, hl₁.inWrite, hl₁.bound, hl₁.accepted⟩
  exact ⟨s, hs, hl₂.of_sameAt hbehind⟩

/-- A freed connection ends the process. -/
theorem protocolUpdate_of_freed {e : Env} (hi : i < connSize) (hfreed : w.connections i = .freed) :
    w.protocolUpdate e ≠ .ok w' := by
  intro h
  obtain ⟨w₁, w₂, hsame, hbody, -⟩ := protocolUpdate_at hi h
  simp [updateConn, hsame.slot, hfreed] at hbody

/-- The second loop frees a connection that is disconnected, and flushes one
that is not. -/
theorem sendReplies_shows (hi : i < connSize) (hl : Shows i w l)
    (h : forFds (sendReply k) w = .ok w') :
    (l.session.state = .disconnected ∧ w'.connections i = .freed) ∨
      (l.session.state ≠ .disconnected ∧ Shows i w' (l.flush (k.send i))) := by
  obtain ⟨w₁, w₂, hbefore, hbody, hbehind⟩ :=
    forFds_at (fun _ _ _ hj hok => sendReply_sameAt hj hok) hi hl.bound h
  rcases sendReply_shows (hl.of_sameAt hbefore) hbody with ⟨hstate, hfreed⟩ | ⟨hstate, hl₂⟩
  · exact .inl ⟨hstate, hbehind.slot.trans hfreed⟩
  · exact .inr ⟨hstate, hl₂.of_sameAt hbehind⟩

@[simp] theorem serve_state (ready : Ready) (l : Link) :
    (l.serve ready).session.state = l.session.state := by
  unfold Link.serve
  grind [Session.receive, Session.resend]

/-- `conn_update` of the worker is that of the connection. -/
theorem connUpdate_shows (hi : i < connSize) (hl : Shows i w l) (hk : ServesAt i w k) (e : Env)
    (h : w.connUpdate k = .ok w') : ∃ r : Round, r.env = e ∧
      ((l.Closing r ∧ w'.connections i = .freed) ∨
        (¬l.Closing r ∧ Shows i w' (l.connUpdate r))) := by
  unfold connUpdate at h
  cases hselect : k.select with
  | none =>
      rw [hselect] at h
      cases h
      refine ⟨⟨.selectFailed, .again, e⟩, rfl, .inr ⟨fun hclosing => hclosing.2 rfl, ?_⟩⟩
      exact ⟨hl.slot, hl.inRead, hl.inWrite, hl.bound, hl.accepted⟩
  | some ready =>
      obtain ⟨reads, writes⟩ := ready
      simp only [hselect] at h
      obtain ⟨w₂, hserve, hsend⟩ := bind_eq_ok.mp h
      obtain ⟨hreads, hwrites⟩ := hk.select reads writes hselect
      have hl₀ : Shows i { w with readFds := reads, writeFds := writes } l :=
        ⟨hl.slot, hl.inRead, hl.inWrite, hl.bound, hl.accepted⟩
      obtain ⟨w₃, w₄, hbefore, hbody, hbehind⟩ := forFds_at
        (fun _ _ _ hj hok => serveReady_sameAt hj (fun _ => hk.accept) hok) hi hl₀.bound hserve
      have hl₃ := hl₀.of_sameAt hbefore
      have hread : i ∈ w₃.readFds → i ∈ w₃.activeRead := fun hr =>
        hbefore.activeRead.mpr (hreads (hbefore.readFds.mp hr))
      have hwrite : i ∈ w₃.writeFds → i ∈ w₃.activeWrite := fun hw =>
        hbefore.activeWrite.mpr (hwrites (hbefore.writeFds.mp hw))
      obtain ⟨ready, hready, hl₄⟩ := serveReady_shows hl₃ hread hwrite hbody
      refine ⟨⟨ready, k.send i, e⟩, rfl, ?_⟩
      rcases sendReplies_shows hi (hl₄.of_sameAt hbehind) hsend with
        ⟨hstate, hfreed⟩ | ⟨hstate, hl'⟩
      · rw [serve_state] at hstate
        exact .inl ⟨⟨hstate, hready⟩, hfreed⟩
      · rw [serve_state] at hstate
        refine .inr ⟨fun hclosing => hstate hclosing.1, ?_⟩
        rwa [Link.connUpdate, if_neg hready]

def received (i : ℕ) (w : Worker) (k : Kernel) : CStr :=
  match w.connUpdate k with
  | .error _ => []
  | .ok w' =>
      match w'.connections i with
      | .live s => s.recvBuf
      | .none => []
      | .freed => []

theorem received_of_shows (hconn : w.connUpdate k = .ok w') (hl : Shows i w' l) :
    w.received i k = l.session.recvBuf := by
  simp [received, hconn, hl.slot]

/-- A turn of the worker is a round of the connection. -/
theorem turn_shows {k : Kernel × Env} (hi : i < connSize) (hl : Shows i w l)
    (hk : ServesAt i w k.1) (h : w.turn k = .ok w') :
    ∃ r l', r.env = k.2 ∧ l.round r = .ok l' ∧ w.received i k.1 = l.received r ∧ Shows i w' l' := by
  obtain ⟨w₁, hconn, hupdate⟩ := bind_eq_ok.mp h
  obtain ⟨r, henv, hr⟩ := connUpdate_shows hi hl hk k.2 hconn
  rcases hr with ⟨-, hfreed⟩ | ⟨hclosing, hl₁⟩
  · exact absurd hupdate (protocolUpdate_of_freed hi hfreed)
  · obtain ⟨s, hs, hl'⟩ := protocolUpdate_shows hi hl₁ hupdate
    refine ⟨r, { l.connUpdate r with session := s }, henv, ?_, received_of_shows hconn hl₁, hl'⟩
    rw [Link.round_of_not_closing hclosing, Link.protocolUpdate, henv, hs]

/-! ### The turn of the greeting -/

/-- The first loop passes over a descriptor that is not ready. -/
theorem serveOthers_sameAt {js : List ℕ} (hidle : i ∉ w.readFds ∧ i ∉ w.writeFds)
    (hjs : w.listener ∉ js)
    (h : run (fun w j => if j ≤ w.maxFd then w.serveReady k j else .ok w) w js = .ok w') :
    SameAt i w w' := by
  refine run_invariant (P := SameAt i w) (G := fun _ j => j ∈ js) ?_ (.refl i w)
    (guarded_of_forall fun _ hj _ => hj) h
  intro w₁ j w₂ hw₁ hj hok
  split at hok
  · refine hw₁.trans ?_
    by_cases hji : j = i
    · subst hji
      rw [serveReady, if_neg (mt hw₁.readFds.mp hidle.1),
        if_neg (mt hw₁.writeFds.mp hidle.2)] at hok
      cases hok
      exact .refl j w₁
    · refine serveReady_sameAt hji (fun hl => ?_) hok
      exact absurd (hw₁.listener ▸ hl ▸ hj) hjs
  · cases hok
    exact hw₁

theorem acceptConn_shows (haccept : k.accept = some i) (hi : i ∉ w.activeWrite)
    (hne : i ≠ w.listener) : Shows i (w.acceptConn k) (Link.accepted k.now) := by
  unfold acceptConn
  rw [haccept]
  exact ⟨setSlot_same i _ w, by simp [Link.accepted], by simpa [Link.accepted, setSlot] using hi,
    le_max_right _ _, hne⟩

theorem acceptConn_fds (k : Kernel) (w : Worker) :
    (w.acceptConn k).readFds = w.readFds ∧ (w.acceptConn k).writeFds = w.writeFds ∧
      (w.acceptConn k).listener = w.listener := by
  unfold acceptConn
  cases k.accept <;> exact ⟨rfl, rfl, rfl⟩

/-- The first loop comes to the listening socket, and accepts the connection
there. -/
theorem serveReady_accepts (hlistener : w.listener < connSize) (hmax : w.listener ≤ w.maxFd)
    (hready : w.listener ∈ w.readFds) (hidle : i ∉ w.readFds ∧ i ∉ w.writeFds)
    (haccept : k.accept = some i) (hunwatched : i ∉ w.activeWrite) (hne : i ≠ w.listener)
    (h : forFds (serveReady k) w = .ok w') : Shows i w' (Link.accepted k.now) := by
  unfold forFds at h
  obtain ⟨before, behind, w₁, w₂, hbefore, hbehind, h₁, h₂, h₃⟩ := run_range hlistener h
  have hsame : SameAt i w w₁ := serveOthers_sameAt hidle hbefore h₁
  have hframe : SameAt w.listener w w₁ := by
    refine run_sameAt (fun w₃ j hj w₄ hok => ?_) h₁
    split at hok
    · refine serveReady_sameAt (ne_of_mem_of_not_mem hj hbefore) (fun _ => ?_) hok
      simpa [haccept] using hne
    · cases hok
      exact .refl _ _
  rw [if_pos (hmax.trans hsame.maxFd), serveReady, if_pos (hframe.readFds.mpr hready),
    if_pos hsame.listener.symm] at h₂
  cases h₂
  obtain ⟨hreads, hwrites, hlistening⟩ := acceptConn_fds k w₁
  have hl := acceptConn_shows haccept (mt hsame.activeWrite.mp hunwatched)
    (hsame.listener.symm ▸ hne)
  refine hl.of_sameAt (serveOthers_sameAt ⟨?_, ?_⟩ ?_ h₃)
  · rw [hreads]
    exact mt hsame.readFds.mp hidle.1
  · rw [hwrites]
    exact mt hsame.writeFds.mp hidle.2
  · rw [hlistening, hsame.listener]
    exact hbehind

@[simp] theorem accepted_flush (now : Timeval) (res : SendResult) :
    (Link.accepted now).flush res = Link.accepted now := by
  simp [Link.flush, Link.accepted, Session.flush, connCreate]

@[simp] theorem accepted_connUpdate (now : Timeval) (e : Env) :
    (Link.accepted now).connUpdate (.greeting e) = Link.accepted now :=
  accepted_flush now .again

/-- The listening socket is ready, and `accept` yields descriptor `i`, which is
not watched. -/
structure Accepts (i : ℕ) (w : Worker) (k : Kernel) : Prop where
  select : ∃ reads writes, k.select = some (reads, writes) ∧ w.listener ∈ reads ∧
    i ∉ reads ∧ i ∉ writes
  accept : k.accept = some i
  unwatched : i ∉ w.activeWrite
  distinct : i ≠ w.listener

theorem connUpdate_accepts (hi : i < connSize) (hlistener : w.listener < connSize)
    (hmax : w.listener ≤ w.maxFd) (hk : Accepts i w k) (h : w.connUpdate k = .ok w') :
    Shows i w' (Link.accepted k.now) := by
  obtain ⟨⟨reads, writes, hselect, hready, hidle⟩, haccept, hunwatched, hne⟩ := hk
  simp only [connUpdate, hselect] at h
  obtain ⟨w₁, hserve, hsend⟩ := bind_eq_ok.mp h
  have hl₁ : Shows i w₁ (Link.accepted k.now) :=
    serveReady_accepts (w := { w with readFds := reads, writeFds := writes }) hlistener hmax hready
      hidle haccept hunwatched hne hserve
  rcases sendReplies_shows hi hl₁ hsend with ⟨hstate, -⟩ | ⟨-, hl'⟩
  · cases hstate
  · rwa [accepted_flush] at hl'

/-- What a turn accepts it greets. -/
theorem turn_greets {k : Kernel × Env} (hi : i < connSize) (hlistener : w.listener < connSize)
    (hmax : w.listener ≤ w.maxFd) (hk : Accepts i w k.1) (h : w.turn k = .ok w') :
    ∃ l', (Link.accepted k.1.now).round (.greeting k.2) = .ok l' ∧ w.received i k.1 = [] ∧
      Shows i w' l' := by
  obtain ⟨w₁, hconn, hupdate⟩ := bind_eq_ok.mp h
  have hl₁ := connUpdate_accepts hi hlistener hmax hk hconn
  obtain ⟨s, hs, hl'⟩ := protocolUpdate_shows hi hl₁ hupdate
  refine ⟨{ Link.accepted k.1.now with session := s }, ?_, received_of_shows hconn hl₁, hl'⟩
  rw [Link.round_of_not_closing (Link.not_closing_accepted _ _), accepted_connUpdate,
    Link.protocolUpdate]
  simp only [Round.greeting, hs]

/-! ### Runs -/

def replies (i : ℕ) (w : Worker) : List CStr :=
  match w.connections i with
  | .live s => s.replies
  | .none => []
  | .freed => []

def exchange (i : ℕ) (w : Worker) (k : Kernel × Env) (w' : Worker) : List Exchange :=
  if w.received i k.1 = [] then []
  else [⟨w.received i k.1, (w'.replies i).drop (w.replies i).length⟩]

def talk (i : ℕ) : Worker × List Exchange → Kernel × Env →
    Except WorkerStop (Worker × List Exchange) :=
  logged turn (exchange i)

theorem exchange_shows {k : Kernel × Env} {r : Round} {l' : Link} (hl : Shows i w l)
    (hl' : Shows i w' l') (hreceived : w.received i k.1 = l.received r) :
    w.exchange i k w' = l.exchange r l' := by
  simp only [exchange, Link.exchange, hreceived, replies, hl.slot, hl'.slot]

/-- A run of the worker, from the turn that accepts a connection on, is a run
of its link, with the same exchanges. -/
theorem talk_shows {k : Kernel × Env} {ks : List (Kernel × Env)} {h : List Exchange}
    (hi : i < connSize) (hlistener : w.listener < connSize) (hmax : w.listener ≤ w.maxFd)
    (hk : Accepts i w k.1)
    (hks : ∀ w₁, w.turn k = .ok w₁ → Guarded turn (fun w k => ServesAt i w k.1) w₁ ks)
    (hrun : run (talk i) (w, []) (k :: ks) = .ok (w', h)) :
    ∃ rs l', List.Forall₂ (fun (turn : Kernel × Env) (r : Round) => r.env = turn.2) ks rs ∧
      run Link.talk (Link.accepted k.1.now, []) (.greeting k.2 :: rs) = .ok (l', h) ∧
        Shows i w' l' := by
  obtain ⟨⟨w₁, h₁⟩, hturn, hrest⟩ := bind_eq_ok.mp hrun
  obtain ⟨hturn, hh₁⟩ := logged_eq_ok.mp hturn
  obtain ⟨l₁, hgreeting, hquiet, hl₁⟩ := turn_greets hi hlistener hmax hk hturn
  have hh₁ : h₁ = [] := hh₁.trans (if_pos hquiet)
  have hstep : ∀ (c : Worker × List Exchange) (d : Link × List Exchange) k c',
      Shows i c.1 d.1 ∧ c.2 = d.2 → ServesAt i c.1 k.1 → talk i c k = .ok c' →
        ∃ r d', r.env = k.2 ∧ Link.talk d r = .ok d' ∧ Shows i c'.1 d'.1 ∧ c'.2 = d'.2 := by
    intro c d k c' hR hk hok
    obtain ⟨hturn, hlog⟩ := logged_eq_ok.mp hok
    obtain ⟨r, l', henv, hround, hreceived, hl'⟩ := turn_shows hi hR.1 hk hturn
    refine ⟨r, (l', c'.2), henv, logged_eq_ok.mpr ⟨hround, ?_⟩, hl', rfl⟩
    rw [hlog, exchange_shows hR.1 hl' hreceived, hR.2]
  obtain ⟨rs, ⟨l', h'⟩, hrs, hlinks, hl', hh'⟩ := run_simulation hstep (t := (l₁, []))
    ⟨hl₁, hh₁⟩ (guarded_logged (hks w₁ hturn) h₁) hrest
  obtain rfl : h = h' := hh'
  exact ⟨rs, l', hrs, (run_cons_ok (logged_eq_ok.mpr ⟨hgreeting, rfl⟩)).trans hlinks, hl'⟩

theorem run_shows {k : Kernel × Env} {ks : List (Kernel × Env)} (hi : i < connSize)
    (hlistener : w.listener < connSize) (hmax : w.listener ≤ w.maxFd) (hk : Accepts i w k.1)
    (hks : ∀ w₁, w.turn k = .ok w₁ → Guarded turn (fun w k => ServesAt i w k.1) w₁ ks)
    (h : run turn w (k :: ks) = .ok w') :
    ∃ rs l', List.Forall₂ (fun (turn : Kernel × Env) (r : Round) => r.env = turn.2) ks rs ∧
      run Link.round (Link.accepted k.1.now) (.greeting k.2 :: rs) = .ok l' ∧ Shows i w' l' := by
  obtain ⟨hist, hrun⟩ :
      ∃ hist, run (logged turn (exchange i)) (w, []) (k :: ks) = .ok (w', hist) :=
    exists_run_logged h []
  obtain ⟨rs, l', hrs, hlinks, hl'⟩ := talk_shows hi hlistener hmax hk hks hrun
  exact ⟨rs, l', hrs, run_of_run_logged hlinks, hl'⟩

end Worker

end SmtpProj.Server
