import SmtpProj.Server.Table

/-!
The shutdown of a server worker (`conn_destroy`), which the handler of SIGINT
runs wherever the loop happens to be.

So a run is taken apart into smaller steps than turns: the call of `select`,
its return, and the bodies of the loops, one for each descriptor. The steps of
a turn, in their order, are the turn; a signal finds the worker after any
prefix of them, and what is proved here does not use their order at all.

`conn_destroy` walks the sets that `select` left and not the table. What is in
them is what the last call reported, less the streams that came to their end
since, which are closed: so it reaches the clients that were reported. While
`select` waits, or after it failed, the sets are those that are watched, and
the listening socket is in them.
-/

namespace SmtpProj.Server

open Lib

/-! ### Shutdown -/

def response421 : CStr := "421 Server is not available\r\n".toList

inductive Farewell
  | send (fd : ℕ) (text : CStr)
  | close (fd : ℕ)
  deriving DecidableEq, Repr

namespace Worker

/-- The body of the loop. A `send` that fails is logged, and the descriptor
closed all the same. -/
def farewell (w : Worker) (i : ℕ) : List Farewell :=
  if i ∈ w.readFds ∨ i ∈ w.writeFds then [.send i response421, .close i] else []

def connDestroy (w : Worker) : List Farewell :=
  (List.range (w.maxFd + 1)).flatMap w.farewell

/-- Every client is sent the reply and closed after it, and the listening
socket is sent nothing. -/
structure ShutsDown (w : Worker) : Prop where
  clients : ∀ i ∈ w.openFds, [.send i response421, .close i] <:+: w.connDestroy
  listener : ∀ text, .send w.listener text ∉ w.connDestroy

/-- The descriptors that `conn_destroy` reaches. -/
theorem connDestroy_infix {w : Worker} {i : ℕ} (hi : i ≤ w.maxFd)
    (h : i ∈ w.readFds ∨ i ∈ w.writeFds) :
    [.send i response421, .close i] <:+: w.connDestroy := by
  have hmem : i ∈ List.range (w.maxFd + 1) := List.mem_range.mpr (Nat.lt_succ_of_le hi)
  have hcalls : w.farewell i = [.send i response421, .close i] := if_pos h
  rw [← hcalls]
  exact List.infix_of_mem_flatten (List.mem_map_of_mem hmem)

theorem send_mem_connDestroy {w : Worker} {i : ℕ} {text : CStr} :
    .send i text ∈ w.connDestroy ↔
      i ≤ w.maxFd ∧ (i ∈ w.readFds ∨ i ∈ w.writeFds) ∧ text = response421 := by
  simp only [connDestroy, farewell, List.mem_flatMap, List.mem_range, Nat.lt_succ_iff]
  constructor
  · rintro ⟨j, hj, hmem⟩
    split_ifs at hmem with hset
    · simp only [List.mem_cons, Farewell.send.injEq, reduceCtorEq, List.not_mem_nil, or_false]
        at hmem
      obtain ⟨rfl, rfl⟩ := hmem
      exact ⟨hj, hset, rfl⟩
    · cases hmem
  · rintro ⟨hi, hset, rfl⟩
    exact ⟨i, hi, by simp [hset]⟩

/-! ### The steps of a turn -/

/-- What the loop does between two points at which a signal is seen. -/
inductive Step
  /-- `select` is called with copies of the watched sets. It waits, or fails. -/
  | select
  /-- `select` returns. -/
  | ready (reads writes : Finset ℕ)
  | serve (k : Kernel) (i : ℕ)
  | reply (k : Kernel) (i : ℕ)
  | update (e : Env) (i : ℕ)

def upTo (body : Worker → ℕ → Except WorkerStop Worker) (w : Worker) (i : ℕ) :
    Except WorkerStop Worker :=
  if i ≤ w.maxFd then body w i else .ok w

def step (w : Worker) : Step → Except WorkerStop Worker
  | .select => .ok { w with readFds := w.activeRead, writeFds := w.activeWrite }
  | .ready reads writes => .ok { w with readFds := reads, writeFds := writes }
  | .serve k i => upTo (serveReady k) w i
  | .reply k i => upTo (sendReply k) w i
  | .update e i => w.updateConn e i

def connUpdateSteps (k : Kernel) : List Step :=
  .select :: match k.select with
    | none => []
    | some (reads, writes) =>
        .ready reads writes ::
          ((List.range connSize).map (.serve k) ++ (List.range connSize).map (.reply k))

def turnSteps (k : Kernel × Env) : List Step :=
  connUpdateSteps k.1 ++ (List.range connSize).map (.update k.2)

theorem run_connUpdateSteps (w : Worker) (k : Kernel) :
    run step w (connUpdateSteps k) = w.connUpdate k := by
  unfold connUpdateSteps connUpdate
  cases k.select with
  | none => rfl
  | some ready =>
      obtain ⟨reads, writes⟩ := ready
      rw [run_cons_ok rfl, run_cons_ok rfl, run_append, run_map]
      refine bind_congr fun w₁ => ?_
      rw [run_map]
      rfl

@[simp] theorem run_turnSteps (w : Worker) (k : Kernel × Env) :
    run step w (turnSteps k) = w.turn k := by
  unfold turnSteps turn
  rw [run_append, run_connUpdateSteps]
  refine bind_congr fun w₁ => ?_
  rw [run_map]
  rfl

/-- A run of turns is the run of their steps. -/
theorem run_turns (w : Worker) (ks : List (Kernel × Env)) :
    run step w (ks.flatMap turnSteps) = run turn w ks :=
  run_flatMap run_turnSteps ks

/-! ### What the last call of `select` reported -/

def nextReady (last : Option (Finset ℕ × Finset ℕ)) : Step → Option (Finset ℕ × Finset ℕ)
  | .select => none
  | .ready reads writes => some (reads, writes)
  | .serve _ _ => last
  | .reply _ _ => last
  | .update _ _ => last

def lastReady (steps : List Step) : Option (Finset ℕ × Finset ℕ) :=
  steps.foldl nextReady (some (∅, ∅))

/-- The listening socket is watched and is not a connection, and `max_fd`
bounds the open sockets. -/
structure Listening (w : Worker) : Prop where
  bound : w.listener ≤ w.maxFd
  opened : ∀ i ∈ w.openFds, i ≤ w.maxFd
  entry : w.connections w.listener = .none
  watched : w.listener ∈ w.activeRead

/-- The result sets, after `select` has reported `reads` and `writes`. If the
listening socket is not ready, no socket has been opened since. -/
structure Reported (reads writes : Finset ℕ) (w : Worker) : Prop where
  readFds : w.readFds ⊆ reads
  writeFds : w.writeFds = writes
  listener : w.listener ∈ reads → w.listener ∈ w.readFds
  gone : w.listener ∉ reads → ∀ i ∈ w.openFds, i ∈ reads → i ∈ w.readFds

def Selected (w : Worker) : Option (Finset ℕ × Finset ℕ) → Prop
  | none => w.listener ∈ w.readFds
  | some (reads, writes) => Reported reads writes w

/-- What a step other than `select` and `accept` may change. -/
structure Framed (w w' : Worker) : Prop where
  listener : w'.listener = w.listener
  maxFd : w'.maxFd = w.maxFd
  entry : w'.connections w.listener = w.connections w.listener
  watched : w.listener ∈ w.activeRead → w.listener ∈ w'.activeRead
  opened : w'.openFds ⊆ w.openFds
  reads : w'.readFds ⊆ w.readFds
  heard : w.listener ∈ w.readFds → w.listener ∈ w'.readFds
  writes : w'.writeFds = w.writeFds
  gone : ∀ i ∈ w'.openFds, i ∈ w.readFds → i ∈ w'.readFds

namespace Framed

variable {w w' : Worker} {last : Option (Finset ℕ × Finset ℕ)}

theorem refl (w : Worker) : Framed w w :=
  ⟨rfl, rfl, rfl, id, subset_rfl, subset_rfl, id, rfl, fun _ _ => id⟩

theorem listening (h : Framed w w') (hw : Listening w) : Listening w' where
  bound := by
    rw [h.listener, h.maxFd]
    exact hw.bound
  opened i hi := by
    rw [h.maxFd]
    exact hw.opened i (h.opened hi)
  entry := by rw [h.listener, h.entry, hw.entry]
  watched := by
    rw [h.listener]
    exact h.watched hw.watched

theorem selected (h : Framed w w') (hw : Selected w last) : Selected w' last := by
  match last with
  | none =>
      change w'.listener ∈ w'.readFds
      rw [h.listener]
      exact h.heard hw
  | some (reads, writes) =>
      refine ⟨h.reads.trans hw.readFds, h.writes.trans hw.writeFds, fun hl => ?_,
        fun hl i hi hr => ?_⟩
      · rw [h.listener] at hl ⊢
        exact h.heard (hw.listener hl)
      · rw [h.listener] at hl
        exact h.gone i hi (hw.gone hl i (h.opened hi) hr)

end Framed

/-! ### Each step -/

variable {w w' : Worker} {i : ℕ}

theorem Listening.ne_of_live (hw : Listening w) {s : Session} (hs : w.connections i = .live s) :
    w.listener ≠ i := by
  rintro rfl
  rw [hw.entry] at hs
  cases hs

theorem framed_setSlot (hl : w.listener ≠ i) (slot : Slot) : Framed w (w.setSlot i slot) :=
  { Framed.refl w with entry := setSlot_other hl slot w }

theorem recvInto_framed (hl : w.listener ≠ i) (res : RecvResult) :
    Framed w (w.recvInto res i) := by
  cases res with
  | bytes b => exact { Framed.refl w with }
  | failed => exact Framed.refl w
  | closed =>
      refine { Framed.refl w with
        opened := Finset.erase_subset _ _
        reads := Finset.erase_subset _ _
        heard := Finset.mem_erase_of_ne_of_mem hl
        gone := fun j hj hr => Finset.mem_erase_of_ne_of_mem (Finset.ne_of_mem_erase hj) hr }

theorem recvFrom_framed (hl : w.listener ≠ i) {res : RecvResult}
    (h : w.recvFrom res i = .ok w') : Framed w w' := by
  have hinto := recvInto_framed hl res
  obtain ⟨s, text, -, -, rfl⟩ := recvFrom_ok h
  exact { hinto with entry := (setSlot_other hl _ _).trans hinto.entry }

theorem resendTo_framed (hw : Listening w) {res : SendResult} (h : w.resendTo res i = .ok w') :
    Framed w w' := by
  rcases resendTo_ok h with ⟨-, rfl⟩ | ⟨s, hs, hbody⟩
  · exact Framed.refl _
  have hset := framed_setSlot (hw.ne_of_live hs) (.live (s.resend res))
  rcases hbody with ⟨-, rfl⟩ | ⟨-, rfl⟩
  · exact { hset with watched := Finset.mem_insert_of_mem }
  · exact hset

theorem awaitWrite_framed (hl : w.listener ≠ i) (res : SendResult) :
    Framed w (w.awaitWrite res i) := by
  cases res with
  | sent n => exact Framed.refl w
  | failed => exact Framed.refl w
  | again => exact { Framed.refl w with watched := Finset.mem_erase_of_ne_of_mem hl }

theorem closeConn_framed (hl : w.listener ≠ i) : Framed w (w.closeConn i) :=
  { framed_setSlot hl .freed with
    watched := Finset.mem_erase_of_ne_of_mem hl
    opened := Finset.erase_subset _ _
    gone := fun _ _ => id }

theorem Framed.trans {w₁ w₂ w₃ : Worker} (h : Framed w₁ w₂) (h' : Framed w₂ w₃) :
    Framed w₁ w₃ where
  listener := h'.listener.trans h.listener
  maxFd := h'.maxFd.trans h.maxFd
  entry := by
    rw [← h.listener, h'.entry, h.listener, h.entry]
  watched hr := by
    have hr₂ := h.watched hr
    rw [← h.listener] at hr₂ ⊢
    exact h'.watched hr₂
  opened := h'.opened.trans h.opened
  reads := h'.reads.trans h.reads
  heard hr := by
    have hr₂ := h.heard hr
    rw [← h.listener] at hr₂ ⊢
    exact h'.heard hr₂
  writes := h'.writes.trans h.writes
  gone j hj hr := h'.gone j hj (h.gone j (h'.opened hj) hr)

theorem sendReply_framed (hw : Listening w) {k : Kernel} (h : w.sendReply k i = .ok w') :
    Framed w w' := by
  rcases sendReply_ok h with ⟨-, rfl⟩ | ⟨s, hs, hbody⟩
  · exact Framed.refl _
  have hl : w.listener ≠ i := hw.ne_of_live hs
  have hwait : Framed w (if s.sendBuf ≠ [] then w.awaitWrite (k.send i) i else w) := by
    split_ifs
    · exact awaitWrite_framed hl _
    · exact Framed.refl w
  have hset := hwait.trans
    (framed_setSlot (hwait.listener ▸ hl) (.live (s.flush (k.send i))))
  rcases hbody with ⟨-, rfl⟩ | ⟨-, rfl⟩
  · refine hset.trans (closeConn_framed ?_)
    rw [hset.listener]
    exact hl
  · exact hset

theorem updateConn_framed (hw : Listening w) {e : Env} (h : w.updateConn e i = .ok w') :
    Framed w w' := by
  rcases updateConn_cases h with ⟨-, rfl⟩ | ⟨s, s', hs, -, rfl⟩
  · exact Framed.refl _
  · exact framed_setSlot (hw.ne_of_live hs) _

theorem acceptConn_listening (hw : Listening w) {k : Kernel} (hk : k.accept ≠ some w.listener) :
    Listening (w.acceptConn k) := by
  unfold acceptConn
  cases haccept : k.accept with
  | none => exact hw
  | some fd =>
      have hfd : w.listener ≠ fd := by
        rintro rfl
        exact hk haccept
      refine ⟨hw.bound.trans (le_max_left _ _), fun i hi => ?_, ?_, ?_⟩
      · rcases Finset.mem_insert.mp hi with rfl | hi
        · exact le_max_right _ _
        · exact (hw.opened i hi).trans (le_max_left _ _)
      · exact (setSlot_other hfd _ w).trans hw.entry
      · exact Finset.mem_insert_of_mem hw.watched

theorem acceptConn_selected {last : Option (Finset ℕ × Finset ℕ)} (hs : Selected w last)
    (hready : w.listener ∈ w.readFds) (k : Kernel) : Selected (w.acceptConn k) last := by
  unfold acceptConn
  cases k.accept with
  | none => exact hs
  | some fd =>
      match last with
      | none => exact hready
      | some (reads, writes) =>
          exact ⟨hs.readFds, hs.writeFds, fun _ => hready,
            fun hl => absurd (hs.readFds hready) hl⟩

theorem upTo_eq_ok {body : Worker → ℕ → Except WorkerStop Worker}
    (h : upTo body w i = .ok w') : body w i = .ok w' ∨ w' = w := by
  unfold upTo at h
  split at h
  · exact .inl h
  · cases h
    exact .inr rfl

/-- A step accepts a connection, calls `select` or returns from it, or is
framed. -/
theorem step_selected {last : Option (Finset ℕ × Finset ℕ)} {st : Step} (hw : Listening w)
    (hs : Selected w last) (hk : ∀ k i, st = .serve k i → k.accept ≠ some w.listener)
    (h : w.step st = .ok w') :
    w'.listener = w.listener ∧ Listening w' ∧ Selected w' (nextReady last st) := by
  have hframed : Framed w w' → nextReady last st = last →
      w'.listener = w.listener ∧ Listening w' ∧ Selected w' (nextReady last st) := by
    intro hf hlast
    rw [hlast]
    exact ⟨hf.listener, hf.listening hw, hf.selected hs⟩
  cases st with
  | select =>
      cases h
      exact ⟨rfl, ⟨hw.bound, hw.opened, hw.entry, hw.watched⟩, hw.watched⟩
  | ready reads writes =>
      cases h
      exact ⟨rfl, ⟨hw.bound, hw.opened, hw.entry, hw.watched⟩,
        ⟨subset_rfl, rfl, id, fun _ _ _ => id⟩⟩
  | reply k i =>
      rcases upTo_eq_ok h with hbody | rfl
      · exact hframed (sendReply_framed hw hbody) rfl
      · exact hframed (Framed.refl _) rfl
  | update e i => exact hframed (updateConn_framed hw h) rfl
  | serve k i =>
      rcases upTo_eq_ok h with hbody | rfl
      · unfold serveReady at hbody
        split_ifs at hbody with hread hl hwrite
        · subst hl
          cases hbody
          refine ⟨?_, acceptConn_listening hw (hk k _ rfl), acceptConn_selected hs hread k⟩
          unfold acceptConn
          split <;> rfl
        · exact hframed (recvFrom_framed (Ne.symm hl) hbody) rfl
        · exact hframed (resendTo_framed hw hbody) rfl
        · cases hbody
          exact hframed (Framed.refl _) rfl
      · exact hframed (Framed.refl _) rfl

theorem boot_listening (listener : ℕ) : Listening (boot listener) :=
  ⟨le_rfl, by simp [boot], rfl, by simp [boot]⟩

theorem boot_selected (listener : ℕ) : Selected (boot listener) (some (∅, ∅)) :=
  ⟨subset_rfl, rfl, by simp, by simp⟩

theorem run_selected {last : Option (Finset ℕ × Finset ℕ)} {steps : List Step} (hw : Listening w)
    (hs : Selected w last) (hk : ∀ k i, .serve k i ∈ steps → k.accept ≠ some w.listener)
    (h : run step w steps = .ok w') :
    w'.listener = w.listener ∧ Listening w' ∧ Selected w' (steps.foldl nextReady last) := by
  induction steps generalizing w last with
  | nil =>
      cases h
      exact ⟨rfl, hw, hs⟩
  | cons st steps ih =>
      obtain ⟨w₁, hstep, hrest⟩ := bind_eq_ok.mp h
      obtain ⟨hlistener, hw₁, hs₁⟩ :=
        step_selected hw hs (fun k i hst => hk k i (by simp [hst])) hstep
      obtain ⟨hlistener', hgoal⟩ := ih hw₁ hs₁
        (fun k i hmem => hlistener ▸ hk k i (List.mem_cons_of_mem _ hmem)) hrest
      exact ⟨hlistener'.trans hlistener, hgoal⟩

/-! ### Who is told -/

/-- When a signal is handled while `select` waits, or after it failed, the
listening socket is among the watched ones. -/
theorem shutsDown_of_waiting (hw : Listening w) (hs : Selected w none) : ¬ShutsDown w :=
  fun h => h.listener response421 (send_mem_connDestroy.mpr ⟨hw.bound, .inl hs, rfl⟩)

theorem shutsDown_iff {reads writes : Finset ℕ} (hw : Listening w)
    (hs : Reported reads writes w) :
    ShutsDown w ↔ w.listener ∉ reads ∪ writes ∧ w.openFds ⊆ reads ∪ writes := by
  rw [Finset.notMem_union]
  constructor
  · intro h
    refine ⟨⟨fun hl => ?_, fun hl => ?_⟩, fun i hi => ?_⟩
    · exact h.listener _ (send_mem_connDestroy.mpr ⟨hw.bound, .inl (hs.listener hl), rfl⟩)
    · exact h.listener _ (send_mem_connDestroy.mpr ⟨hw.bound, .inr (hs.writeFds ▸ hl), rfl⟩)
    · have hsent := (h.clients i hi).subset (List.mem_cons_self ..)
      obtain ⟨-, hset, -⟩ := send_mem_connDestroy.mp hsent
      rw [Finset.mem_union, ← hs.writeFds]
      exact hset.imp_left fun hr => hs.readFds hr
  · rintro ⟨⟨hreads, hwrites⟩, hopen⟩
    refine ⟨fun i hi => connDestroy_infix (hw.opened i hi) ?_, fun text hsent => ?_⟩
    · rw [hs.writeFds]
      exact (Finset.mem_union.mp (hopen hi)).imp_left (hs.gone hreads i hi)
    · obtain ⟨-, hset, -⟩ := send_mem_connDestroy.mp hsent
      rw [hs.writeFds] at hset
      exact hset.elim (fun hr => hreads (hs.readFds hr)) hwrites

/-- A signal finds the worker after some steps of its loop. Every client is
told, and the listening socket is left alone, exactly when the last call of
`select` has returned, reported every connection that is still open, and did not
report the listening socket. -/
theorem connDestroy_shutsDown_iff {listener : ℕ} {steps : List Step}
    (hrun : run step (boot listener) steps = .ok w)
    (haccept : ∀ k i, .serve k i ∈ steps → k.accept ≠ some listener) :
    ShutsDown w ↔ ∃ reads writes, lastReady steps = some (reads, writes) ∧
      listener ∉ reads ∪ writes ∧ w.openFds ⊆ reads ∪ writes := by
  obtain ⟨hlistener, hw, hs⟩ :=
    run_selected (boot_listening listener) (boot_selected listener) haccept hrun
  change Selected w (lastReady steps) at hs
  have hlistener : w.listener = listener := hlistener
  match hlast : lastReady steps with
  | none =>
      rw [hlast] at hs
      simpa using shutsDown_of_waiting hw hs
  | some (reads, writes) =>
      rw [hlast] at hs
      rw [shutsDown_iff hw hs, hlistener]
      simp

def acceptedThenReadable : List Step :=
  turnSteps (acceptsFour, sampleEnv) ++ [.select, .ready {4} ∅]

theorem readable_client_told :
    ∃ w, run step (boot 3) acceptedThenReadable = .ok w ∧ w.openFds = {4} ∧ ShutsDown w := by
  have hopen : (run step (boot 3) acceptedThenReadable).map openFds = .ok {4} := by
    decide +kernel
  cases hrun : run step (boot 3) acceptedThenReadable with
  | error stop =>
      rw [hrun] at hopen
      cases hopen
  | ok w =>
      rw [hrun] at hopen
      have hopen : w.openFds = {4} := Except.ok.inj hopen
      refine ⟨w, rfl, hopen, (connDestroy_shutsDown_iff hrun ?_).mpr ⟨{4}, ∅, ?_, ?_, ?_⟩⟩
      · intro k i hk
        have hk : i < connSize ∧ acceptsFour = k := by
          simpa [acceptedThenReadable, turnSteps, connUpdateSteps, acceptsFour] using hk
        rw [← hk.2]
        decide
      · unfold lastReady acceptedThenReadable
        rw [List.foldl_append]
        rfl
      · decide
      · rw [hopen]
        decide

def acceptedThenSilent : List (Kernel × Env) :=
  [(acceptsFour, sampleEnv), (sampleKernel, sampleEnv)]

/-- A client that is silent when the signal comes is neither told nor closed.
-/
theorem silent_client_missed :
    ∃ w, run step (boot 3) (acceptedThenSilent.flatMap turnSteps) = .ok w ∧
      4 ∈ w.openFds ∧ w.connDestroy = [] ∧ ¬ShutsDown w := by
  rw [run_turns]
  have hdecide : (run turn (boot 3) acceptedThenSilent).map
      (fun w => (decide (4 ∈ w.openFds), w.connDestroy)) = .ok (true, []) := by
    decide +kernel
  cases hrun : run turn (boot 3) acceptedThenSilent with
  | error stop =>
      rw [hrun] at hdecide
      cases hdecide
  | ok w =>
      rw [hrun] at hdecide
      obtain ⟨hopen, hcalls⟩ := Prod.mk.inj (Except.ok.inj hdecide)
      have hopen : 4 ∈ w.openFds := of_decide_eq_true hopen
      refine ⟨w, rfl, hopen, hcalls, fun h => ?_⟩
      have hinfix := h.clients 4 hopen
      rw [hcalls] at hinfix
      simp at hinfix

end Worker

end SmtpProj.Server
