import SmtpProj.Server.Worker

/-!
The table of connections over whole runs of a worker.

Four places open, close or free a connection. Accepting keeps the table, the
open sockets and the watched descriptors in step; so do sending, receiving and
the pass of `protocol_update`. The two that close a descriptor do not: after the
end of a stream the entry stays and the descriptor is still watched, and after a
disconnect the entry points at freed memory. In a run without either, the table
is right after every `conn_update` and no freed connection is touched.
-/

namespace SmtpProj.Server

open Lib

/-- The entry of a descriptor is set exactly when it is an open socket, and
then to a connection that was not freed; such a descriptor is watched, and a
closed one is not. -/
structure TableInv (w : Worker) : Prop where
  set_iff : ∀ i, w.connections i ≠ .none ↔ i ∈ w.openFds
  live : ∀ i, w.connections i ≠ .none → ∃ s, w.connections i = .live s
  watched : ∀ i, w.connections i ≠ .none → i ∈ w.activeRead ∨ i ∈ w.activeWrite
  closed : ∀ i, i ≠ w.listener → i ∉ w.openFds → i ∉ w.activeRead ∧ i ∉ w.activeWrite

/-- What the kernel promises: `select` reports watched descriptors only, and
`accept` yields a descriptor below `CONN_SIZE` that is not in use. -/
structure KernelOk (w : Worker) (k : Kernel) : Prop where
  select : ∀ reads writes, k.select = some (reads, writes) →
    reads ⊆ w.activeRead ∧ writes ⊆ w.activeWrite
  accept : ∀ fd, k.accept = some fd → fd ≠ w.listener ∧ fd < connSize

/-- Nothing is closed: no readable connection has reached the end of its
stream, and none is disconnected. -/
def NothingCloses (w : Worker) (k : Kernel) : Prop :=
  ∀ reads writes, k.select = some (reads, writes) →
    (∀ i ∈ reads, i ≠ w.listener → k.recv i ≠ .closed) ∧
      ∀ i s, w.connections i = .live s → s.state ≠ .disconnected

/-- The table is right after `conn_update`, and the turn does not touch a
connection that is not there. -/
structure TableKept (w : Worker) (k : Kernel × Env) : Prop where
  inv : ∀ w', w.connUpdate k.1 = .ok w' → TableInv w'
  notFreed : w.turn k ≠ .error .freedConn
  notNull : w.turn k ≠ .error .nullConn

/-! ### Entries -/

namespace TableInv

variable {w : Worker} {i : ℕ}

theorem entry (h : TableInv w) (i : ℕ) :
    w.connections i = .none ∨ i ∈ w.openFds ∧ ∃ s, w.connections i = .live s := by
  by_cases hi : w.connections i = .none
  · exact .inl hi
  · exact .inr ⟨(h.set_iff i).mp hi, h.live i hi⟩

theorem open_of_watched (h : TableInv w) (hl : i ≠ w.listener)
    (hi : i ∈ w.activeRead ∨ i ∈ w.activeWrite) : i ∈ w.openFds := by
  by_contra hopen
  obtain ⟨hr, hw⟩ := h.closed i hl hopen
  exact hi.elim hr hw

/-- Every step that opens nothing or one descriptor `i` with its entry, and
watches it, keeps the table right. -/
theorem update {w' : Worker} {s : Session} (h : TableInv w)
    (hconn : w'.connections = Function.update w.connections i (.live s))
    (hlistener : w'.listener = w.listener)
    (hself : i ∈ w'.openFds ∧ (i ∈ w'.activeRead ∨ i ∈ w'.activeWrite))
    (hother : ∀ j, j ≠ i → (j ∈ w'.openFds ↔ j ∈ w.openFds) ∧
      (j ∈ w'.activeRead ↔ j ∈ w.activeRead) ∧ (j ∈ w'.activeWrite ↔ j ∈ w.activeWrite)) :
    TableInv w' := by
  have hconn_self : w'.connections i = .live s := by simp [hconn]
  have hconn_other : ∀ j, j ≠ i → w'.connections j = w.connections j := fun j hj => by
    simp [hconn, hj]
  refine ⟨fun j => ?_, fun j hj => ?_, fun j hj => ?_, fun j hl hj => ?_⟩
  · by_cases hji : j = i
    · rw [hji, hconn_self]
      simpa using hself.1
    · rw [hconn_other j hji, (hother j hji).1]
      exact h.set_iff j
  · by_cases hji : j = i
    · exact ⟨s, hji ▸ hconn_self⟩
    · rw [hconn_other j hji] at hj ⊢
      exact h.live j hj
  · by_cases hji : j = i
    · rw [hji]
      exact hself.2
    · rw [hconn_other j hji] at hj
      rw [(hother j hji).2.1, (hother j hji).2.2]
      exact h.watched j hj
  · have hji : j ≠ i := fun hji => hj (hji ▸ hself.1)
    rw [(hother j hji).1] at hj
    rw [(hother j hji).2.1, (hother j hji).2.2]
    exact h.closed j (hlistener ▸ hl) hj

theorem setLive (h : TableInv w) {s : Session} (hs : w.connections i = .live s) (s' : Session) :
    TableInv (w.setSlot i (.live s')) := by
  have hset : w.connections i ≠ .none := by simp [hs]
  exact h.update rfl rfl ⟨(h.set_iff i).mp hset, h.watched i hset⟩
    fun j _ => ⟨Iff.rfl, Iff.rfl, Iff.rfl⟩

theorem update_buf (h : TableInv w) (buf : List Char) : TableInv { w with buf := buf } :=
  ⟨h.set_iff, h.live, h.watched, h.closed⟩

end TableInv

/-! ### The two loops -/

/-- What holds between two turns: the table is right and the listening socket
is none of the accepted ones. -/
structure Sound (w : Worker) : Prop where
  table : TableInv w
  listener : w.listener ∉ w.openFds

/-- What holds in the second loop: no connection is about to be freed. -/
structure Standing (w : Worker) : Prop extends Sound w where
  connected : ∀ i s, w.connections i = .live s → s.state ≠ .disconnected

structure Serving (k : Kernel) (w : Worker) : Prop extends Standing w where
  reads : w.readFds ⊆ w.activeRead
  streaming : ∀ i ∈ w.readFds, i ≠ w.listener → k.recv i ≠ .closed
  accept : ∀ fd, k.accept = some fd → fd ≠ w.listener

def Harmless (stop : WorkerStop) : Prop := stop ≠ .freedConn ∧ stop ≠ .nullConn

namespace Worker

variable {k : Kernel} {w : Worker} {i : ℕ}

/-- No connection is disconnected after one is replaced by another that is
not. -/
theorem connected_update {w' : Worker} {s : Session}
    (h : ∀ j s, w.connections j = .live s → s.state ≠ .disconnected)
    (hconn : w'.connections = Function.update w.connections i (.live s))
    (hs : s.state ≠ .disconnected) :
    ∀ j s, w'.connections j = .live s → s.state ≠ .disconnected := by
  intro j s' hj
  by_cases hji : j = i
  · subst hji
    rw [hconn, Function.update_self, Slot.live.injEq] at hj
    rwa [← hj]
  · rw [hconn, Function.update_of_ne hji] at hj
    exact h j s' hj

theorem acceptConn_serving (h : Serving k w) : Serving k (w.acceptConn k) := by
  unfold acceptConn
  cases haccept : k.accept with
  | none => exact h
  | some fd =>
      have hfd : fd ≠ w.listener := h.accept fd haccept
      refine ⟨⟨⟨?_, ?_⟩, ?_⟩, ?_, h.streaming, h.accept⟩
      · refine h.table.update (i := fd) rfl rfl ⟨by simp, by simp⟩ fun j hj => ?_
        simp [hj, setSlot]
      · simpa [setSlot, hfd.symm] using h.listener
      · exact connected_update h.connected rfl (by simp [connCreate])
      · exact h.reads.trans (Finset.subset_insert _ _)

theorem recvFrom_serving (h : Serving k w) (hi : i ∈ w.readFds) (hl : i ≠ w.listener) :
    Ends (Serving k) Harmless (w.recvFrom (k.recv i) i) := by
  have hopen : i ∈ w.openFds := h.table.open_of_watched hl (.inl (h.reads hi))
  obtain ⟨s, hs⟩ := h.table.live i ((h.table.set_iff i).mpr hopen)
  have hcopy : ∀ buf, Ends (Serving k) Harmless (copyBuf i s { w with buf := buf }) := by
    intro buf
    unfold copyBuf
    cases cstr buf with
    | none => exact .error ⟨by simp, by simp⟩
    | some text =>
        exact .ok ⟨⟨⟨(h.table.setLive hs _).update_buf _, h.listener⟩,
          connected_update h.connected rfl (h.connected i s hs)⟩, h.reads, h.streaming, h.accept⟩
  unfold recvFrom recvInto
  cases hrecv : k.recv i with
  | closed => exact absurd hrecv (h.streaming i hi hl)
  | failed => simpa [hs] using hcopy w.buf
  | bytes b => simpa [hs] using hcopy (overlay b w.buf)

theorem resendTo_serving (h : Serving k w) (res : SendResult) (i : ℕ) :
    Ends (Serving k) Harmless (w.resendTo res i) := by
  unfold resendTo
  rcases h.table.entry i with hnone | ⟨hopen, s, hs⟩
  · rw [hnone]
    exact .ok h
  rw [hs]
  have hset : w.connections i ≠ .none := by simp [hs]
  have hkeep : Serving k (w.setSlot i (.live (s.resend res))) :=
    ⟨⟨⟨h.table.setLive hs _, h.listener⟩,
      connected_update h.connected rfl (h.connected i s hs)⟩, h.reads, h.streaming, h.accept⟩
  cases res with
  | again => exact .ok hkeep
  | failed => exact .ok hkeep
  | sent n =>
      refine .ok ⟨⟨⟨?_, h.listener⟩, hkeep.connected⟩,
        h.reads.trans (Finset.subset_insert _ _), h.streaming, h.accept⟩
      refine h.table.update (i := i) rfl rfl ⟨hopen, .inl (by simp)⟩ fun j hj => ?_
      simp [hj, setSlot]

theorem awaitWrite_table (h : TableInv w) (hi : w.connections i ≠ .none) (res : SendResult) :
    TableInv (w.awaitWrite res i) := by
  obtain ⟨s, hs⟩ := h.live i hi
  cases res with
  | sent n => exact h
  | failed => exact h
  | again =>
      refine h.update (i := i) (s := s) ?_ rfl ⟨(h.set_iff i).mp hi, .inr (by simp [awaitWrite])⟩
        fun j hj => ?_
      · funext j
        by_cases hj : j = i <;> simp [awaitWrite, hj, hs]
      · simp [awaitWrite, hj]

theorem sendReply_standing (h : Standing w) (i : ℕ) :
    Ends Standing Harmless (w.sendReply k i) := by
  unfold sendReply
  rcases h.table.entry i with hnone | ⟨hopen, s, hs⟩
  · rw [hnone]
    exact .ok h
  have hset : w.connections i ≠ .none := by simp [hs]
  let w₁ := if s.sendBuf ≠ [] then w.awaitWrite (k.send i) i else w
  have hw₁ : Standing w₁ ∧ w₁.connections = w.connections := by
    by_cases hpending : s.sendBuf ≠ []
    · have hw₁ : w₁ = w.awaitWrite (k.send i) i := if_pos hpending
      rw [hw₁]
      refine ⟨⟨⟨awaitWrite_table h.table hset _, ?_⟩, ?_⟩, ?_⟩ <;>
        cases k.send i <;> first | exact h.listener | exact h.connected | rfl
    · have hw₁ : w₁ = w := if_neg hpending
      rw [hw₁]
      exact ⟨h, rfl⟩
  obtain ⟨hstanding, hconn⟩ := hw₁
  have hs₁ : w₁.connections i = .live s := by rw [hconn, hs]
  have hstate : s.state ≠ .disconnected := h.connected i s hs
  rw [hs]
  change Ends _ _ (if s.state = .disconnected then _ else _)
  rw [if_neg hstate]
  refine .ok ⟨⟨hstanding.table.setLive hs₁ _, hstanding.listener⟩,
    connected_update hstanding.connected rfl ?_⟩
  unfold Session.flush
  split <;> exact hstate

theorem serveReady_serving (h : Serving k w) (i : ℕ) :
    Ends (Serving k) Harmless (w.serveReady k i) := by
  unfold serveReady
  split_ifs with hread hl hwrite
  · exact .ok (acceptConn_serving h)
  · exact recvFrom_serving h hread hl
  · exact resendTo_serving h _ i
  · exact .ok h

/-- A loop over the descriptors keeps what its body keeps. -/
theorem forFds_ends {P : Worker → Prop} {body : Worker → ℕ → Except WorkerStop Worker}
    (hbody : ∀ w i, P w → Ends P Harmless (body w i)) (h : P w) :
    Ends P Harmless (forFds body w) := by
  refine run_ends (fun w i _ hw => ?_) h
  split
  · exact hbody w i hw
  · exact .ok hw

/-! ### Whole turns -/

theorem connUpdate_sound (h : Sound w) (hk : KernelOk w k) (hq : NothingCloses w k) :
    Ends Sound Harmless (w.connUpdate k) := by
  unfold connUpdate
  cases hselect : k.select with
  | none => exact .ok ⟨⟨h.table.set_iff, h.table.live, h.table.watched, h.table.closed⟩, h.listener⟩
  | some ready =>
      obtain ⟨reads, writes⟩ := ready
      obtain ⟨hstreaming, hconnected⟩ := hq reads writes hselect
      have hserving : Serving k { w with readFds := reads, writeFds := writes } :=
        ⟨⟨⟨⟨h.table.set_iff, h.table.live, h.table.watched, h.table.closed⟩, h.listener⟩,
          hconnected⟩, (hk.select reads writes hselect).1, hstreaming,
          fun fd hfd => (hk.accept fd hfd).1⟩
      refine (forFds_ends (fun w i hw => serveReady_serving hw i) hserving).bind fun w₁ hw₁ => ?_
      exact (forFds_ends (fun w i hw => sendReply_standing hw i) hw₁.toStanding).mono
        fun _ hw => hw.toSound

theorem updateConn_sound (h : Sound w) (e : Env) (i : ℕ) :
    Ends Sound Harmless (w.updateConn e i) := by
  unfold updateConn
  rcases h.table.entry i with hnone | ⟨hopen, s, hs⟩
  · rw [hnone]
    exact .ok h
  rw [hs]
  dsimp only
  cases Server.protocolUpdate e s with
  | error stop => exact .error ⟨by simp, by simp⟩
  | ok s' => exact .ok ⟨h.table.setLive hs s', h.listener⟩

theorem turn_sound {k : Kernel × Env} (h : Sound w) (hk : KernelOk w k.1)
    (hq : NothingCloses w k.1) : Ends Sound Harmless (w.turn k) :=
  (connUpdate_sound h hk hq).bind fun _ hw =>
    run_ends (fun _ i _ hw => updateConn_sound hw k.2 i) hw

theorem tableKept_of_sound {k : Kernel × Env} (h : Sound w) (hk : KernelOk w k.1)
    (hq : NothingCloses w k.1) : TableKept w k :=
  ⟨fun _ hw' => ((connUpdate_sound h hk hq).of_ok hw').table,
    fun herr => ((turn_sound h hk hq).of_error herr).1 rfl,
    fun herr => ((turn_sound h hk hq).of_error herr).2 rfl⟩

theorem boot_sound (listener : ℕ) : Sound (boot listener) :=
  ⟨⟨by simp [boot], by simp [boot], by simp [boot], by simp [boot]⟩, by simp [boot]⟩

/-- In a run of a worker in which nothing closes, the table is right after
every `conn_update`, and no connection is used after it was freed. -/
theorem table_kept {listener : ℕ} {ks : List (Kernel × Env)}
    (h : Along turn (fun w k => KernelOk w k.1 ∧ NothingCloses w k.1) (boot listener) ks) :
    Along turn TableKept (boot listener) ks :=
  along_of_invariant (I := Sound)
    (fun _ _ _ hw hk hok => (turn_sound hw hk.1 hk.2).of_ok hok)
    (fun _ _ hw hk => tableKept_of_sound hw hk.1 hk.2) (boot_sound listener) h

/-! ### A run in which a peer closes -/

def acceptsFour : Kernel := { sampleKernel with select := some ({3}, ∅), accept := some 4 }

def receivesOnFour (res : RecvResult) : Kernel :=
  { sampleKernel with select := some ({4}, ∅), recv := fun _ => res }

theorem table_kept_accept :
    Along turn TableKept (boot 3) [(acceptsFour, sampleEnv)] := by
  refine table_kept ⟨⟨⟨?_, ?_⟩, ?_⟩, fun _ _ => trivial⟩
  · intro reads writes h
    cases h
    decide
  · intro fd h
    cases h
    decide
  · intro reads writes h
    cases h
    exact ⟨by decide, by simp [boot]⟩

/-- After the end of a stream the entry of the closed descriptor is still
set. -/
theorem peer_close_breaks_table :
    ¬Along turn TableKept (boot 3)
      [(acceptsFour, sampleEnv), (receivesOnFour .closed, sampleEnv)] := by
  have hrun : ((boot 3).turn (acceptsFour, sampleEnv) >>= fun w =>
      (w.connUpdate (receivesOnFour .closed)).map fun w =>
        (decide (4 ∈ w.openFds), decide (w.connections 4 = .none))) = .ok (false, false) := by
    decide +kernel
  obtain ⟨w₁, hturn, hrun⟩ := bind_eq_ok.mp hrun
  rintro ⟨-, h⟩
  have hinv := (h w₁ hturn).1.inv
  cases hupdate : w₁.connUpdate (receivesOnFour .closed) with
  | error stop =>
      rw [hupdate] at hrun
      cases hrun
  | ok w₂ =>
      rw [hupdate] at hrun
      obtain ⟨hclosed, hset⟩ := Prod.mk.inj (Except.ok.inj hrun)
      have hset : w₂.connections 4 ≠ .none := of_decide_eq_false hset
      exact of_decide_eq_false hclosed (((hinv w₂ hupdate).set_iff 4).mp hset)

end Worker

end SmtpProj.Server
