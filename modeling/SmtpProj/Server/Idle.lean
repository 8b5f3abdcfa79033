import SmtpProj.Server.Answers
import SmtpProj.Server.Projection
import SmtpProj.Server.Shutdown

/-!
The idle timeout of `protocol_update`, over runs of a worker.

A watch is restarted when the connection is accepted and when a chunk of it is
processed, and never otherwise. These events are kept as the history of the
run, and the invariant is that the watch of a connection holds the time of the
last event of its descriptor.

`stopwatch_watch` subtracts seconds and microseconds with a borrow, divides
with truncation and returns an `int`. Between normalised readings of a clock
that did not go back, and less than 2^31 milliseconds apart, this is the
difference in microseconds divided by 1000 and rounded down.
-/

namespace SmtpProj.Server

open Lib

/-! ### The clock -/

namespace Timeval

def micros (tv : Timeval) : ℤ := tv.sec * 1000000 + tv.usec

structure Normal (tv : Timeval) : Prop where
  nonneg : 0 ≤ tv.usec
  lt : tv.usec < 1000000

end Timeval

def elapsed (tv₂ tv₁ : Timeval) : ℤ := (tv₂.micros - tv₁.micros) / 1000

structure Clocked (readings : List Timeval) : Prop where
  ordered : readings.Pairwise fun tv₁ tv₂ => tv₁.micros ≤ tv₂.micros
  normal : ∀ tv ∈ readings, tv.Normal

theorem toInt_of_lt {n : ℤ} (h₀ : 0 ≤ n) (h : n < 0x80000000) : toInt n = n := by
  refine Int.bmod_eq_of_le ?_ ?_
  · omega
  · omega

/-- The borrow makes the difference of the microseconds the remainder. -/
theorem stopwatchWatch_eq {tv₁ tv₂ : Timeval} (h₁ : tv₁.Normal) (h₂ : tv₂.Normal)
    (hle : tv₁.micros ≤ tv₂.micros) (hlt : elapsed tv₂ tv₁ < 0x80000000) :
    stopwatchWatch tv₂ tv₁ = elapsed tv₂ tv₁ := by
  obtain ⟨hn₁, hl₁⟩ := h₁
  obtain ⟨hn₂, hl₂⟩ := h₂
  unfold elapsed Timeval.micros at *
  unfold stopwatchWatch
  dsimp only
  split
  · rw [Int.tdiv_eq_ediv_of_nonneg (by omega), toInt_of_lt (by omega) (by omega)]
    omega
  · rw [Int.tdiv_eq_ediv_of_nonneg (by omega), toInt_of_lt (by omega) (by omega)]
    omega

/-! ### One pass -/

variable {e : Env} {s s' : Session}

/-- The connection is given up, and the notice is the last reply to it. -/
structure TimedOut (s s' : Session) : Prop where
  state : s'.state = .disconnected
  sendBuf : s'.sendBuf = responseTimeout
  replies : ∃ others, s'.replies = s.replies ++ others ++ [responseTimeout]

theorem not_timedOut {texts : List CStr} (h : s'.replies = s.replies ++ texts)
    (htexts : responseTimeout ∉ texts) : ¬TimedOut s s' := by
  rintro ⟨-, -, others, hothers⟩
  rw [h, List.append_assoc, List.append_cancel_left_eq] at hothers
  exact htexts (by simp [hothers])

@[simp] theorem responseTimeout_notMem_answers (type : PatternType) :
    responseTimeout ∉ type.answers := by
  cases type <;> decide

theorem updateRecv_replies (h : updateRecv e s = .ok s') :
    ∃ texts, s'.replies = s.replies ++ texts ∧ responseTimeout ∉ texts := by
  cases hno : noMatch (patternScan s.recvBuf).1 s.state with
  | true =>
      rw [updateRecv_of_noMatch hno] at h
      cases h
      exact ⟨[response500], rfl, by decide⟩
  | false =>
      rw [updateRecv_of_dispatch hno] at h
      obtain ⟨s₁, hdispatch, h⟩ := bind_eq_ok.mp h
      cases h
      obtain ⟨o, ho, hgives⟩ := dispatch_ok hdispatch
      refine ⟨o.reply.toList, hgives.replies, ?_⟩
      rcases ho.answer with ⟨-, -, hnone⟩ | ⟨-, text, htext, hsome⟩
      · simp [hnone]
      · rw [hsome, Option.toList_some, List.mem_singleton]
        rintro rfl
        exact responseTimeout_notMem_answers _ htext

/-- Without a chunk the pass completes, and the stopwatch decides. -/
theorem pass_idle (e : Env) (hrecv : s.recvBuf = []) :
    ∃ s', protocolUpdate e s = .ok s' ∧ s'.watch = s.watch ∧
      (TimedOut s s' ↔ stopwatchWatch e.now s.watch > connTimeout) := by
  obtain ⟨s₁, hok, hwatch, texts, htexts, hnotice⟩ : ∃ s₁, protocolUpdate e s =
      .ok (if stopwatchWatch e.now s.watch > connTimeout then updateTimeout s₁ else s₁) ∧
      s₁.watch = s.watch ∧ ∃ texts, s₁.replies = s.replies ++ texts ∧
        responseTimeout ∉ texts := by
    by_cases hinit : s.state = .init
    · exact ⟨_, protocolUpdate_of_init hrecv hinit, rfl, [response220], rfl, by decide⟩
    · exact ⟨s, protocolUpdate_of_idle hrecv hinit, rfl, [], by simp, by simp⟩
  refine ⟨_, hok, ?_, ?_⟩
  · split
    · exact hwatch
    · exact hwatch
  · split
    next hlate =>
      refine iff_of_true ⟨rfl, rfl, texts, ?_⟩ hlate
      change s₁.replies ++ [responseTimeout] = _
      rw [htexts]
    next hsoon => exact iff_of_false (not_timedOut htexts hnotice) hsoon

/-- A chunk restarts the watch, which then stands at zero. -/
theorem pass_chunk (hrecv : s.recvBuf ≠ []) (h : protocolUpdate e s = .ok s') :
    s'.watch = e.now ∧ ¬TimedOut s s' := by
  obtain ⟨s₁, hs₁, h⟩ := bind_eq_ok.mp h
  obtain ⟨s₂, hs₂, h⟩ := bind_eq_ok.mp h
  rw [if_pos hrecv] at hs₁
  obtain ⟨texts, htexts, hnotice⟩ := updateRecv_replies hs₁
  have hgreeted : s₂.watch = s₁.watch ∧ ∃ greeting, s₂.replies = s₁.replies ++ greeting ∧
      responseTimeout ∉ greeting := by
    split_ifs at hs₂ with hinit
    · rw [updateInit_eq hinit] at hs₂
      cases hs₂
      exact ⟨rfl, [response220], rfl, by decide⟩
    · cases hs₂
      exact ⟨rfl, [], by simp, by simp⟩
  obtain ⟨hwatch, greeting, hgreeting, hnotice'⟩ := hgreeted
  have hnow : s₂.watch = e.now := hwatch.trans (updateRecv_ok hs₁).watch
  have hzero : ¬stopwatchWatch e.now s₂.watch > connTimeout := by
    rw [hnow, stopwatchWatch_self]
    decide
  rw [if_neg hzero] at h
  cases h
  have hall : s'.replies = s.replies ++ (texts ++ greeting) := by
    rw [hgreeting, htexts, List.append_assoc]
  exact ⟨hnow, not_timedOut hall (by simp [hnotice, hnotice'])⟩

/-! ### Restarts of the watches -/

structure Restart where
  fd : ℕ
  time : Timeval
  deriving DecidableEq

namespace Worker

def accepts (k : Kernel) : List Restart :=
  match k.accept with
  | none => []
  | some fd => [⟨fd, k.now⟩]

def processes (e : Env) (i : ℕ) : Slot → List Restart
  | .none => []
  | .freed => []
  | .live s => if s.recvBuf = [] then [] else [⟨i, e.now⟩]

def restarts (w : Worker) (st : Step) (_ : Worker) : List Restart :=
  match st with
  | .serve k i => if i ≤ w.maxFd ∧ i ∈ w.readFds ∧ i = w.listener then accepts k else []
  | .update e i => processes e i (w.connections i)
  | .select => []
  | .ready _ _ => []
  | .reply _ _ => []

def restartedAt (i : ℕ) (hist : List Restart) : Option Timeval :=
  (hist.filter fun r => r.fd = i).getLast?.map Restart.time

@[simp] theorem restartedAt_concat_self (i : ℕ) (hist : List Restart) (tv : Timeval) :
    restartedAt i (hist ++ [⟨i, tv⟩]) = some tv := by
  simp [restartedAt, List.filter_append]

theorem restartedAt_concat_other {i j : ℕ} (h : j ≠ i) (hist : List Restart) (tv : Timeval) :
    restartedAt i (hist ++ [⟨j, tv⟩]) = restartedAt i hist := by
  simp [restartedAt, List.filter_append, h]

theorem exists_of_restartedAt {i : ℕ} {hist : List Restart} {tv : Timeval}
    (h : restartedAt i hist = some tv) : ∃ r ∈ hist, r.time = tv := by
  obtain ⟨r, hr, rfl⟩ := Option.map_eq_some_iff.mp h
  exact ⟨r, List.mem_of_mem_filter (List.mem_of_getLast? hr), rfl⟩

/-- The watch of a connection holds the time of its last event. -/
def Watched (connections : ℕ → Slot) (hist : List Restart) : Prop :=
  ∀ i s, connections i = .live s → restartedAt i hist = some s.watch

/-- The entry is not set to a connection, or to one with the same watch. -/
def KeepsWatch (slot : Slot) : Slot → Prop
  | .none => True
  | .freed => True
  | .live s' => ∃ s, slot = .live s ∧ s.watch = s'.watch

theorem KeepsWatch.refl (slot : Slot) : KeepsWatch slot slot := by
  cases slot with
  | none => trivial
  | freed => trivial
  | live s => exact ⟨s, rfl, rfl⟩

section Steps

variable {connections : ℕ → Slot} {hist : List Restart} {w w' : Worker} {i : ℕ}

theorem Watched.update (h : Watched connections hist) {slot : Slot}
    (hslot : KeepsWatch (connections i) slot) :
    Watched (Function.update connections i slot) hist := by
  intro j s₁ hj
  by_cases hji : j = i
  · subst hji
    rw [Function.update_self] at hj
    subst hj
    obtain ⟨s, hs, hwatch⟩ := hslot
    rw [← hwatch]
    exact h j s hs
  · rw [Function.update_of_ne hji] at hj
    exact h j s₁ hj

/-- An event starts the watch of its own descriptor. -/
theorem Watched.restart (h : Watched connections hist) :
    Watched (Function.update connections i (.live s)) (hist ++ [⟨i, s.watch⟩]) := by
  intro j s₁ hj
  by_cases hji : j = i
  · subst hji
    rw [Function.update_self] at hj
    cases hj
    exact restartedAt_concat_self _ _ _
  · rw [Function.update_of_ne hji] at hj
    exact (restartedAt_concat_other (Ne.symm hji) _ _).trans (h j s₁ hj)

@[simp] theorem flush_watch (res : SendResult) (s : Session) : (s.flush res).watch = s.watch := by
  unfold Session.flush
  split <;> rfl

/-- A loop over the descriptors sets at most the entry it has come to, and
starts no watch. -/
def SetsEntry (i : ℕ) (w w' : Worker) : Prop :=
  ∃ slot, w'.connections = Function.update w.connections i slot ∧
    KeepsWatch (w.connections i) slot

theorem SetsEntry.refl (i : ℕ) (w : Worker) : SetsEntry i w w :=
  ⟨w.connections i, (Function.update_eq_self _ _).symm, KeepsWatch.refl _⟩

theorem SetsEntry.watched (h : SetsEntry i w w') (hw : Watched w.connections hist) :
    Watched w'.connections hist := by
  obtain ⟨slot, hconn, hslot⟩ := h
  rw [hconn]
  exact hw.update hslot

theorem recvFrom_setsEntry {res : RecvResult} (h : w.recvFrom res i = .ok w') :
    SetsEntry i w w' := by
  obtain ⟨s, text, hs, -, rfl⟩ := recvFrom_ok h
  refine ⟨.live (s.receive text), ?_, hs ▸ ⟨s, rfl, rfl⟩⟩
  simp only [setSlot, recvInto_connections]

theorem resendTo_setsEntry {res : SendResult} (h : w.resendTo res i = .ok w') :
    SetsEntry i w w' := by
  rcases resendTo_ok h with ⟨-, rfl⟩ | ⟨s, hs, hbody⟩
  · exact .refl i _
  refine ⟨.live (s.resend res), ?_, hs ▸ ⟨s, rfl, rfl⟩⟩
  rcases hbody with ⟨-, rfl⟩ | ⟨-, rfl⟩ <;> rfl

theorem sendReply_setsEntry {k : Kernel} (h : w.sendReply k i = .ok w') :
    SetsEntry i w w' := by
  rcases sendReply_ok h with ⟨-, rfl⟩ | ⟨s, hs, hbody⟩
  · exact .refl i _
  have hwait : (if s.sendBuf ≠ [] then w.awaitWrite (k.send i) i else w).connections =
      w.connections := by
    split_ifs
    · cases k.send i <;> rfl
    · rfl
  rcases hbody with ⟨-, rfl⟩ | ⟨-, rfl⟩
  · refine ⟨.freed, ?_, trivial⟩
    simp only [closeConn, setSlot, hwait, Function.update_idem]
  · refine ⟨.live (s.flush (k.send i)), ?_, hs ▸ ⟨s, rfl, (flush_watch _ s).symm⟩⟩
    simp only [setSlot, hwait]

theorem updateConn_watched {e : Env} (hw : Watched w.connections hist)
    (h : w.updateConn e i = .ok w') :
    Watched w'.connections (hist ++ processes e i (w.connections i)) := by
  rcases updateConn_cases h with ⟨hnone, rfl⟩ | ⟨s, s', hs, hpass, rfl⟩
  · rw [hnone]
    simpa [processes] using hw
  rw [hs]
  by_cases hrecv : s.recvBuf = []
  · obtain ⟨s₁, hs₁, hwatch, -⟩ := pass_idle e hrecv
    cases hs₁.symm.trans hpass
    have hnone : processes e i (.live s) = [] := if_pos hrecv
    rw [hnone, List.append_nil]
    exact hw.update (by rw [hs]; exact ⟨s, rfl, hwatch.symm⟩)
  · obtain ⟨hwatch, -⟩ := pass_chunk hrecv hpass
    have hsome : processes e i (.live s) = [⟨i, s'.watch⟩] := by
      rw [hwatch]
      exact if_neg hrecv
    rw [hsome]
    exact hw.restart

theorem serveReady_watched {k : Kernel} (hw : Watched w.connections hist)
    (h : w.serveReady k i = .ok w') : Watched w'.connections
      (hist ++ if i ∈ w.readFds ∧ i = w.listener then accepts k else []) := by
  unfold serveReady at h
  split_ifs at h with hread hl hwrite
  · cases h
    rw [if_pos ⟨hread, hl⟩]
    unfold acceptConn accepts
    cases k.accept with
    | none => simpa using hw
    | some fd => exact hw.restart (s := connCreate k.now)
  · rw [if_neg (fun h => hl h.2), List.append_nil]
    exact (recvFrom_setsEntry h).watched hw
  · rw [if_neg (fun h => hread h.1), List.append_nil]
    exact (resendTo_setsEntry h).watched hw
  · rw [if_neg (fun h => hread h.1), List.append_nil]
    cases h
    exact hw

theorem step_watched {st : Step} (hw : Watched w.connections hist) (h : w.step st = .ok w') :
    Watched w'.connections (hist ++ restarts w st w') := by
  cases st with
  | select =>
      cases h
      simpa [restarts] using hw
  | ready reads writes =>
      cases h
      simpa [restarts] using hw
  | update e i => exact updateConn_watched hw h
  | reply k i =>
      have hempty : restarts w (.reply k i) w' = [] := rfl
      rw [hempty, List.append_nil]
      rcases upTo_eq_ok h with hbody | rfl
      · exact (sendReply_setsEntry hbody).watched hw
      · exact hw
  | serve k i =>
      change (if i ≤ w.maxFd then w.serveReady k i else .ok w) = .ok w' at h
      split_ifs at h with hmax
      · simpa [restarts, hmax] using serveReady_watched hw h
      · cases h
        simpa [restarts, hmax] using hw

theorem run_watched {steps : List Step} {hist' : List Restart} (hw : Watched w.connections hist)
    (h : run (logged step restarts) (w, hist) steps = .ok (w', hist')) :
    Watched w'.connections hist' :=
  run_invariant (P := fun c => Watched c.1.connections c.2) (G := fun _ _ => True)
    (fun c st c' hc _ hok => by
      obtain ⟨hstep, hhist⟩ := logged_eq_ok.mp hok
      rw [hhist]
      exact step_watched hc hstep)
    hw (guarded_true _ _) h

/-! ### Whole runs -/

def Step.reading : Step → Option Timeval
  | .serve k _ => some k.now
  | .update e _ => some e.now
  | .select => none
  | .ready _ _ => none
  | .reply _ _ => none

def clock (steps : List Step) : List Timeval := steps.filterMap Step.reading

theorem time_of_mem_restarts {st : Step} {r : Restart} (h : r ∈ restarts w st w') :
    st.reading = some r.time := by
  cases st with
  | select | ready | reply => cases h
  | serve k i =>
      simp only [restarts] at h
      split_ifs at h
      · unfold accepts at h
        split at h
        · cases h
        · rw [List.mem_singleton.mp h]
          rfl
      · cases h
  | update e i =>
      simp only [restarts] at h
      unfold processes at h
      split at h
      · cases h
      · cases h
      · split_ifs at h
        · cases h
        · rw [List.mem_singleton.mp h]
          rfl

theorem time_mem_clock {steps : List Step} {c c' : Worker × List Restart}
    (h : run (logged step restarts) c steps = .ok c') :
    ∀ r ∈ c'.2, r ∈ c.2 ∨ r.time ∈ clock steps := by
  induction steps generalizing c with
  | nil =>
      cases h
      exact fun r hr => .inl hr
  | cons st steps ih =>
      obtain ⟨c₁, hstep, hrest⟩ := bind_eq_ok.mp h
      obtain ⟨-, hhist⟩ := logged_eq_ok.mp hstep
      intro r hr
      have hclock : clock (st :: steps) = st.reading.toList ++ clock steps := by
        unfold clock
        cases hreading : st.reading <;> simp [hreading]
      rw [hclock, List.mem_append]
      rcases ih hrest r hr with hr₁ | htime
      · rw [hhist, List.mem_append] at hr₁
        refine hr₁.imp_right fun hnew => .inl ?_
        rw [time_of_mem_restarts hnew]
        exact List.mem_singleton_self _
      · exact .inr (.inr htime)

/-- What becomes of the connection `s` of entry `i` whose watch was started at
`tv`. -/
def TimesOutAfter (e : Env) (tv : Timeval) (i : ℕ) (s : Session) (w' : Worker) : Prop :=
  ∃ s', w'.connections i = .live s' ∧
    (TimedOut s s' ↔ s.recvBuf = [] ∧ 30001 ≤ elapsed e.now tv)

theorem timesOutAfter_of_pass {e : Env} {tv : Timeval}
    (hwatch : stopwatchWatch e.now s.watch = elapsed e.now tv)
    (h : Server.protocolUpdate e s = .ok s') (hs' : w'.connections i = .live s') :
    TimesOutAfter e tv i s w' := by
  refine ⟨s', hs', ?_⟩
  by_cases hrecv : s.recvBuf = []
  · obtain ⟨s₁, hs₁, -, htimed⟩ := pass_idle e hrecv
    cases hs₁.symm.trans h
    rw [htimed, hwatch, connTimeout]
    constructor
    · intro hlate
      exact ⟨hrecv, by omega⟩
    · rintro ⟨-, hlate⟩
      omega
  · exact iff_of_false (pass_chunk hrecv h).2 fun hidle => hrecv hidle.1

theorem protocolUpdate_pass {e : Env} (hi : i < connSize) (hs : w.connections i = .live s)
    (h : w.protocolUpdate e = .ok w') :
    ∃ s', Server.protocolUpdate e s = .ok s' ∧ w'.connections i = .live s' := by
  obtain ⟨w₁, w₂, hbefore, hbody, hbehind⟩ := protocolUpdate_at hi h
  obtain ⟨s', hpass, rfl⟩ := updateConn_ok (hbefore.slot.trans hs) hbody
  exact ⟨s', hpass, hbehind.slot.trans (setSlot_same _ _ _)⟩

/-- After any run of the worker, and with a clock that does not go back, the
pass over a connection, and the whole call, give the connection up exactly if
it brings no chunk and its last restart is at least 30001 ms ago. -/
theorem idle_times_out {listener : ℕ} {steps : List Step} {e : Env}
    (hrun : run (logged step restarts) (boot listener, []) steps = .ok (w, hist))
    (hclock : Clocked (clock steps ++ [e.now])) (hi : i < connSize)
    (hs : w.connections i = .live s)
    (hfits : ∀ tv, restartedAt i hist = some tv → elapsed e.now tv < 0x80000000) :
    ∃ tv, restartedAt i hist = some tv ∧
      (s.recvBuf = [] → ∃ w', w.updateConn e i = .ok w') ∧
      (∀ w', w.updateConn e i = .ok w' → TimesOutAfter e tv i s w') ∧
      ∀ w', w.protocolUpdate e = .ok w' → TimesOutAfter e tv i s w' := by
  have hwatched : Watched (boot listener).connections [] := by
    intro j s₁ hj
    cases hj
  have hlast := run_watched hwatched hrun i s hs
  obtain ⟨r, hr, htime⟩ := exists_of_restartedAt hlast
  have hmem : s.watch ∈ clock steps := by
    rw [← htime]
    exact (time_mem_clock hrun r hr).resolve_left List.not_mem_nil
  have hle : s.watch.micros ≤ e.now.micros :=
    (List.pairwise_append.mp hclock.ordered).2.2 _ hmem _ (List.mem_singleton_self _)
  have hwatch : stopwatchWatch e.now s.watch = elapsed e.now s.watch :=
    stopwatchWatch_eq (hclock.normal _ (List.mem_append_left _ hmem))
      (hclock.normal _ (List.mem_append_right _ (List.mem_singleton_self _))) hle
      (hfits _ hlast)
  refine ⟨s.watch, hlast, fun hrecv => ?_, fun w' h => ?_, fun w' h => ?_⟩
  · obtain ⟨s', hpass, -⟩ := pass_idle e hrecv
    exact ⟨_, updateConn_of_ok hs hpass⟩
  · obtain ⟨s', hpass, rfl⟩ := updateConn_ok hs h
    exact timesOutAfter_of_pass hwatch hpass (setSlot_same _ _ _)
  · obtain ⟨s', hpass, hs'⟩ := protocolUpdate_pass hi hs h
    exact timesOutAfter_of_pass hwatch hpass hs'

def greetsFour : List Step :=
  let k : Kernel := { acceptsFour with now := ⟨10, 999500⟩ }
  [.select, .ready {3} ∅, .serve k 3, .reply k 4, .update { sampleEnv with now := ⟨10, 999500⟩ } 4]

/-- At 30001 ms the connection is given up. -/
theorem greeted_times_out :
    ∃ w hist s w' s', run (logged step restarts) (boot 3, []) greetsFour = .ok (w, hist) ∧
      w.connections 4 = .live s ∧
      w.updateConn { sampleEnv with now := ⟨41, 500⟩ } 4 = .ok w' ∧
      w'.connections 4 = .live s' ∧ TimedOut s s' := by
  let s : Session :=
    { connCreate ⟨10, 999500⟩ with oldState := .connected, state := .ready }.reply response220
  have heval : (run (logged step restarts) (boot 3, []) greetsFour).map
      (fun c => (c.1.connections 4, c.2)) = .ok (.live s, [⟨4, ⟨10, 999500⟩⟩]) := by
    decide +kernel
  cases hrun : run (logged step restarts) (boot 3, []) greetsFour with
  | error stop =>
      rw [hrun] at heval
      cases heval
  | ok c =>
      obtain ⟨w, hist⟩ := c
      rw [hrun] at heval
      obtain ⟨hs, rfl⟩ := Prod.mk.inj (Except.ok.inj heval)
      have hs : w.connections 4 = .live s := hs
      have hclock : Clocked (clock greetsFour ++ [⟨41, 500⟩]) := by
        refine ⟨by decide, fun tv htv => ?_⟩
        have htv : ⟨10, 999500⟩ = tv ∨ tv = ⟨41, 500⟩ := by
          simpa [clock, greetsFour, Step.reading, or_assoc] using htv
        rcases htv with rfl | rfl
        · exact ⟨by decide, by decide⟩
        · exact ⟨by decide, by decide⟩
      have hfits : ∀ tv, restartedAt 4 [⟨4, ⟨10, 999500⟩⟩] = some tv →
          elapsed ⟨41, 500⟩ tv < 0x80000000 := by
        intro tv htv
        cases htv
        decide
      obtain ⟨tv, htv, hpasses, htimes, -⟩ :=
        idle_times_out (e := { sampleEnv with now := ⟨41, 500⟩ }) hrun hclock (by decide) hs hfits
      obtain ⟨w', hw'⟩ := hpasses rfl
      obtain ⟨s', hs', htimed⟩ := htimes w' hw'
      refine ⟨w, _, s, w', s', rfl, hs, hw', hs', htimed.mpr ⟨rfl, ?_⟩⟩
      cases htv
      decide

end Steps

end Worker

end SmtpProj.Server
