import SmtpProj.Server.Boot

/-!
The processes of the server, and the signal that ends them.

`main` forks the log process, and `prefork` the workers; all of them are in one
process group, and each takes SIGINT by its default action until it has installed
a handler of its own. The master's handler, and the end of `main` behind the label
`DESTRUCT`, signal whatever the variables `log_pid` and `worker_pids` hold. These
hold 0 before a `fork`, which stands for the group, and -1 after one that failed,
which stands for every process of the user; and `worker_pids` is not initialised.
The log process runs into the end of `main` too, when `logger_start` returns, with
a `log_pid` of 0.

So a master that runs its handler, a `main` that fails, and a log process that
stops all reach every process of the server (`server_goes_down`). A start that
fails reaches further (`strays_iff`).
-/

namespace SmtpProj.Server

open Lib

inductive Proc
  | master
  | logger
  | worker (i : ℕ)
  deriving DecidableEq

inductive Target
  /-- 0, the processes of the group. -/
  | group
  /-- -1, all processes that may be signalled. -/
  | everyone
  | process (p : Proc)
  /-- What the memory of `worker_pids` happened to hold. -/
  | unset
  deriving DecidableEq

inductive End
  /-- By the default action of SIGINT. -/
  | interrupted
  /-- By its handler. -/
  | handled
  /-- By the end of `main`. -/
  | finished
  /-- By `exit`, or by a fault, in its loop or while it starts. -/
  | aborted
  deriving DecidableEq

inductive Life
  | unborn
  /-- `handles` holds when a handler is installed. -/
  | alive (handles : Bool)
  | gone (how : End)
  deriving DecidableEq

inductive Stage
  | start
  | forkLog (opts : ServerOpts) (credentials : Credentials)
  | listen (opts : ServerOpts) (credentials : Credentials)
  /-- `i` workers are forked. -/
  | prefork (i : ℕ)
  | loop

structure Processes where
  stage : Stage
  status : Proc → Life
  /-- A SIGINT was sent and not yet taken. -/
  pending : Proc → Bool
  workerCount : ℕ
  logPid : Target
  workerPids : ℕ → Target
  /-- What `kill` was told so far; the program does not read it. -/
  told : List Target

inductive MainStep
  | prepare (host : Host)
  | forkLog (ok : Bool)
  | listen (host : Host)
  | forkWorker (ok : Bool)
  | install (ok : Bool)
  | halt

inductive LoggerStep
  | setUp (ok : Bool)
  | receive (ok : Bool)

inductive WorkerStep
  | install (ok : Bool)
  | halt

inductive Act
  | main (x : MainStep)
  | log (x : LoggerStep)
  | work (i : ℕ) (x : WorkerStep)
  /-- A process takes the signal. -/
  | deliver (p : Proc)
  /-- A signal from without. -/
  | interrupt (t : Target)

/-- The process cannot take this step. -/
inductive Stuck
  | stuck
  deriving DecidableEq

def Stage.allocated : Stage → Bool
  | .start => false
  | .forkLog _ _ => false
  | .listen _ _ => true
  | .prefork _ => true
  | .loop => true

namespace Processes

def boot : Processes where
  stage := .start
  status p := if p = .master then .alive false else .unborn
  pending _ := false
  workerCount := 0
  logPid := .group
  workerPids _ := .unset
  told := []

def Alive (p : Proc) (s : Processes) : Prop := ∃ handles, s.status p = .alive handles

def isAlive (p : Proc) (s : Processes) : Bool :=
  match s.status p with
  | .alive _ => true
  | .unborn => false
  | .gone _ => false

/-- A process with a signal takes it before anything else. -/
def runs (p : Proc) (s : Processes) : Bool := s.isAlive p && !s.pending p

def reaches (t : Target) (p : Proc) (s : Processes) : Bool :=
  match t with
  | .group => s.isAlive p
  | .everyone => s.isAlive p
  | .process q => p = q
  | .unset => false

def signal (ts : List Target) (s : Processes) : Processes :=
  { s with pending := fun p => s.pending p || ts.any fun t => s.reaches t p }

def finish (p : Proc) (how : End) (ts : List Target) (s : Processes) : Processes :=
  { s.signal ts with
    status := Function.update s.status p (.gone how)
    told := s.told ++ ts }

def birth (p : Proc) (s : Processes) : Processes :=
  { s with
    status := Function.update s.status p (.alive false)
    pending := Function.update s.pending p false }

def arm (p : Proc) (s : Processes) : Processes :=
  { s with status := Function.update s.status p (.alive true) }

def children (s : Processes) : List Target :=
  s.logPid :: if s.stage.allocated then (List.range s.workerCount).map s.workerPids else []

def destruct (s : Processes) : Processes := s.finish .master .finished s.children

def mainStep (s : Processes) (x : MainStep) : Except Stuck Processes :=
  match s.stage, x with
  | .start, .prepare host =>
      match prepare host with
      | .ok (opts, _, credentials) => .ok { s with stage := .forkLog opts credentials }
      | .error _ => .ok s.destruct
  | .forkLog opts credentials, .forkLog ok =>
      if ok then .ok { s.birth .logger with
        stage := .listen opts credentials
        logPid := .process .logger
        workerCount := opts.processCount.toNat }
      else .ok { s with logPid := .everyone }.destruct
  | .listen opts credentials, .listen host =>
      match connListen host credentials opts with
      | .ok _ => .ok { s with stage := .prefork 0 }
      | .error _ => .ok s.destruct
  | .prefork i, .forkWorker ok =>
      if i < s.workerCount then
        if ok then .ok { s.birth (.worker i) with
          stage := .prefork (i + 1)
          workerPids := Function.update s.workerPids i (.process (.worker i)) }
        else .ok { s with workerPids := Function.update s.workerPids i .everyone }.destruct
      else .error .stuck
  | .prefork i, .install ok =>
      if i = s.workerCount then
        if ok then .ok { s.arm .master with stage := .loop }
        -- `handle_signal` closes the connections and exits
        else .ok (s.finish .master .aborted [])
      else .error .stuck
  | .loop, .halt => .ok (s.finish .master .aborted [])
  | _, _ => .error .stuck

/-- The variable `log_pid` of the log process is 0, and `worker_pids` is null. -/
def loggerStep (s : Processes) (x : LoggerStep) : Except Stuck Processes :=
  match s.status .logger, x with
  | .alive false, .setUp ok =>
      if ok then .ok (s.arm .logger) else .ok (s.finish .logger .finished [.group])
  | .alive true, .receive ok => if ok then .ok s else .ok (s.finish .logger .finished [.group])
  | _, _ => .error .stuck

def workerStep (s : Processes) (i : ℕ) (x : WorkerStep) : Except Stuck Processes :=
  match s.status (.worker i), x with
  | .alive false, .install ok =>
      if ok then .ok (s.arm (.worker i)) else .ok (s.finish (.worker i) .aborted [])
  | .alive true, .halt => .ok (s.finish (.worker i) .aborted [])
  | _, _ => .error .stuck

/-- `handle_signal_master`, `handle_signal` and `log_handle_signal`, or the default
action. -/
def deliver (s : Processes) (p : Proc) : Except Stuck Processes :=
  match s.status p with
  | .alive handles =>
      if s.pending p then
        .ok (s.finish p (if handles then .handled else .interrupted)
          (if handles ∧ p = .master then s.children else []))
      else .error .stuck
  | .unborn => .error .stuck
  | .gone _ => .error .stuck

def step (s : Processes) : Act → Except Stuck Processes
  | .main x => if s.runs .master then s.mainStep x else .error .stuck
  | .log x => if s.runs .logger then s.loggerStep x else .error .stuck
  | .work i x => if s.runs (.worker i) then s.workerStep i x else .error .stuck
  | .deliver p => s.deliver p
  | .interrupt t => .ok (s.signal [t])

/-- The master has run its handler or the end of `main`, or the log process has
stopped. -/
def Closing (s : Processes) : Prop :=
  s.status .master = .gone .handled ∨ s.status .master = .gone .finished ∨
    s.status .logger = .gone .finished

variable {s s' : Processes} {p q : Proc} {how : End} {ts : List Target} {t : Target} {i : ℕ}

/-! ### What a process has become -/

@[simp] theorem isAlive_iff : s.isAlive p = true ↔ s.Alive p := by
  unfold isAlive Alive
  cases s.status p <;> simp

theorem runs_iff : s.runs p = true ↔ s.Alive p ∧ s.pending p = false := by
  simp [runs, isAlive_iff]

@[simp] theorem alive_finish : (s.finish p how ts).Alive q ↔ q ≠ p ∧ s.Alive q := by
  by_cases hqp : q = p
  · subst hqp
    simp [Alive, finish]
  · simp [Alive, finish, signal, hqp]

theorem pending_finish : (s.finish p how ts).pending q =
    (s.pending q || ts.any fun t => s.reaches t q) := rfl

theorem alive_update {handles : Bool}
    (h : s'.status = Function.update s.status p (.alive handles)) :
    s'.Alive q ↔ q = p ∨ s.Alive q := by
  by_cases hqp : q = p
  · subst hqp
    simp [Alive, h]
  · simp [Alive, h, hqp]

theorem not_alive_of_gone (h : s.status p = .gone how) : ¬s.Alive p := by
  rintro ⟨handles, halive⟩
  rw [h] at halive
  cases halive

theorem closing_finish : (s.finish p how ts).Closing → s.Closing ∨
    (p = .master ∧ (how = .handled ∨ how = .finished)) ∨ (p = .logger ∧ how = .finished) := by
  intro h
  cases p with
  | master =>
      rcases h with h | h | h <;> simp [finish, signal] at h
      · exact .inr (.inl ⟨rfl, .inl h⟩)
      · exact .inr (.inl ⟨rfl, .inr h⟩)
      · exact .inl (.inr (.inr h))
  | logger =>
      rcases h with h | h | h <;> simp [finish, signal] at h
      · exact .inl (.inl h)
      · exact .inl (.inr (.inl h))
      · exact .inr (.inr ⟨rfl, h⟩)
  | worker i => exact .inl (by simpa [Closing, finish, signal] using h)

theorem closing_update {handles : Bool}
    (h : s'.status = Function.update s.status p (.alive handles)) (hclosing : s'.Closing) :
    s.Closing := by
  have hgone : ∀ q how, s'.status q = .gone how → s.status q = .gone how := by
    intro q how hq
    by_cases hqp : q = p
    · subst hqp
      simp [h] at hq
    · simpa [h, hqp] using hq
  exact hclosing.imp (hgone _ _) (Or.imp (hgone _ _) (hgone _ _))

/-! ### Everyone is reached -/

def forked (s : Processes) : ℕ :=
  match s.stage with
  | .start => 0
  | .forkLog _ _ => 0
  | .listen _ _ => 0
  | .prefork i => i
  | .loop => s.workerCount

/-- The variables name the processes that are alive, and behind a shutdown each of
these has been signalled. -/
structure Sound (s : Processes) : Prop where
  early : s.stage.allocated = false → s.status .logger = .unborn
  logger : s.Alive .logger → s.logPid = .process .logger
  worker : ∀ i, s.Alive (.worker i) → i < s.forked ∧ s.workerPids i = .process (.worker i)
  bound : s.forked ≤ s.workerCount
  closing : s.Closing → ∀ p, s.Alive p → s.pending p = true

theorem sound_boot : Sound boot := by
  refine ⟨fun _ => rfl, ?_, ?_, le_rfl, ?_⟩
  · rintro ⟨handles, h⟩
    cases h
  · rintro i ⟨handles, h⟩
    cases h
  · rintro (h | h | h) <;> cases h

theorem Sound.not_closing (h : Sound s) (hruns : s.runs p = true) : ¬s.Closing := by
  intro hclosing
  obtain ⟨halive, hpending⟩ := runs_iff.mp hruns
  rw [h.closing hclosing p halive] at hpending
  cases hpending

theorem Sound.allocated (h : Sound s) (hi : s.Alive (.worker i)) : s.stage.allocated = true := by
  have hlt := (h.worker i hi).1
  unfold forked at hlt
  cases hstage : s.stage <;> simp [hstage] at hlt ⊢ <;> rfl

/-- The end of `main`, or the master's handler, reaches every other process. -/
theorem Sound.children_reach (h : Sound s) (hq : s.Alive q) (hne : q ≠ .master) :
    ∃ t ∈ s.children, s.reaches t q = true := by
  cases q with
  | master => exact absurd rfl hne
  | logger => exact ⟨s.logPid, by simp [children], by simp [h.logger hq, reaches]⟩
  | worker i =>
      obtain ⟨hi, hpid⟩ := h.worker i hq
      refine ⟨s.workerPids i, ?_, by simp [hpid, reaches]⟩
      rw [children, if_pos (h.allocated hq)]
      exact List.mem_cons_of_mem _
        (List.mem_map_of_mem (List.mem_range.mpr (hi.trans_le h.bound)))

theorem Sound.finish (h : Sound s)
    (hreach : ((p = .master ∧ (how = .handled ∨ how = .finished)) ∨
      (p = .logger ∧ how = .finished)) → ∀ q, s.Alive q → q ≠ p → ∃ t ∈ ts,
        s.reaches t q = true)
    (hp : s.Alive p) : Sound (s.finish p how ts) := by
  refine ⟨fun hstage => ?_, fun halive => h.logger (alive_finish.mp halive).2,
    fun i halive => h.worker i (alive_finish.mp halive).2, h.bound, fun hclosing q halive => ?_⟩
  · have hunborn := h.early hstage
    have hne : Proc.logger ≠ p := by
      rintro rfl
      obtain ⟨handles, halive⟩ := hp
      rw [hunborn] at halive
      cases halive
    exact (Function.update_of_ne hne _ _).trans hunborn
  · obtain ⟨hqp, hq⟩ := alive_finish.mp halive
    rw [pending_finish, Bool.or_eq_true, List.any_eq_true]
    rcases closing_finish hclosing with hbefore | hnow
    · exact .inl (h.closing hbefore q hq)
    · exact .inr (hreach hnow q hq hqp)

theorem Sound.finish_master (h : Sound s) (hp : s.Alive .master) :
    Sound (s.finish .master how s.children) :=
  h.finish (fun _ _ hq hne => h.children_reach hq hne) hp

theorem Sound.finish_quietly (h : Sound s) (hp : s.Alive p)
    (hhow : how ≠ .finished ∧ (p = .master → how ≠ .handled)) : Sound (s.finish p how ts) := by
  refine h.finish (fun hclosing => ?_) hp
  rcases hclosing with ⟨hp, hhandled | hfinished⟩ | ⟨-, hfinished⟩
  · exact absurd hhandled (hhow.2 hp)
  · exact absurd hfinished hhow.1
  · exact absurd hfinished hhow.1

theorem Sound.finish_logger (h : Sound s) (hp : s.Alive .logger) :
    Sound (s.finish .logger .finished [.group]) :=
  h.finish (fun _ q hq _ => ⟨.group, by simp, isAlive_iff.mpr hq⟩) hp

/-! ### What the master does -/

inductive Moved (s : Processes) : Processes → Prop
  | prepared {opts credentials} (hstage : s.stage = .start) :
      Moved s { s with stage := .forkLog opts credentials }
  | forkedLog {opts credentials} (hstage : s.stage = .forkLog opts credentials) :
      Moved s { s.birth .logger with
        stage := .listen opts credentials
        logPid := .process .logger
        workerCount := opts.processCount.toNat }
  | listening {opts credentials} (hstage : s.stage = .listen opts credentials) :
      Moved s { s with stage := .prefork 0 }
  | forkedWorker {n : ℕ} (hstage : s.stage = .prefork n) (hn : n < s.workerCount) :
      Moved s { s.birth (.worker n) with
        stage := .prefork (n + 1)
        workerPids := Function.update s.workerPids n (.process (.worker n)) }
  | installed (hstage : s.stage = .prefork s.workerCount) :
      Moved s { s.arm .master with stage := .loop }
  | failed (hstage : s.stage = .start ∨ ∃ opts credentials, s.stage = .listen opts credentials) :
      Moved s s.destruct
  | unforkedLog {opts credentials} (hstage : s.stage = .forkLog opts credentials) :
      Moved s { s with logPid := .everyone }.destruct
  | unforkedWorker {n : ℕ} (hstage : s.stage = .prefork n) (hn : n < s.workerCount) :
      Moved s { s with workerPids := Function.update s.workerPids n .everyone }.destruct
  | aborted : Moved s (s.finish .master .aborted [])

theorem moved_of_mainStep {x : MainStep} (h : s.mainStep x = .ok s') : Moved s s' := by
  cases hstage : s.stage with
  | start =>
      cases x <;> simp [mainStep, hstage] at h
      next host =>
        cases hprepare : prepare host <;> simp [hprepare] at h <;> subst h
        · exact .failed (.inl hstage)
        · exact .prepared hstage
  | forkLog opts credentials =>
      cases x <;> simp [mainStep, hstage] at h
      next ok =>
        cases ok <;> simp at h <;> subst h
        · rw [← hstage]
          exact .unforkedLog hstage
        · exact .forkedLog hstage
  | listen opts credentials =>
      cases x <;> simp [mainStep, hstage] at h
      next host =>
        cases hlisten : connListen host credentials opts <;> simp [hlisten] at h <;> subst h
        · exact .failed (.inr ⟨opts, credentials, hstage⟩)
        · exact .listening hstage
  | prefork n =>
      cases x <;> simp [mainStep, hstage] at h
      next ok =>
        by_cases hn : n < s.workerCount <;> simp [hn] at h
        cases ok <;> simp at h <;> subst h
        · rw [← hstage]
          exact .unforkedWorker hstage hn
        · exact .forkedWorker hstage hn
      next ok =>
        by_cases hn : n = s.workerCount <;> simp [hn] at h
        cases ok <;> simp at h <;> subst h
        · exact .aborted
        · exact .installed (hn ▸ hstage)
  | loop =>
      cases x <;> simp [mainStep, hstage] at h
      subst h
      exact .aborted

theorem loggerStep_cases {x : LoggerStep} (h : s.loggerStep x = .ok s') :
    s' = s ∨ s' = s.arm .logger ∨ s' = s.finish .logger .finished [.group] := by
  unfold loggerStep at h
  cases hstatus : s.status .logger with
  | unborn => simp [hstatus] at h
  | alive handles =>
      cases handles <;> cases x <;> simp [hstatus] at h <;> split_ifs at h <;> cases h <;> simp
  | gone how => simp [hstatus] at h

theorem workerStep_cases {x : WorkerStep} (h : s.workerStep i x = .ok s') :
    s' = s.arm (.worker i) ∨ s' = s.finish (.worker i) .aborted [] := by
  unfold workerStep at h
  cases hstatus : s.status (.worker i) with
  | unborn => simp [hstatus] at h
  | alive handles =>
      cases handles <;> cases x <;> simp [hstatus] at h
      · split_ifs at h <;> cases h <;> simp
      · exact .inr h.symm
  | gone how => simp [hstatus] at h

theorem Sound.destruct (h : Sound s) (hp : s.Alive .master) : Sound s.destruct :=
  h.finish_master hp

theorem Sound.moved (h : Sound s) (hruns : s.runs .master = true) (hmoved : Moved s s') :
    Sound s' := by
  have hmaster := (runs_iff.mp hruns).1
  have hopen := h.not_closing hruns
  cases hmoved with
  | prepared hstage =>
      refine ⟨fun _ => h.early (by rw [hstage]; rfl), h.logger, fun i hi => ?_, Nat.zero_le _,
        fun hclosing => absurd hclosing hopen⟩
      have hallocated := h.allocated hi
      rw [hstage] at hallocated
      cases hallocated
  | forkedLog hstage =>
      refine ⟨fun hstage => ?_, fun _ => rfl, fun i hi => ?_, Nat.zero_le _, fun hclosing => ?_⟩
      · cases hstage
      · have hi := ((alive_update rfl).mp hi).resolve_left (by rintro ⟨⟩)
        have hallocated := h.allocated hi
        rw [hstage] at hallocated
        cases hallocated
      · exact absurd (closing_update rfl hclosing) hopen
  | listening hstage =>
      refine ⟨fun hstage => ?_, h.logger, fun i hi => ?_, Nat.zero_le _,
        fun hclosing => absurd hclosing hopen⟩
      · cases hstage
      · have hi := (h.worker i hi).1
        rw [forked, hstage] at hi
        exact absurd hi (Nat.not_lt_zero i)
  | @forkedWorker n hstage hn =>
      have hforked : s.forked = n := by rw [forked, hstage]
      refine ⟨fun hstage => ?_, fun hi => ?_, fun i hi => ?_, hn, fun hclosing => ?_⟩
      · cases hstage
      · exact h.logger (((alive_update rfl).mp hi).resolve_left (by rintro ⟨⟩))
      · rcases (alive_update rfl).mp hi with hi | hi
        · cases hi
          exact ⟨Nat.lt_succ_self n, Function.update_self _ _ _⟩
        · obtain ⟨hlt, hpid⟩ := h.worker i hi
          rw [hforked] at hlt
          exact ⟨hlt.trans (Nat.lt_succ_self n), (Function.update_of_ne hlt.ne _ _).trans hpid⟩
      · exact absurd (closing_update rfl hclosing) hopen
  | installed hstage =>
      have hforked : s.forked = s.workerCount := by rw [forked, hstage]
      refine ⟨fun hstage => ?_, fun hi => ?_, fun i hi => ?_, le_rfl, fun hclosing => ?_⟩
      · cases hstage
      · exact h.logger (((alive_update rfl).mp hi).resolve_left (by rintro ⟨⟩))
      · obtain ⟨hlt, hpid⟩ := h.worker i (((alive_update rfl).mp hi).resolve_left (by rintro ⟨⟩))
        exact ⟨hlt.trans_eq hforked, hpid⟩
      · exact absurd (closing_update rfl hclosing) hopen
  | failed hstage => exact h.destruct hmaster
  | unforkedLog hstage =>
      have hunborn := h.early (by rw [hstage]; rfl)
      have hsound : Sound { s with logPid := .everyone } := by
        refine ⟨h.early, fun ⟨handles, hi⟩ => ?_, h.worker, h.bound, h.closing⟩
        cases hunborn.symm.trans hi
      exact hsound.destruct hmaster
  | @unforkedWorker n hstage hn =>
      have hsound : Sound { s with workerPids := Function.update s.workerPids n .everyone } := by
        refine ⟨h.early, h.logger, fun i hi => ?_, h.bound, h.closing⟩
        obtain ⟨hlt, hpid⟩ := h.worker i hi
        have hforked : s.forked = n := by rw [forked, hstage]
        exact ⟨hlt, (Function.update_of_ne (hforked ▸ hlt).ne _ _).trans hpid⟩
      exact hsound.destruct hmaster
  | aborted => exact h.finish_quietly hmaster (by simp)

theorem Sound.signal (h : Sound s) : Sound (s.signal ts) :=
  ⟨h.early, h.logger, h.worker, h.bound, fun hclosing p hp =>
    Bool.or_eq_true_iff.mpr (.inl (h.closing hclosing p hp))⟩

theorem Sound.arm (h : Sound s) (hruns : s.runs p = true) : Sound (s.arm p) := by
  have hp := (runs_iff.mp hruns).1
  have hopen := h.not_closing hruns
  have halive : ∀ q, (s.arm p).Alive q → s.Alive q := by
    intro q hq
    rcases (alive_update rfl).mp hq with rfl | hq
    · exact hp
    · exact hq
  refine ⟨fun hstage => ?_, fun hq => h.logger (halive _ hq), fun i hq => h.worker i (halive _ hq),
    h.bound, fun hclosing => absurd (closing_update rfl hclosing) hopen⟩
  have hunborn := h.early hstage
  have hne : Proc.logger ≠ p := by
    rintro rfl
    obtain ⟨handles, hp⟩ := hp
    cases hunborn.symm.trans hp
  exact (Function.update_of_ne hne _ _).trans hunborn

theorem deliver_eq_ok : s.deliver p = .ok s' ↔ ∃ handles, s.status p = .alive handles ∧
    s.pending p = true ∧ s' = s.finish p (if handles then .handled else .interrupted)
      (if handles ∧ p = .master then s.children else []) := by
  unfold deliver
  cases s.status p with
  | unborn => simp
  | alive handles => by_cases hpending : s.pending p = true <;> simp [hpending, @eq_comm _ s']
  | gone how => simp

theorem sound_step {a : Act} (h : Sound s) (hstep : step s a = .ok s') : Sound s' := by
  cases a with
  | main x =>
      by_cases hruns : s.runs .master = true <;> simp [step, hruns] at hstep
      exact h.moved hruns (moved_of_mainStep hstep)
  | log x =>
      by_cases hruns : s.runs .logger = true <;> simp [step, hruns] at hstep
      rcases loggerStep_cases hstep with rfl | rfl | rfl
      · exact h
      · exact h.arm hruns
      · exact h.finish_logger (runs_iff.mp hruns).1
  | work i x =>
      by_cases hruns : s.runs (.worker i) = true <;> simp [step, hruns] at hstep
      rcases workerStep_cases hstep with rfl | rfl
      · exact h.arm hruns
      · exact h.finish_quietly (runs_iff.mp hruns).1 (by simp)
  | deliver p =>
      obtain ⟨handles, hstatus, -, rfl⟩ := deliver_eq_ok.mp hstep
      by_cases hmaster : handles = true ∧ p = .master
      · obtain ⟨rfl, rfl⟩ := hmaster
        exact h.finish_master ⟨_, hstatus⟩
      · refine h.finish_quietly ⟨handles, hstatus⟩ ⟨by cases handles <;> simp, fun hp => ?_⟩
        cases handles with
        | false => simp
        | true => exact absurd ⟨rfl, hp⟩ hmaster
  | interrupt t =>
      cases hstep
      exact h.signal

theorem sound_of_run {acts : List Act} (hrun : run step boot acts = .ok s) : Sound s :=
  run_invariant (fun _ _ _ hs _ hstep => sound_step hs hstep) sound_boot
    (guarded_true boot acts) hrun

/-! ### Nobody is left -/

theorem Closing.finish (hclosing : s.Closing) (hp : s.Alive p) : (s.finish p how ts).Closing := by
  have hgone : ∀ q end', s.status q = .gone end' → (s.finish p how ts).status q = .gone end' := by
    intro q end' hq
    have hne : q ≠ p := by
      rintro rfl
      exact not_alive_of_gone hq hp
    exact (Function.update_of_ne hne _ _).trans hq
  exact hclosing.imp (hgone _ _) (Or.imp (hgone _ _) (hgone _ _))

/-- Behind a shutdown the processes only take their signals. -/
theorem down_step {a : Act} (h : Sound s) (hclosing : s.Closing) (hstep : step s a = .ok s') :
    s'.Closing ∧ ((∃ p, a = .deliver p) ∨ ∃ t, a = .interrupt t) ∧
      ∀ p, s'.Alive p ↔ s.Alive p ∧ a ≠ .deliver p := by
  have hstill : ∀ p, s.runs p = false := fun p =>
    Bool.eq_false_iff.mpr fun hruns => h.not_closing hruns hclosing
  cases a with
  | main x => simp [step, hstill] at hstep
  | log x => simp [step, hstill] at hstep
  | work i x => simp [step, hstill] at hstep
  | deliver p =>
      obtain ⟨handles, hstatus, -, rfl⟩ := deliver_eq_ok.mp hstep
      refine ⟨hclosing.finish ⟨handles, hstatus⟩, .inl ⟨p, rfl⟩, fun q => ?_⟩
      rw [alive_finish, and_comm]
      exact and_congr_right' (by simp [eq_comm])
  | interrupt t =>
      cases hstep
      exact ⟨hclosing, .inr ⟨t, rfl⟩, fun p => (and_iff_left (by simp)).symm⟩

theorem down_run {acts : List Act} (h : Sound s) (hclosing : s.Closing)
    (hrun : run step s acts = .ok s') :
    (∀ a ∈ acts, (∃ p, a = .deliver p) ∨ ∃ t, a = .interrupt t) ∧
      ∀ p, (s'.Alive p ↔ s.Alive p ∧ .deliver p ∉ acts) ∧ (s'.Alive p → s'.pending p = true) := by
  induction acts generalizing s with
  | nil =>
      cases hrun
      exact ⟨by simp, fun p => ⟨by simp, h.closing hclosing p⟩⟩
  | cons a acts ih =>
      obtain ⟨s₁, hstep, hrest⟩ := bind_eq_ok.mp hrun
      obtain ⟨hclosing₁, hact, halive⟩ := down_step h hclosing hstep
      obtain ⟨hacts, hleft⟩ := ih (sound_step h hstep) hclosing₁ hrest
      refine ⟨List.forall_mem_cons.mpr ⟨hact, hacts⟩, fun p => ⟨?_, (hleft p).2⟩⟩
      rw [(hleft p).1, halive, List.mem_cons, not_or, and_assoc]
      exact and_congr_right' (and_congr_left' ne_comm)

/-- A shutdown reaches the whole server. Once the master has run its handler or
the end of `main`, or the log process has stopped, nothing happens any more but
that signals are sent and taken: no process is forked, and each one that was there
has a signal, and ends with taking it. -/
theorem server_goes_down {acts acts' : List Act} (hbefore : run step boot acts = .ok s)
    (hclosing : s.Closing) (hbehind : run step s acts' = .ok s') :
    (∀ a ∈ acts', (∃ p, a = .deliver p) ∨ ∃ t, a = .interrupt t) ∧
      ∀ p, (s'.Alive p ↔ s.Alive p ∧ .deliver p ∉ acts') ∧ (s'.Alive p → s'.pending p = true) :=
  down_run (sound_of_run hbefore) hclosing hbehind

def sampleConfig : Config := fun group =>
  if group = "system" then some
    { string := fun key => match key with
        | "bind_ip" => some "127.0.0.1".toList
        | "user" => some "developer".toList
        | "group" => some "developer".toList
        | "domain" => some "example.com".toList
        | "maildir" => some "/tmp/mail/".toList
        | _ => none
      int := fun key => match key with
        | "port" => some 2025
        | "process_count" => some 1
        | _ => none }
  else if group = "log" then some
    { string := fun key => if key = "log_file" then some "server.log".toList else none
      int := fun _ => none }
  else none

def sampleHost : Host where
  argc := 2
  config := some sampleConfig
  getpwnam _ := some 1000
  getgrnam _ := some 1000
  credentials := ⟨1000, 1000, 1000, 1000, 1000, 1000⟩
  patterns := true
  spool := true
  socket := true
  nonblock := true
  reuseAddr := true
  listen := true
  addressFree := true

def sampleActs : List Act :=
  [.main (.prepare sampleHost), .main (.forkLog true), .main (.listen sampleHost),
    .main (.forkWorker true), .main (.install true), .interrupt (.process .master),
    .deliver .master]

/-- The log process takes its signal before the worker does. -/
theorem server_goes_down_sample : ∃ s s', run step boot sampleActs = .ok s ∧
    run step s [.deliver .logger] = .ok s' ∧ ¬s'.Alive .logger ∧ s'.Alive (.worker 0) ∧
      s'.pending (.worker 0) = true := by
  have hruns : (run step boot sampleActs >>= fun s => run step s [.deliver .logger] >>= fun _ =>
      .ok (decide (s.status .master = .gone .handled) && s.isAlive (.worker 0))) = .ok true := by
    decide +kernel
  obtain ⟨s, hbefore, hrest⟩ := bind_eq_ok.mp hruns
  obtain ⟨s', hbehind, hfacts⟩ := bind_eq_ok.mp hrest
  simp only [Except.ok.injEq, Bool.and_eq_true, decide_eq_true_eq] at hfacts
  obtain ⟨-, hleft⟩ := server_goes_down hbefore (.inl hfacts.1) hbehind
  have hworker := (hleft (.worker 0)).1.mpr ⟨isAlive_iff.mp hfacts.2, by simp⟩
  exact ⟨s, s', hbefore, hbehind, fun h => ((hleft .logger).1.mp h).2 (by simp), hworker,
    (hleft (.worker 0)).2 hworker⟩

/-! ### Who else is reached -/

/-- A signal was sent to all processes of the user, or to whatever the memory of
`worker_pids` held. -/
def Strays (s : Processes) : Prop := .everyone ∈ s.told ∨ .unset ∈ s.told

def Failed (s : Processes) : Prop :=
  s.status .master = .gone .finished ∧ s.stage ≠ .start ∧
    ∀ opts credentials, s.stage = .listen opts credentials → 0 < s.workerCount

structure Known (s : Processes) : Prop where
  logPid : s.logPid = if s.stage.allocated then .process .logger else .group
  workerPids : ∀ i, s.workerPids i = if i < s.forked then .process (.worker i) else .unset
  armed : s.status .master = .alive true → s.stage = .loop

@[simp] theorem mem_children : t ∈ s.children ↔ t = s.logPid ∨
    s.stage.allocated = true ∧ ∃ i < s.workerCount, s.workerPids i = t := by
  by_cases hallocated : s.stage.allocated = true <;> simp [children, hallocated]

theorem strays_finish : (s.finish p how ts).Strays ↔
    s.Strays ∨ .everyone ∈ ts ∨ .unset ∈ ts := by
  simp only [Strays, finish, List.mem_append]
  tauto

theorem Known.everyone (h : Known s) : .everyone ∉ s.children := by
  rw [mem_children, h.logPid]
  rintro (heq | ⟨-, i, -, heq⟩)
  · split_ifs at heq
  · rw [h.workerPids] at heq
    split_ifs at heq

theorem Known.unset (h : Known s) :
    .unset ∈ s.children ↔ s.stage.allocated = true ∧ s.forked < s.workerCount := by
  rw [mem_children, h.logPid]
  constructor
  · rintro (heq | ⟨hallocated, i, hi, heq⟩)
    · split_ifs at heq
    · rw [h.workerPids] at heq
      split_ifs at heq with hlt
      exact ⟨hallocated, by omega⟩
  · rintro ⟨hallocated, hlt⟩
    exact .inr ⟨hallocated, s.forked, hlt, by rw [h.workerPids, if_neg (lt_irrefl _)]⟩

theorem not_failed (hp : s.Alive .master) : ¬s.Failed := fun hfailed =>
  not_alive_of_gone hfailed.1 hp

/-- While the master lives its variables are known; and a signal has strayed
exactly where the start failed. -/
def Told (s : Processes) : Prop := (s.Alive .master → Known s) ∧ (s.Strays ↔ s.Failed)

theorem told_boot : Told boot := by
  refine ⟨fun _ => ⟨rfl, fun i => rfl, fun h => ?_⟩, ?_⟩
  · cases h
  · exact iff_of_false (by simp [Strays, boot]) (not_failed ⟨false, rfl⟩)

theorem Told.not_strays (h : Told s) (hp : s.Alive .master) : ¬s.Strays := fun hstrays =>
  not_failed hp (h.2.mp hstrays)

theorem Told.go_on (h : Told s) (hp : s.Alive .master) (hp' : s'.Alive .master)
    (hsame : s'.told = s.told) (hknown : Known s') : Told s' := by
  refine ⟨fun _ => hknown, iff_of_false ?_ (not_failed hp')⟩
  rw [Strays, hsame]
  exact h.not_strays hp

theorem Told.finish_other (h : Told s) (hne : p ≠ .master)
    (hts : .everyone ∉ ts ∧ .unset ∉ ts) : Told (s.finish p how ts) := by
  have hstatus : (s.finish p how ts).status .master = s.status .master :=
    Function.update_of_ne hne.symm _ _
  refine ⟨fun hp => ?_, ?_⟩
  · have hknown := h.1 (alive_finish.mp hp).2
    exact ⟨hknown.logPid, hknown.workerPids, fun harmed => hknown.armed (hstatus ▸ harmed)⟩
  · rw [strays_finish, or_iff_left (not_or.mpr hts), h.2, Failed, Failed, hstatus]
    rfl

theorem told_finish_master (hnone : ¬s.Strays)
    (hts : .everyone ∈ ts ∨ .unset ∈ ts ↔ (s.finish .master how ts).Failed) :
    Told (s.finish .master how ts) := by
  refine ⟨fun hq => absurd rfl (alive_finish.mp hq).1, ?_⟩
  rw [strays_finish, or_iff_right hnone, hts]

theorem failed_destruct : s.destruct.Failed ↔ s.stage ≠ .start ∧
    ∀ opts credentials, s.stage = .listen opts credentials → 0 < s.workerCount := by
  simp [Failed, destruct, finish, signal]

theorem Told.moved (h : Told s) (hp : s.Alive .master) (hmoved : Moved s s') : Told s' := by
  have hknown := h.1 hp
  have hlog := hknown.logPid
  have hpids := hknown.workerPids
  have hnew : s.stage ≠ .loop → s.status .master ≠ .alive true := fun hstage harmed =>
    hstage (hknown.armed harmed)
  cases hmoved with
  | prepared hstage =>
      simp only [forked, hstage] at hlog hpids
      exact h.go_on hp hp rfl ⟨hlog, hpids, fun harmed => absurd harmed (hnew (by simp [hstage]))⟩
  | forkedLog hstage =>
      simp only [forked, hstage] at hpids
      exact h.go_on hp ((alive_update rfl).mpr (.inr hp)) rfl
        ⟨rfl, hpids, fun harmed => absurd harmed (hnew (by simp [hstage]))⟩
  | listening hstage =>
      simp only [forked, hstage] at hlog hpids
      exact h.go_on hp hp rfl ⟨hlog, hpids, fun harmed => absurd harmed (hnew (by simp [hstage]))⟩
  | @forkedWorker n hstage hn =>
      simp only [forked, hstage] at hlog hpids
      refine h.go_on hp ((alive_update rfl).mpr (.inr hp)) rfl
        ⟨hlog, fun i => ?_, fun harmed => absurd harmed (hnew (by simp [hstage]))⟩
      by_cases hi : i = n
      · subst hi
        simp [forked]
      · simp only [forked, Function.update_of_ne hi, hpids]
        exact if_congr (by omega) rfl rfl
  | installed hstage =>
      simp only [forked, hstage] at hlog hpids
      exact h.go_on hp ((alive_update rfl).mpr (.inr hp)) rfl ⟨hlog, hpids, fun _ => rfl⟩
  | failed hstage =>
      refine told_finish_master (h.not_strays hp) (Iff.trans ?_ failed_destruct.symm)
      rw [or_iff_right hknown.everyone, hknown.unset, forked]
      rcases hstage with hstage | ⟨opts, credentials, hstage⟩
      · simp [hstage, Stage.allocated]
      · simp [hstage, Stage.allocated]
  | unforkedLog hstage =>
      refine told_finish_master (h.not_strays hp) (iff_of_true (.inl ?_) (failed_destruct.mpr ?_))
      · exact mem_children.mpr (.inl rfl)
      · simp [hstage]
  | @unforkedWorker n hstage hn =>
      refine told_finish_master (h.not_strays hp) (iff_of_true (.inl ?_) (failed_destruct.mpr ?_))
      · exact mem_children.mpr (.inr ⟨by simp [hstage, Stage.allocated], n, hn, by simp⟩)
      · simp [hstage]
  | aborted =>
      exact told_finish_master (h.not_strays hp)
        (iff_of_false (by simp) (by simp [Failed, finish, signal]))

theorem Told.arm (h : Told s) (hne : p ≠ .master) : Told (s.arm p) := by
  have hstatus : (s.arm p).status .master = s.status .master :=
    Function.update_of_ne hne.symm _ _
  refine ⟨fun hmaster => ?_, ?_⟩
  · have hknown := h.1 (((alive_update rfl).mp hmaster).resolve_left hne.symm)
    exact ⟨hknown.logPid, hknown.workerPids, fun harmed => hknown.armed (hstatus ▸ harmed)⟩
  · rw [Failed, hstatus]
    exact h.2

theorem told_step {a : Act} (h : Told s) (hstep : step s a = .ok s') : Told s' := by
  cases a with
  | main x =>
      by_cases hruns : s.runs .master = true <;> simp [step, hruns] at hstep
      exact h.moved (runs_iff.mp hruns).1 (moved_of_mainStep hstep)
  | log x =>
      by_cases hruns : s.runs .logger = true <;> simp [step, hruns] at hstep
      rcases loggerStep_cases hstep with rfl | rfl | rfl
      · exact h
      · exact h.arm (by simp)
      · exact h.finish_other (by simp) (by simp)
  | work i x =>
      by_cases hruns : s.runs (.worker i) = true <;> simp [step, hruns] at hstep
      rcases workerStep_cases hstep with rfl | rfl
      · exact h.arm (by simp)
      · exact h.finish_other (by simp) (by simp)
  | deliver p =>
      obtain ⟨handles, hstatus, -, rfl⟩ := deliver_eq_ok.mp hstep
      by_cases hmaster : p = .master
      · subst hmaster
        have hp : s.Alive .master := ⟨handles, hstatus⟩
        have hknown := h.1 hp
        refine told_finish_master (h.not_strays hp) (iff_of_false ?_ ?_)
        · rintro (heveryone | hunset)
          · split_ifs at heveryone
            · exact hknown.everyone heveryone
            · cases heveryone
          · split_ifs at hunset with harmed
            · have hstage := hknown.armed (harmed.1 ▸ hstatus)
              obtain ⟨-, hlt⟩ := hknown.unset.mp hunset
              rw [forked, hstage] at hlt
              exact absurd hlt (lt_irrefl _)
            · cases hunset
        · cases handles <;> simp [Failed, finish, signal]
      · exact h.finish_other hmaster (by simp [hmaster])
  | interrupt t =>
      cases hstep
      exact ⟨fun hp => ⟨(h.1 hp).logPid, (h.1 hp).workerPids, (h.1 hp).armed⟩, h.2⟩

/-- The server signals a stranger exactly when its start fails at a `fork`, or at
the socket with workers still to be forked. -/
theorem strays_iff {acts : List Act} (hrun : run step boot acts = .ok s) :
    s.Strays ↔ s.Failed :=
  (run_invariant (fun _ _ _ hs _ hstep => told_step hs hstep) told_boot
    (guarded_true boot acts) hrun).2

/-- The log process cannot be forked. -/
theorem strays_iff_unforked : ∃ s, run step boot [.main (.prepare sampleHost),
    .main (.forkLog false)] = .ok s ∧ s.Strays := by
  refine ⟨_, rfl, (strays_iff (rfl : run step boot [.main (.prepare sampleHost),
    .main (.forkLog false)] = _)).mpr ⟨rfl, ?_, ?_⟩⟩
  · rintro ⟨⟩
  · rintro opts credentials ⟨⟩

end Processes

end SmtpProj.Server
