import SmtpProj.Client.Loop

/-!
The loop of a client process as a run of calls.

A pass makes at most one registration, one `select`, and then for every number
up to `maxfd`, in order, at most one read and one write, both for the slot that
the number was looked up in. So what holds of every run of calls holds of every
run of the loop. The loop ends the process where one of its calls does, or at a
number for which no slot was ever found.

The calls do not read `maxfd`, which only the loop raises.
-/

namespace SmtpProj.Client

open Lib

/-! ### The calls of a pass -/

def Pass.registers (p : Pass) : List Op :=
  match p.message with
  | none => []
  | some (path, connected) => if path = [] then [] else [.register path connected]

inductive Pass.Serves (p : Pass) : List ℤ → List Op → Prop
  | nil : p.Serves [] []
  | cons {fd : ℤ} {fds : List ℤ} {reads writes ops : List Op} (j : ℕ)
      (hreads : reads = [] ∨ reads = [.read j (p.reads fd)])
      (hwrites : writes = [] ∨ writes = [.write j (p.writes fd)]) (hrest : p.Serves fds ops) :
      p.Serves (fd :: fds) (reads ++ writes ++ ops)

def Pass.Makes (p : Pass) (ops : List Op) : Prop :=
  ∃ (top : ℕ) (served : List Op), p.Serves ((List.range top).map (↑)) served ∧
    ops = p.registers ++ .select p.readReady p.writeReady p.exceptReady :: served

namespace Child

variable {c c' c₁ : Child} {p : Pass}

def callIf (ready : Prop) [Decidable ready] (slot : Option ℕ) (op : ℕ → Op) (c : Child) :
    Except Halt Child :=
  if ready then callFor slot fun j => c.step (op j) else .ok c

theorem serveFd_eq (p : Pass) (x : Child × Option ℕ) (fd : ℤ) :
    serveFd p x fd =
      x.1.callIf (fd ∈ x.1.readFds) (x.1.lookup fd x.2) (.read · (p.reads fd)) >>= fun c =>
        c.callIf (fd ∈ c.writeFds) (x.1.lookup fd x.2) (.write · (p.writes fd)) >>= fun c =>
          .ok (c, x.1.lookup fd x.2) := rfl

theorem takeMessage_eq (p : Pass) (c : Child) : c.takeMessage p = run step c p.registers := by
  unfold takeMessage Pass.registers
  cases p.message with
  | none => rfl
  | some message =>
      simp only
      split_ifs
      · rfl
      · rw [run_singleton]
        rfl

/-- The process behind the call of `select`. -/
def selected (p : Pass) (c : Child) : Child :=
  { c.raiseMaxFd with
    readFds := c.readFds ∩ p.readReady
    writeFds := c.writeFds ∩ p.writeReady
    exceptFds := c.exceptFds ∩ p.exceptReady }

theorem pass_eq (p : Pass) (c : Child) :
    c.pass p = c.takeMessage p >>= fun c =>
      run (serveFd p) (c.selected p, none) (c.selected p).numbers >>= fun x => .ok x.1 := by
  unfold pass atSelect
  cases c.takeMessage p <;> rfl

theorem callIf_ok {ready : Prop} [Decidable ready] {slot : Option ℕ} {op : ℕ → Op}
    (h : c.callIf ready slot op = .ok c') :
    ∃ ops, (ops = [] ∨ ops = [op (slot.getD 0)]) ∧ run step c ops = .ok c' := by
  unfold callIf at h
  split_ifs at h
  · cases slot with
    | none => cases h
    | some j => exact ⟨[op j], .inr rfl, run_singleton.trans h⟩
  · exact ⟨[], .inl rfl, h⟩

theorem callIf_error {ready : Prop} [Decidable ready] {slot : Option ℕ} {op : ℕ → Op}
    {halt : Halt} (h : c.callIf ready slot op = .error halt) :
    c.step (op (slot.getD 0)) = .error halt ∨ halt = .badPointer ∧ ready ∧ slot = none := by
  unfold callIf at h
  split_ifs at h with hready
  cases slot with
  | none => exact .inr ⟨(Except.error.inj h).symm, hready, rfl⟩
  | some j => exact .inl h

theorem callIf_none {ready : Prop} [Decidable ready] {op : ℕ → Op}
    (h : c.callIf ready none op = .ok c') : c' = c := by
  unfold callIf at h
  split_ifs at h
  · cases h
  · exact (Except.ok.inj h).symm

/-- The second loop is a run of its calls. -/
theorem serve_ok {fds : List ℤ} {x x' : Child × Option ℕ}
    (h : run (serveFd p) x fds = .ok x') :
    ∃ ops, p.Serves fds ops ∧ run step x.1 ops = .ok x'.1 := by
  induction fds generalizing x with
  | nil =>
      cases h
      exact ⟨[], .nil, rfl⟩
  | cons fd fds ih =>
      obtain ⟨x₁, hserve, hrest⟩ := bind_eq_ok.mp h
      rw [serveFd_eq] at hserve
      obtain ⟨c₁, hread, hserve⟩ := bind_eq_ok.mp hserve
      obtain ⟨c₂, hwrite, hserve⟩ := bind_eq_ok.mp hserve
      cases hserve
      obtain ⟨reads, hreads, hrun₁⟩ := callIf_ok hread
      obtain ⟨writes, hwrites, hrun₂⟩ := callIf_ok hwrite
      obtain ⟨ops, hops, hrun⟩ := ih hrest
      refine ⟨reads ++ writes ++ ops, .cons _ hreads hwrites hops, ?_⟩
      rw [List.append_assoc, run_append_ok hrun₁, run_append_ok hrun₂, hrun]

/-- The next of the calls `rest` ends the process. -/
def FailsAt (c : Child) (rest : List Op) (halt : Halt) : Prop :=
  ∃ op, rest.head? = some op ∧ c.step op = .error halt

/-- The process ends at a number in its sets for which no slot is found. -/
def Slotless (c : Child) (halt : Halt) : Prop :=
  halt = .badPointer ∧ ∃ fd ∈ c.readFds ∪ c.writeFds, c.lookup fd none = none

/-- How the process ends in a pass that has made the calls `ops`, with `rest`
left: in the next of them, or behind `select`, at a ready number for which no
slot is found. -/
def EndsAt (c : Child) (p : Pass) (ops rest : List Op) (halt : Halt) : Prop :=
  c.FailsAt rest halt ∨
    .select p.readReady p.writeReady p.exceptReady ∈ ops ∧ c.Slotless halt

theorem lookup_none {fd : ℤ} {last : Option ℕ} (h : c.lookup fd last = none) :
    c.lookup fd none = none := by
  rw [lookup, Option.or_eq_none_iff] at h ⊢
  exact ⟨h.1, rfl⟩

theorem serves_nil (p : Pass) (fds : List ℤ) : p.Serves fds [] := by
  induction fds with
  | nil => exact .nil
  | cons fd fds ih => exact .cons 0 (.inl rfl) (.inl rfl) ih

/-- The second loop ends where one of its calls ends, or at a number without a
slot. -/
theorem serve_error {fds : List ℤ} {x : Child × Option ℕ} {halt : Halt}
    (h : run (serveFd p) x fds = .error halt) :
    ∃ ops rest c₁, p.Serves fds (ops ++ rest) ∧ run step x.1 ops = .ok c₁ ∧
      (c₁.FailsAt rest halt ∨ c₁.Slotless halt) := by
  induction fds generalizing x with
  | nil => cases h
  | cons fd fds ih =>
      rw [run_cons, serveFd_eq] at h
      cases hread : x.1.callIf (fd ∈ x.1.readFds) (x.1.lookup fd x.2) (.read · (p.reads fd)) with
      | error halt₁ =>
          rw [hread] at h
          cases h
          rcases callIf_error hread with hstep | ⟨hhalt, hready, hslot⟩
          · exact ⟨[], [.read _ (p.reads fd)], x.1,
              .cons _ (.inr rfl) (.inl rfl) (serves_nil p fds), rfl, .inl ⟨_, rfl, hstep⟩⟩
          · exact ⟨[], [], x.1, serves_nil p _, rfl,
              .inr ⟨hhalt, fd, Finset.mem_union_left _ hready, lookup_none hslot⟩⟩
      | ok c₁ =>
          obtain ⟨reads, hreads, hrun₁⟩ := callIf_ok hread
          rw [hread] at h
          cases hwrite : c₁.callIf (fd ∈ c₁.writeFds) (x.1.lookup fd x.2)
            (.write · (p.writes fd)) with
          | error halt₁ =>
              simp only [bind, Except.bind, hwrite] at h
              cases h
              rcases callIf_error hwrite with hstep | ⟨hhalt, hready, hslot⟩
              · refine ⟨reads, [.write _ (p.writes fd)], c₁, ?_, hrun₁, .inl ⟨_, rfl, hstep⟩⟩
                rw [← List.append_nil (reads ++ _)]
                exact .cons _ hreads (.inr rfl) (serves_nil p fds)
              · -- without a slot nothing was read either
                rw [hslot] at hread
                cases callIf_none hread
                exact ⟨[], [], x.1, serves_nil p _, rfl,
                  .inr ⟨hhalt, fd, Finset.mem_union_right _ hready, lookup_none hslot⟩⟩
          | ok c₂ =>
              obtain ⟨writes, hwrites, hrun₂⟩ := callIf_ok hwrite
              simp only [bind, Except.bind, hwrite] at h
              obtain ⟨ops, rest, c₃, hserves, hrun, hends⟩ := ih h
              refine ⟨reads ++ writes ++ ops, rest, c₃, ?_, ?_, hends⟩
              · rw [List.append_assoc (reads ++ writes)]
                exact .cons _ hreads hwrites hserves
              · rw [List.append_assoc, run_append_ok hrun₁, run_append_ok hrun₂, hrun]

/-! ### The highest number -/

/-- The process without its highest number. -/
def unmax (c : Child) : Child := { c with maxFd := 0 }

theorem registerNewEmail_eq {path domain : CStr} (hdomain : emailDomain path = .ok domain)
    (connected : Option ℕ) (c : Child) :
    c.registerNewEmail connected path = match c.findDomain domain with
      | none =>
          ({ c with
            place := some [], placeUser := some c.readyDomainsCount, placeOwner := none } :
              Child).registerDomain connected domain >>= fun c' =>
              .ok (c'.enqueue path c.readyDomainsCount)
      | some j =>
          ({ c with place := some [], placeUser := some j, placeOwner := none } :
            Child).reopenDomain connected j >>= fun c' => .ok (c'.enqueue path j) := by
  unfold registerNewEmail
  rw [hdomain]
  simp only [bind, Except.bind]
  cases c.findDomain domain <;> rfl

theorem initConnSettings_unmax (connected : Option ℕ) (j : ℕ) (c : Child) :
    (c.initMailDomainConnSettings connected j).map unmax =
      c.unmax.initMailDomainConnSettings connected j := by
  have hslot : c.unmax.dscrptrs j = c.dscrptrs j := rfl
  unfold initMailDomainConnSettings
  rw [hslot]
  cases (c.dscrptrs j).initConn connected with
  | error halt => rfl
  | ok d => cases connected <;> rfl

theorem registerDomain_unmax (connected : Option ℕ) (domain : CStr) (c : Child) :
    (c.registerDomain connected domain).map unmax =
      (c.unmax.registerDomain connected domain).map unmax := by
  have hready : c.unmax.readyDomainsCount = c.readyDomainsCount := rfl
  have hset : c.unmax.setDscrptr c.readyDomainsCount (c.nextDscrptr domain) =
      (c.setDscrptr c.readyDomainsCount (c.nextDscrptr domain)).unmax := rfl
  have hnext : c.unmax.nextDscrptr domain = c.nextDscrptr domain := rfl
  unfold registerDomain
  simp only [hready, hnext, hset, ← initConnSettings_unmax]
  split_ifs
  · cases (c.setDscrptr c.readyDomainsCount (c.nextDscrptr domain)).initMailDomainConnSettings
        connected c.readyDomainsCount <;> rfl
  · rfl

theorem reopenDomain_unmax (connected : Option ℕ) (j : ℕ) (c : Child) :
    (c.reopenDomain connected j).map unmax = c.unmax.reopenDomain connected j := by
  have hslot : c.unmax.dscrptrs j = c.dscrptrs j := rfl
  unfold reopenDomain
  rw [hslot]
  split_ifs
  · exact initConnSettings_unmax connected j c
  · rfl

theorem registerNewEmail_unmax (connected : Option ℕ) (path : CStr) (c : Child) :
    (c.registerNewEmail connected path).map unmax =
      (c.unmax.registerNewEmail connected path).map unmax := by
  have hfind : ∀ domain, c.unmax.findDomain domain = c.findDomain domain := fun _ => rfl
  have henter : ∀ (j : ℕ) (x : Except Halt Child),
      (x >>= fun c => .ok (c.enqueue path j)).map unmax =
        x.map unmax >>= fun c => .ok (c.enqueue path j) := fun j x => by cases x <;> rfl
  cases hdomain : emailDomain path with
  | error halt =>
      unfold registerNewEmail
      rw [hdomain]
      rfl
  | ok domain =>
      rw [registerNewEmail_eq hdomain, registerNewEmail_eq hdomain, hfind]
      cases c.findDomain domain with
      | none =>
          simp only [henter]
          rw [registerDomain_unmax]
          rfl
      | some j =>
          simp only [henter, reopenDomain_unmax]
          rfl

theorem handleWriteSocket_unmax (k : WriteKernel) (j : ℕ) (c : Child) :
    (c.handleWriteSocket k j).map unmax = c.unmax.handleWriteSocket k j := by
  have hsend : (c.unmax.dscrptrs j).sendMsgToServer k.now c.unmax.conf.hostName c.unmax.files
      (c.unmax.placeAt k) =
        (c.dscrptrs j).sendMsgToServer k.now c.conf.hostName c.files (c.placeAt k) := rfl
  unfold handleWriteSocket
  rw [hsend]
  cases (c.dscrptrs j).sendMsgToServer k.now c.conf.hostName c.files (c.placeAt k) with
  | error halt => rfl
  | ok r =>
      have htransmit : c.unmax.transmit k r = c.transmit k r := rfl
      simp only [bind, Except.bind, htransmit]
      cases (c.transmit k r).1 with
      | expired => 
          simp only [afterSend]
          cases hstep : clientFsmStep r.dscrptr.state .rtimeExpired <;> rfl
      | sent | failed | waiting => rfl

theorem handleReadSocket_unmax (results : List RecvResult) (j : ℕ) (c : Child) :
    (c.handleReadSocket results j).map unmax = c.unmax.handleReadSocket results j := by
  have hslot : c.unmax.dscrptrs j = c.dscrptrs j := rfl
  have hreceive : c.unmax.receive results (c.dscrptrs j) = c.receive results (c.dscrptrs j) := rfl
  unfold handleReadSocket
  rw [hslot, hreceive]
  cases c.receive results (c.dscrptrs j) with
  | none => rfl
  | some reply =>
      simp only
      cases (c.dscrptrs j).advance (checkServerCode reply) <;> rfl

/-- No call reads the highest number. -/
theorem step_unmax (op : Op) (c : Child) : (c.step op).map unmax = (c.unmax.step op).map unmax := by
  have hidem : ∀ x : Except Halt Child, (x.map unmax).map unmax = x.map unmax :=
    fun x => by cases x <;> rfl
  cases op with
  | register path connected => exact registerNewEmail_unmax connected path c
  | write j k =>
      exact (hidem _).symm.trans (congrArg (Except.map unmax) (handleWriteSocket_unmax k j c))
  | read j results =>
      exact (hidem _).symm.trans (congrArg (Except.map unmax) (handleReadSocket_unmax results j c))
  | select readReady writeReady exceptReady => rfl

theorem run_unmax (ops : List Op) (h : c.unmax = c₁.unmax) :
    (run step c ops).map unmax = (run step c₁ ops).map unmax := by
  induction ops generalizing c c₁ with
  | nil => exact congrArg Except.ok h
  | cons op ops ih =>
      have hstep : (c.step op).map unmax = (c₁.step op).map unmax := by
        rw [step_unmax op c, step_unmax op c₁, h]
      rw [run_cons, run_cons]
      cases hc : c.step op with
      | error halt =>
          cases hc₁ : c₁.step op with
          | error halt₁ =>
              rw [hc, hc₁] at hstep
              cases hstep
              rfl
          | ok c₁' =>
              rw [hc, hc₁] at hstep
              cases hstep
      | ok c' =>
          cases hc₁ : c₁.step op with
          | error halt₁ =>
              rw [hc, hc₁] at hstep
              cases hstep
          | ok c₁' =>
              rw [hc, hc₁] at hstep
              exact ih (Except.ok.inj hstep)

theorem run_ok_of_unmax {ops : List Op} (h : c.unmax = c₁.unmax) (hrun : run step c ops = .ok c') :
    ∃ c₁', run step c₁ ops = .ok c₁' ∧ c'.unmax = c₁'.unmax := by
  have heq := run_unmax ops h
  rw [hrun] at heq
  cases hrun₁ : run step c₁ ops with
  | error halt =>
      rw [hrun₁] at heq
      cases heq
  | ok c₁' =>
      rw [hrun₁] at heq
      exact ⟨c₁', rfl, Except.ok.inj heq⟩

theorem run_error_of_unmax {ops : List Op} {halt : Halt} (h : c.unmax = c₁.unmax)
    (hrun : run step c ops = .error halt) : run step c₁ ops = .error halt := by
  have heq := run_unmax ops h
  rw [hrun] at heq
  cases hrun₁ : run step c₁ ops with
  | error halt₁ =>
      rw [hrun₁] at heq
      cases heq
      rfl
  | ok c₁' =>
      rw [hrun₁] at heq
      cases heq

/-! ### The loop -/

/-- A pass that completes is a run of its calls. -/
theorem pass_ok (hsame : c.unmax = c₁.unmax) (h : c.pass p = .ok c') :
    ∃ ops c₁', p.Makes ops ∧ run step c₁ ops = .ok c₁' ∧ c'.unmax = c₁'.unmax := by
  rw [pass_eq] at h
  obtain ⟨c₀, hmessage, h⟩ := bind_eq_ok.mp h
  obtain ⟨⟨c₂, last⟩, hserve, h⟩ := bind_eq_ok.mp h
  cases h
  rw [takeMessage_eq] at hmessage
  obtain ⟨served, hserves, hrun⟩ := serve_ok hserve
  obtain ⟨c₀', hbefore, hsame₀⟩ := run_ok_of_unmax hsame hmessage
  have hraised : c₀.raiseMaxFd.unmax = c₀'.unmax := hsame₀
  have hrest : run step c₀.raiseMaxFd
      (.select p.readReady p.writeReady p.exceptReady :: served) = .ok c₂ := hrun
  obtain ⟨c₁', hbehind, hsame₁⟩ := run_ok_of_unmax hraised hrest
  exact ⟨_, c₁', ⟨((c₀.selected p).maxFd + 1).toNat, served, hserves, rfl⟩,
    (run_append_ok hbefore).trans hbehind, hsame₁⟩

theorem FailsAt.of_unmax {rest : List Op} {halt : Halt} (h : c.unmax = c₁.unmax)
    (hfails : c.FailsAt rest halt) : c₁.FailsAt rest halt := by
  obtain ⟨op, hnext, hstep⟩ := hfails
  exact ⟨op, hnext,
    run_singleton.symm.trans (run_error_of_unmax h (run_singleton.trans hstep))⟩

theorem Slotless.of_unmax {halt : Halt} (h : c.unmax = c₁.unmax) (hslotless : c.Slotless halt) :
    c₁.Slotless halt := by
  obtain ⟨hhalt, fd, hready, hslot⟩ := hslotless
  have hread : c.readFds = c₁.readFds := congrArg (·.readFds) h
  have hwrite : c.writeFds = c₁.writeFds := congrArg (·.writeFds) h
  have hlookup : c.unmax.lookup fd none = c₁.unmax.lookup fd none := by rw [h]
  refine ⟨hhalt, fd, ?_, hlookup.symm.trans hslot⟩
  rwa [← hread, ← hwrite]

/-- A pass that ends the process ends it between two of its calls. -/
theorem pass_error {halt : Halt} (hsame : c.unmax = c₁.unmax) (h : c.pass p = .error halt) :
    ∃ ops rest c₁', p.Makes (ops ++ rest) ∧ run step c₁ ops = .ok c₁' ∧
      c₁'.EndsAt p ops rest halt := by
  rw [pass_eq, takeMessage_eq] at h
  rcases bind_eq_error.mp h with hmessage | ⟨c₀, hmessage, h⟩
  · -- the only call in front of `select` is the registration
    refine ⟨[], p.registers ++ [.select p.readReady p.writeReady p.exceptReady], c₁,
      ⟨0, [], .nil, rfl⟩, rfl, .inl ?_⟩
    have hmessage₁ := run_error_of_unmax hsame hmessage
    unfold Pass.registers at hmessage₁ ⊢
    cases hpath : p.message with
    | none =>
        rw [hpath] at hmessage₁
        cases hmessage₁
    | some message =>
        rw [hpath] at hmessage₁
        simp only at hmessage₁ ⊢
        split_ifs at hmessage₁ ⊢
        · cases hmessage₁
        · exact ⟨_, rfl, run_singleton.symm.trans hmessage₁⟩
  · obtain ⟨c₀', hbefore, hsame₀⟩ := run_ok_of_unmax hsame hmessage
    rcases bind_eq_error.mp h with hserve | ⟨x, -, h⟩
    · obtain ⟨served, rest, c₂, hserves, hrun, hends⟩ := serve_error hserve
      have hrest : run step c₀.raiseMaxFd
          (.select p.readReady p.writeReady p.exceptReady :: served) = .ok c₂ := hrun
      have hraised : c₀.raiseMaxFd.unmax = c₀'.unmax := hsame₀
      obtain ⟨c₁', hbehind, hsame₁⟩ := run_ok_of_unmax hraised hrest
      exact ⟨p.registers ++ .select p.readReady p.writeReady p.exceptReady :: served, rest, c₁',
        ⟨((c₀.selected p).maxFd + 1).toNat, _, hserves, by simp⟩,
        (run_append_ok hbefore).trans hbehind,
        hends.imp (·.of_unmax hsame₁) fun hslotless => ⟨by simp, hslotless.of_unmax hsame₁⟩⟩
    · cases h

/-- The loop refines the calls. A run of passes is the run of the calls they
make, but for `maxfd`. One that ends the process ends it in a pass, behind some
of the calls of that pass: in its next call, or behind `select`, at a ready
number for which no slot is found. -/
theorem loop_refines_calls (c : Child) (ps : List Pass) :
    (∀ c', run pass c ps = .ok c' → ∃ opss c₁, List.Forall₂ Pass.Makes ps opss ∧
      run step c opss.flatten = .ok c₁ ∧ c'.unmax = c₁.unmax) ∧
    ∀ halt, run pass c ps = .error halt → ∃ before p behind opss ops rest c₁,
      ps = before ++ p :: behind ∧ List.Forall₂ Pass.Makes before opss ∧
      p.Makes (ops ++ rest) ∧ run step c (opss.flatten ++ ops) = .ok c₁ ∧
      c₁.EndsAt p ops rest halt := by
  have hboth : ∀ c₀ : Child, c₀.unmax = c.unmax →
      (∀ c', run pass c₀ ps = .ok c' → ∃ opss c₁, List.Forall₂ Pass.Makes ps opss ∧
        run step c opss.flatten = .ok c₁ ∧ c'.unmax = c₁.unmax) ∧
      ∀ halt, run pass c₀ ps = .error halt → ∃ before p behind opss ops rest c₁,
        ps = before ++ p :: behind ∧ List.Forall₂ Pass.Makes before opss ∧
        p.Makes (ops ++ rest) ∧ run step c (opss.flatten ++ ops) = .ok c₁ ∧
        c₁.EndsAt p ops rest halt := by
    induction ps generalizing c with
    | nil =>
        intro c₀ hsame
        refine ⟨fun c' h => ⟨[], c, .nil, rfl, ?_⟩, fun halt h => ?_⟩
        · cases h
          exact hsame
        · cases h
    | cons p ps ih =>
        intro c₀ hsame
        rw [run_cons]
        cases hpass : c₀.pass p with
        | error halt =>
            refine ⟨fun c' h => ?_, fun halt' h => ?_⟩
            · cases h
            · cases h
              obtain ⟨ops, rest, c₁, hmakes, hrun, hends⟩ := pass_error hsame hpass
              exact ⟨[], p, ps, [], ops, rest, c₁, rfl, .nil, hmakes, hrun, hends⟩
        | ok c₁ =>
            obtain ⟨ops, c₂, hmakes, hrun, hsame₁⟩ := pass_ok hsame hpass
            obtain ⟨hok, herror⟩ := ih c₂ c₁ hsame₁
            refine ⟨fun c' h => ?_, fun halt h => ?_⟩
            · obtain ⟨opss, c₃, hmakes', hrun', hsame'⟩ := hok c' h
              exact ⟨ops :: opss, c₃, .cons hmakes hmakes', (run_append_ok hrun).trans hrun',
                hsame'⟩
            · obtain ⟨before, p', behind, opss, ops', rest, c₃, hps, hmakes', hlast, hrun',
                hends⟩ := herror halt h
              refine ⟨p :: before, p', behind, ops :: opss, ops', rest, c₃, ?_,
                .cons hmakes hmakes', hlast, ?_, hends⟩
              · rw [hps]
                rfl
              · rw [List.flatten_cons, List.append_assoc, run_append_ok hrun, hrun']
  exact hboth c rfl

end Child

end SmtpProj.Client
