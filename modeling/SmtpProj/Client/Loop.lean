import SmtpProj.Client.Order
import SmtpProj.Client.Sockets

/-!
The loop of a client process, and whether it keeps watching every session.

A pass of `child_process_worker_start` takes a letter from the message queue,
waits in `select`, and calls the handlers for the numbers that are ready. The
sets that `select` is given are the only ones there are, and it leaves the
ready numbers in them: what was watched and is not ready is not watched any
more. So a session goes on being watched only if every `select` reports it.

When it does, the pass ends as it began. A reply moves the number to
`write_fds`, and the write handler is called for it in the same pass and moves
it back, so that at every `select` all sessions are in `read_fds`
(`Tended.reading`).
-/

namespace SmtpProj.Client

open Lib

structure Pass where
  /-- The path in the message queue, and the socket if a connection is tried. -/
  message : Option (CStr × Option ℕ)
  /-- The result of `select`; all empty after a timeout. -/
  readReady : Finset ℤ
  writeReady : Finset ℤ
  exceptReady : Finset ℤ
  /-- What the handlers get, by the number they are called for. -/
  reads : ℤ → List RecvResult
  writes : ℤ → WriteKernel

namespace Child

def raiseMaxFd (c : Child) : Child :=
  { c with
    maxFd := (List.range c.readyDomainsCount).foldl
      (fun maxFd i => max maxFd (c.dscrptrs i).socketFd) c.maxFd }

def takeMessage (p : Pass) (c : Child) : Except Halt Child :=
  match p.message with
  | none => .ok c
  | some (path, connected) => if path = [] then .ok c else c.registerNewEmail connected path

def atSelect (p : Pass) (c : Child) : Except Halt Child := do
  let c ← c.takeMessage p
  .ok c.raiseMaxFd

/-- A call of a handler; the pointer may never have been set. -/
def callFor (slot : Option ℕ) (handler : ℕ → Except Halt Child) : Except Halt Child :=
  match slot with
  | none => .error .badPointer
  | some j => handler j

/-- The body of the second loop, for the number `fd`. The slot that was looked
up last is kept for the next number. -/
def serveFd (p : Pass) (x : Child × Option ℕ) (fd : ℤ) : Except Halt (Child × Option ℕ) := do
  let slot := x.1.lookup fd x.2
  let c ← (if fd ∈ x.1.readFds then callFor slot fun j => x.1.handleReadSocket (p.reads fd) j
    else .ok x.1)
  let c ← (if fd ∈ c.writeFds then callFor slot fun j => c.handleWriteSocket (p.writes fd) j
    else .ok c)
  .ok (c, slot)

def numbers (c : Child) : List ℤ := (List.range (c.maxFd + 1).toNat).map (↑)

def pass (c : Child) (p : Pass) : Except Halt Child := do
  let c ← c.atSelect p
  let c ← c.step (.select p.readReady p.writeReady p.exceptReady)
  let (c, _) ← run (serveFd p) (c, none) c.numbers
  .ok c

/-! ### What is claimed, and when -/

def noteReply (j : ℕ) (awaiting : Bool) : Event → Bool
  | .connected i => if i = j then true else awaiting
  | .sent i _ => if i = j then true else awaiting
  | .answered i _ _ => if i = j then false else awaiting
  | .took _ _ _ => awaiting
  | .moved _ _ => awaiting

/-- The connection of slot `j` was opened, or accepted text, and nothing was
read since. -/
def awaitsReply (j : ℕ) (log : List Event) : Bool := log.foldl (noteReply j) false

/-- The session of slot `j` has an open connection and is not finished. -/
def Unfinished (j : ℕ) (c : Child) : Prop :=
  j < c.readyDomainsCount ∧ c.sockets (c.dscrptrs j).socketFd = some j ∧
    (c.dscrptrs j).state ≠ .done

/-- Every unfinished session is watched, and where it has to be. -/
def Attended (c : Child) : Prop :=
  ∀ j, c.Unfinished j → (c.dscrptrs j).socketFd ∈ c.watched ∧
    (awaitsReply j c.log = true → (c.dscrptrs j).socketFd ∈ c.readFds) ∧
      (awaitsReply j c.log = false → (c.dscrptrs j).state.command ≠ none →
        (c.dscrptrs j).socketFd ∈ c.writeFds)

/-- What is registered in slot `j` leaves no watched number behind: not its own
for which it takes another, and not one that another slot has too and loses. -/
def Leaves (connected : Option ℕ) (j : ℕ) (c : Child) : Prop :=
  if c.Connects j ∧ connected.isSome then
    j < c.readyDomainsCount → (c.dscrptrs j).socketFd ∉ c.watched
  else if c.Connects j ∨ (c.dscrptrs j).state = .done then
    (j < c.readyDomainsCount → (c.dscrptrs j).socketFd ∉ c.writeFds) ∧
      ∀ i < c.readyDomainsCount, i ≠ j → (c.dscrptrs i).socketFd = (c.dscrptrs j).socketFd →
        (c.dscrptrs j).socketFd ∉ c.readFds
  else True

/-- `select` finds every unfinished session that is watched for a reply
ready. -/
def Reported (p : Pass) (c : Child) : Prop :=
  ∀ j, c.Unfinished j → (c.dscrptrs j).socketFd ∈ c.readFds →
    (c.dscrptrs j).socketFd ∈ p.readReady

/-- The pass registers its letter so that nothing watched is left behind, and
its `select` reports every session. -/
def Fair (c : Child) (p : Pass) : Prop :=
  (∀ path connected domain, p.message = some (path, connected) → emailDomain path = .ok domain →
      c.Leaves connected (c.slotOf domain)) ∧
    ∀ c₁, c.atSelect p = .ok c₁ → c₁.Reported p

/-! ### Waiting for a reply -/

variable {c c' : Child} {fd : ℤ} {j : ℕ}

@[simp] theorem awaitsReply_append (j : ℕ) (log events : List Event) :
    awaitsReply j (log ++ events) = events.foldl (noteReply j) (awaitsReply j log) := by
  simp [awaitsReply, List.foldl_append]

theorem foldl_noteReply_took (j i : ℕ) (awaiting : Bool) (taken text : Option CStr) :
    (taken.toList.map fun path => Event.took i path text).foldl (noteReply j) awaiting =
      awaiting := by
  cases taken <;> rfl

@[simp] theorem foldl_noteReply_moved (j : ℕ) (awaiting : Bool) (moved : Option CStr) :
    (moved.toList.map fun path => Event.moved path (renameTarget path)).foldl (noteReply j)
      awaiting = awaiting := by
  cases moved <;> rfl

theorem foldl_noteReply_sendAll (j : ℕ) (owner : Option ℕ) (awaiting : Bool)
    (writes : ℕ → Option ℕ) (n : ℕ) (data : List CStr) :
    (sendAll owner writes n data).2.foldl (noteReply j) awaiting =
      if owner = some j ∧ (sendAll owner writes n data).2 ≠ [] then true else awaiting := by
  induction data generalizing n awaiting with
  | nil => simp [sendAll]
  | cons text rest ih =>
      cases owner with
      | none => simp [sendAll_closed]
      | some o =>
          cases hn : writes n with
          | none => simp [sendAll, sendData, hn, ih]
          | some m =>
              by_cases ho : o = j
              · subst ho
                simp [sendAll, sendData, hn, ih true (n + 1), noteReply]
              · simp [sendAll, sendData, hn, ih, noteReply, ho]

theorem awaitsReply_of_write {k : WriteKernel} {r : Sending} {i : ℕ} (hw : Wrote k i r c c') :
    awaitsReply j c'.log =
      if c.sockets r.dscrptr.socketFd = some j ∧ (c.transmit k r).2 ≠ [] then true
      else awaitsReply j c.log := by
  have hsent : ∀ awaiting, (c.transmit k r).2.foldl (noteReply j) awaiting =
      if c.sockets r.dscrptr.socketFd = some j ∧ (c.transmit k r).2 ≠ [] then true
      else awaiting := by
    intro awaiting
    unfold transmit
    cases r.early with
    | some code => simp
    | none => exact foldl_noteReply_sendAll j _ awaiting _ _ _
  rw [hw.log, awaitsReply_append, hsent]
  simp only [applySending, awaitsReply_append, foldl_noteReply_took, foldl_noteReply_moved]

/-! ### What every pass keeps -/

/-- Every watched number stands in a slot, no session has to wait before it
writes, and all unfinished ones are in `read_fds`. -/
structure Tended (c : Child) : Prop where
  filed : c.Filed
  named : ∀ fd ∈ c.watched, ∃ j < c.readyDomainsCount, (c.dscrptrs j).socketFd = fd
  prompt : c.Prompt
  reading : ∀ j, c.Unfinished j → (c.dscrptrs j).socketFd ∈ c.readFds ∧
    ((c.dscrptrs j).state.command = none ∨ awaitsReply j c.log = true)

theorem tended_boot (conf : Conf) (files : CStr → Option (List Char)) (memory : ℕ → Dscrptr) :
    (bootChild conf files memory).Tended :=
  ⟨filed_boot conf files memory, by simp [watched, bootChild],
    prompt_boot conf files memory, fun j hj => absurd hj.1 (Nat.not_lt_zero j)⟩

theorem Tended.attended (h : c.Tended) : c.Attended := by
  intro j hj
  obtain ⟨hread, hawaits⟩ := h.reading j hj
  refine ⟨mem_watched.mpr (.inl hread), fun _ => hread, fun hnot hcommand => ?_⟩
  rcases hawaits with hnone | hawaits
  · exact absurd hnone hcommand
  · rw [hnot] at hawaits
    cases hawaits

theorem lookup_of_named (h : ∃ j < c.readyDomainsCount, (c.dscrptrs j).socketFd = fd)
    (last : Option ℕ) :
    ∃ j < c.readyDomainsCount, (c.dscrptrs j).socketFd = fd ∧ c.lookup fd last = some j := by
  obtain ⟨i, hi, hnumber⟩ := h
  have hsome : ((List.range c.readyDomainsCount).find?
      fun j => (c.dscrptrs j).socketFd = fd).isSome := by
    rw [List.find?_isSome]
    exact ⟨i, by simpa using hi, by simpa using hnumber⟩
  obtain ⟨j, hj⟩ := Option.isSome_iff_exists.mp hsome
  refine ⟨j, by simpa using List.mem_of_find?_eq_some hj, by simpa using List.find?_some hj, ?_⟩
  rw [lookup, hj, Option.some_or]

/-! ### Registering -/

/-- An opened connection is watched for its greeting, in place of a number that
was not watched. -/
theorem Tended.opened {path : CStr} {attempt : Option ℕ} {d : Dscrptr} {fd : ℕ} (h : c.Tended)
    (hfiled : c'.Filed) (hprompt : c'.Prompt) (hreg : Registers path j attempt d c c')
    (hj : j ≤ c.readyDomainsCount)
    (hold : j < c.readyDomainsCount → (c.dscrptrs j).socketFd ∉ c.watched)
    (hnumber : (c'.dscrptrs j).socketFd = fd)
    (hsockets : c'.sockets = Function.update c.sockets fd (some j))
    (hreads : c'.readFds = insert (fd : ℤ) c.readFds) (hlog : c'.log = c.log ++ [.connected j]) :
    c'.Tended := by
  refine ⟨hfiled, fun x hx => ?_, hprompt, fun i hi => ?_⟩
  · rw [mem_watched, hreads, hreg.writeFds, Finset.mem_insert, or_assoc] at hx
    rcases hx with rfl | hx
    · exact ⟨j, hreg.ready_self, hnumber⟩
    · obtain ⟨i, hi, hx'⟩ := h.named x (mem_watched.mpr hx)
      have hij : i ≠ j := by
        rintro rfl
        exact hold hi (hx' ▸ mem_watched.mpr hx)
      exact ⟨i, hreg.ready_old hi, by rw [hreg.other hij, hx']⟩
  · obtain ⟨hi, hsocket, hstate⟩ := hi
    by_cases hij : i = j
    · subst hij
      rw [hnumber, hreads, hlog]
      exact ⟨Finset.mem_insert_self _ _, .inr (by simp [noteReply])⟩
    · rw [hreg.other hij] at hsocket hstate ⊢
      rw [hsockets] at hsocket
      obtain ⟨hne, hsocket⟩ := sockets_of_open hij hsocket
      obtain ⟨hread, hawaits⟩ := h.reading i ⟨hreg.ready_of_ne hj hi hij, hsocket, hstate⟩
      rw [hreads, hlog]
      refine ⟨Finset.mem_insert_of_mem hread, hawaits.imp_right fun hawaits => ?_⟩
      simp [noteReply, Ne.symm hij, hawaits]

/-- With a letter that is dropped the session of the slot is over, and its number
is not watched for anybody else. -/
theorem Tended.dropped {path : CStr} {attempt : Option ℕ} {d : Dscrptr} (h : c.Tended)
    (hfiled : c'.Filed) (hprompt : c'.Prompt) (hreg : Registers path j attempt d c c')
    (hj : j ≤ c.readyDomainsCount)
    (hwrites : j < c.readyDomainsCount → (c.dscrptrs j).socketFd ∉ c.writeFds)
    (hshared : ∀ i < c.readyDomainsCount, i ≠ j →
      (c.dscrptrs i).socketFd = (c.dscrptrs j).socketFd → (c.dscrptrs j).socketFd ∉ c.readFds)
    (hstate : (c'.dscrptrs j).state = .done) (hsockets : c'.sockets = c.sockets)
    (hreads : c'.readFds = c.readFds.erase (c.dscrptrs j).socketFd) (hlog : c'.log = c.log) :
    c'.Tended := by
  refine ⟨hfiled, fun x hx => ?_, hprompt, fun i hi => ?_⟩
  · rw [mem_watched, hreads, hreg.writeFds, Finset.mem_erase] at hx
    obtain ⟨i, hi, hx'⟩ := h.named x (mem_watched.mpr (hx.imp_left And.right))
    have hij : i ≠ j := by
      rintro rfl
      rcases hx with ⟨hne, -⟩ | hw
      · exact hne hx'.symm
      · exact hwrites hi (hx' ▸ hw)
    exact ⟨i, hreg.ready_old hi, by rw [hreg.other hij, hx']⟩
  · obtain ⟨hi, hsocket, hunfinished⟩ := hi
    have hij : i ≠ j := by
      rintro rfl
      exact hunfinished hstate
    have hready : i < c.readyDomainsCount := hreg.ready_of_ne hj hi hij
    rw [hreg.other hij, hsockets] at hsocket
    rw [hreg.other hij] at hunfinished ⊢
    obtain ⟨hread, hawaits⟩ := h.reading i ⟨hready, hsocket, hunfinished⟩
    rw [hreads, hlog, Finset.mem_erase]
    refine ⟨⟨fun heq => ?_, hread⟩, hawaits⟩
    exact hshared i hready hij heq (heq ▸ hread)

theorem named_of_same
    (h : ∀ fd ∈ c.watched, ∃ j < c.readyDomainsCount, (c.dscrptrs j).socketFd = fd)
    (hsame : SameNumbers c c') (hwatched : c'.watched ⊆ c.watched) :
    ∀ fd ∈ c'.watched, ∃ j < c'.readyDomainsCount, (c'.dscrptrs j).socketFd = fd := by
  intro fd hfd
  obtain ⟨j, hj, hnumber⟩ := h fd (hwatched hfd)
  exact ⟨j, hsame.ready ▸ hj, (hsame.numbers j).trans hnumber⟩

theorem Tended.added {path : CStr} {attempt : Option ℕ} {d : Dscrptr} (h : c.Tended)
    (hfiled : c'.Filed) (hprompt : c'.Prompt) (hreg : Registers path j attempt d c c')
    (hready : j < c.readyDomainsCount)
    (hnumber : (c'.dscrptrs j).socketFd = (c.dscrptrs j).socketFd)
    (hstate : (c'.dscrptrs j).state = (c.dscrptrs j).state) (hsockets : c'.sockets = c.sockets)
    (hreads : c'.readFds = c.readFds) (hlog : c'.log = c.log) : c'.Tended := by
  have hsame : SameNumbers c c' := hreg.sameNumbers hready hnumber
  have hstates : ∀ i, (c'.dscrptrs i).state = (c.dscrptrs i).state := by
    intro i
    by_cases hij : i = j
    · rw [hij, hstate]
    · rw [hreg.other hij]
  have hwatched : c'.watched ⊆ c.watched := by rw [watched, watched, hreads, hreg.writeFds]
  refine ⟨hfiled, named_of_same h.named hsame hwatched, hprompt, fun i hi => ?_⟩
  obtain ⟨hi, hsocket, hunfinished⟩ := hi
  rw [hsame.numbers, hsockets] at hsocket
  rw [hstates] at hunfinished
  rw [hsame.numbers, hstates, hreads, hlog]
  exact h.reading i ⟨hsame.ready ▸ hi, hsocket, hunfinished⟩

theorem Tended.register {path : CStr} {connected : Option ℕ} (h : c.Tended)
    (hleaves : ∀ domain, emailDomain path = .ok domain → c.Leaves connected (c.slotOf domain))
    (hstep : c.registerNewEmail connected path = .ok c') : c'.Tended := by
  have hfiled := h.filed.step (.register path connected) hstep
  have hprompt : c'.Prompt :=
    h.prompt.step (show c.step (.register path connected) = .ok c' from hstep)
  obtain ⟨domain, j, attempt, d, hdomain, hreach, hreg⟩ := registerNewEmail_ok hstep
  have hleave : c.Leaves connected j := by
    rw [← hreach.slotOf h.filed]
    exact hleaves domain hdomain
  cases hreach.registered hreg with
  | opened hconnects hconnected hnumber hsockets hreads hlog =>
      refine h.opened hfiled hprompt hreg hreach.le ?_ hnumber hsockets hreads hlog
      simpa [Leaves, hconnects, hconnected] using hleave
  | dropped hwhy hnumber hstate hsockets hreads hlog =>
      have hold : (j < c.readyDomainsCount → (c.dscrptrs j).socketFd ∉ c.writeFds) ∧
          ∀ i < c.readyDomainsCount, i ≠ j → (c.dscrptrs i).socketFd = (c.dscrptrs j).socketFd →
            (c.dscrptrs j).socketFd ∉ c.readFds := by
        rcases hwhy with ⟨hconnects, rfl⟩ | ⟨hconnects, hdone⟩
        · simpa [Leaves, hconnects] using hleave
        · simpa [Leaves, hconnects, hdone] using hleave
      exact h.dropped hfiled hprompt hreg hreach.le hold.1 hold.2 hstate hsockets hreads hlog
  | added hbusy hdone hnumber hstate hsockets hreads hlog =>
      exact h.added hfiled hprompt hreg (ready_of_not_connects hbusy) hnumber hstate hsockets
        hreads hlog

/-! ### The handlers -/

/-- In the middle of the handling of `fd`, for slot `j`: whether the number is
in `read_fds` is open. -/
structure Tending (fd : ℤ) (j : ℕ) (c : Child) : Prop where
  filed : c.Filed
  named : ∀ fd ∈ c.watched, ∃ j < c.readyDomainsCount, (c.dscrptrs j).socketFd = fd
  prompt : c.Prompt
  reading : ∀ i, c.Unfinished i → (c.dscrptrs i).socketFd ≠ fd →
    (c.dscrptrs i).socketFd ∈ c.readFds ∧
      ((c.dscrptrs i).state.command = none ∨ awaitsReply i c.log = true)
  others : ∀ i, c.Unfinished i → (c.dscrptrs i).socketFd = fd → i ≠ j →
    (c.dscrptrs i).state.command = none ∨ awaitsReply i c.log = true

theorem Tended.tending (h : c.Tended) (fd : ℤ) (j : ℕ) : Tending fd j c :=
  ⟨h.filed, h.named, h.prompt, fun i hi _ => h.reading i hi, fun i hi _ _ => (h.reading i hi).2⟩

/-- A reply leaves the other slots, and what they wait for, as they are. -/
theorem others_of_read {results : List RecvResult} {i : ℕ} (hij : i ≠ j)
    (hstep : c.handleReadSocket results j = .ok c') :
    c'.dscrptrs i = c.dscrptrs i ∧ awaitsReply i c'.log = awaitsReply i c.log ∧
      (c'.Unfinished i → c.Unfinished i) := by
  obtain ⟨reply, d, -, hd, rfl⟩ := handleReadSocket_ok.mp hstep
  have hslot : (((c.setDscrptr j d).record
      [.answered j (c.dscrptrs j).state reply]).afterReply d).dscrptrs i = c.dscrptrs i := by
    simp [afterReply, record, setDscrptr, hij]
  refine ⟨hslot, ?_, ?_⟩
  · simp [afterReply, record, setDscrptr, noteReply, Ne.symm hij]
  · rintro ⟨hi, hsocket, hstate⟩
    rw [hslot] at hsocket hstate
    refine ⟨hi, ?_, hstate⟩
    simp only [afterReply, record, setDscrptr] at hsocket
    split_ifs at hsocket
    · rw [Function.update_apply] at hsocket
      split_ifs at hsocket
      exact hsocket
    · exact hsocket

theorem Tended.read {results : List RecvResult} (h : c.Tended)
    (hnumber : (c.dscrptrs j).socketFd = fd) (hfd : fd ∈ c.readFds)
    (hstep : c.handleReadSocket results j = .ok c') :
    Tending fd j c' ∧ (fd ∉ c'.writeFds → c'.Tended) := by
  have hsame := sameNumbers_of_read hstep
  have hnamed := named_of_same h.named hsame
    (watched_of_read (hnumber ▸ mem_watched.mpr (.inl hfd)) hstep)
  have hfiled : c'.Filed := h.filed.step (.read j results) hstep
  have hprompt : c'.Prompt := h.prompt.step (show c.step (.read j results) = .ok c' from hstep)
  obtain ⟨reply, d, -, hd, hc'⟩ := handleReadSocket_ok.mp hstep
  have hd_number : d.socketFd = fd := (Dscrptr.advance_kept hd).2.1.trans hnumber
  have hreadFds : c'.readFds = c.readFds.erase fd := by
    rw [hc', ← hd_number]
    rfl
  have htending : Tending fd j c' := by
    refine ⟨hfiled, hnamed, hprompt, fun i hi hne => ?_, fun i hi _ hij => ?_⟩
    · have hij : i ≠ j := by
        rintro rfl
        exact hne ((hsame.numbers i).trans hnumber)
      obtain ⟨hslot, hlog, hold⟩ := others_of_read hij hstep
      obtain ⟨hread, hawaits⟩ := h.reading i (hold hi)
      rw [hslot] at hne
      rw [hlog, hslot, hreadFds]
      exact ⟨Finset.mem_erase.mpr ⟨hne, hread⟩, hawaits⟩
    · obtain ⟨hslot, hlog, hold⟩ := others_of_read hij hstep
      rw [hlog, hslot]
      exact (h.reading i (hold hi)).2
  refine ⟨htending, fun hunwatched => ⟨hfiled, hnamed, hprompt, fun i hi => ?_⟩⟩
  -- a number that is not in `write_fds` then was closed
  subst hc'
  have hclosed : d.state = .init := by
    by_contra hne
    apply hunwatched
    simp only [afterReply, if_neg hne, hd_number]
    exact Finset.mem_insert_self _ _
  refine htending.reading i hi fun heq => ?_
  obtain ⟨-, hsocket, -⟩ := hi
  rw [heq] at hsocket
  simp [afterReply, hclosed, hd_number] at hsocket

/-- No session waits, so a call sends or fails. -/
theorem Prompt.sent_or_failed {k : WriteKernel} {r : Sending} (h : c.Prompt)
    (hj : j < c.readyDomainsCount)
    (hr : (c.dscrptrs j).sendMsgToServer k.now c.conf.hostName c.files (c.placeAt k) = .ok r) :
    (c.transmit k r).1 = .sent ∨ (c.transmit k r).1 = .failed := by
  have hnone : r.early = none := by
    rw [(Dscrptr.sendMsgToServer_ok hr).2, Dscrptr.retry, if_neg (by simp [h j hj])]
  rcases transmit_fst k r c with hsome | ⟨-, hcode⟩
  · rw [hnone] at hsome
    cases hsome
  · exact hcode

theorem Tending.write {k : WriteKernel} (h : Tending fd j c) (hj : j < c.readyDomainsCount)
    (hnumber : (c.dscrptrs j).socketFd = fd) (hfd : fd ∈ c.writeFds)
    (hstep : c.handleWriteSocket k j = .ok c') : c'.Tended := by
  have hsame := sameNumbers_of_write hstep
  refine ⟨h.filed.step (.write j k) hstep, named_of_same h.named hsame
    (watched_of_write (hnumber ▸ mem_watched.mpr (.inr hfd)) hstep),
    h.prompt.step (show c.step (.write j k) = .ok c' from hstep), fun i hi => ?_⟩
  obtain ⟨r, hr, hw⟩ := handleWriteSocket_ok hstep
  obtain ⟨hprep, -⟩ := Dscrptr.sendMsgToServer_ok hr
  have hr_number : r.dscrptr.socketFd = fd := hprep.socketFd.trans hnumber
  have hcode := h.prompt.sent_or_failed hj hr
  obtain ⟨hi, hsocket, hunfinished⟩ := hi
  have hstate : (c'.dscrptrs i).state = (c.dscrptrs i).state := by
    rw [hw.dscrptrs]
    by_cases hij : i = j
    · rw [hij, Function.update_self, hprep.state]
    · rw [Function.update_of_ne hij]
  rw [hstate] at hunfinished
  rw [hsame.numbers, hw.sockets, hr_number] at hsocket
  rw [hsame.numbers, hstate, hw.readFds, awaitsReply_of_write hw, hr_number]
  by_cases heq : (c.dscrptrs i).socketFd = fd
  · -- the number that is served is open, so the call has sent
    rw [heq] at hsocket ⊢
    have hsent : (c.transmit k r).1 = .sent := by
      refine hcode.resolve_right fun hfailed => ?_
      rw [if_pos hfailed, Function.update_self] at hsocket
      cases hsocket
    rw [if_neg (by simp [hsent])] at hsocket
    rw [if_pos hsent]
    refine ⟨Finset.mem_insert_self _ _, ?_⟩
    by_cases hij : i = j
    · subst hij
      cases hx : (c.dscrptrs i).state.command with
      | none => exact .inl rfl
      | some x => exact .inr (if_pos ⟨hsocket, accepted_of_sent hx hr hsent⟩)
    · refine (h.others i ⟨hsame.ready ▸ hi, heq ▸ hsocket, hunfinished⟩ heq hij).imp_right ?_
      intro hawaits
      simp [hawaits]
  · have hold : c.Unfinished i := by
      refine ⟨hsame.ready ▸ hi, ?_, hunfinished⟩
      split_ifs at hsocket
      · rwa [Function.update_of_ne heq] at hsocket
      · exact hsocket
    obtain ⟨hread, hawaits⟩ := h.reading i hold heq
    refine ⟨?_, hawaits.imp_right fun hawaits => by simp [hawaits]⟩
    split_ifs
    · exact Finset.mem_insert_of_mem hread
    · exact hread

/-! ### The loop -/

theorem Tended.serveFd {p : Pass} {last : Option ℕ} {x' : Child × Option ℕ} (h : c.Tended)
    (hstep : serveFd p (c, last) fd = .ok x') : x'.1.Tended := by
  unfold Child.serveFd at hstep
  obtain ⟨c₁, hread, hstep⟩ := bind_eq_ok.mp hstep
  obtain ⟨c₂, hwrite, hstep⟩ := bind_eq_ok.mp hstep
  cases hstep
  by_cases hfd : fd ∈ c.watched
  · obtain ⟨j, hj, hnumber, hlookup⟩ := lookup_of_named (h.named fd hfd) last
    simp only [hlookup, callFor] at hread hwrite
    have hafter : Tending fd j c₁ ∧ (fd ∉ c₁.writeFds → c₁.Tended) ∧
        j < c₁.readyDomainsCount ∧ (c₁.dscrptrs j).socketFd = fd := by
      split_ifs at hread with hmem
      · have hsame := sameNumbers_of_read hread
        obtain ⟨htending, htended⟩ := h.read hnumber hmem hread
        exact ⟨htending, htended, hsame.ready ▸ hj, (hsame.numbers j).trans hnumber⟩
      · cases hread
        exact ⟨h.tending fd j, fun _ => h, hj, hnumber⟩
    obtain ⟨htending, htended, hj₁, hnumber₁⟩ := hafter
    split_ifs at hwrite with hmem
    · exact htending.write hj₁ hnumber₁ hmem hwrite
    · cases hwrite
      exact htended hmem
  · rw [mem_watched, not_or] at hfd
    rw [if_neg hfd.1] at hread
    cases hread
    rw [if_neg hfd.2] at hwrite
    cases hwrite
    exact h

theorem Tended.atSelect {p : Pass} (h : c.Tended) (hfair : c.Fair p)
    (hstep : c.atSelect p = .ok c') : c'.Tended := by
  obtain ⟨c₁, hmessage, hstep⟩ := bind_eq_ok.mp hstep
  cases hstep
  have h₁ : c₁.Tended := by
    unfold takeMessage at hmessage
    split at hmessage
    next =>
      cases hmessage
      exact h
    next path connected hp =>
      split_ifs at hmessage
      · cases hmessage
        exact h
      · exact h.register (fun domain => hfair.1 path connected domain hp) hmessage
  exact ⟨⟨h₁.filed.distinct, h₁.filed.letters⟩, h₁.named, h₁.prompt, h₁.reading⟩

theorem Tended.pass {p : Pass} (h : c.Tended) (hfair : c.Fair p) (hstep : c.pass p = .ok c') :
    c'.Tended := by
  obtain ⟨c₁, hselect, hstep⟩ := bind_eq_ok.mp hstep
  obtain ⟨c₂, hready, hstep⟩ := bind_eq_ok.mp hstep
  obtain ⟨⟨c₃, last⟩, hserve, hstep⟩ := bind_eq_ok.mp hstep
  cases hstep
  have h₁ := h.atSelect hfair hselect
  have hreported := hfair.2 c₁ hselect
  cases hready
  -- what `select` leaves in the sets
  have h₂ : Tended { c₁ with
      readFds := c₁.readFds ∩ p.readReady
      writeFds := c₁.writeFds ∩ p.writeReady
      exceptFds := c₁.exceptFds ∩ p.exceptReady } := by
    refine ⟨⟨h₁.filed.distinct, h₁.filed.letters⟩, fun fd hfd => h₁.named fd ?_, h₁.prompt,
      fun j hj => ?_⟩
    · refine mem_watched.mpr ((mem_watched.mp hfd).imp ?_ ?_) <;>
        exact Finset.mem_of_mem_inter_left
    · have hj₁ : c₁.Unfinished j := hj
      obtain ⟨hread, hawaits⟩ := h₁.reading j hj₁
      exact ⟨Finset.mem_inter.mpr ⟨hread, hreported j hj₁ hread⟩, hawaits⟩
  exact run_invariant (P := fun x : Child × Option ℕ => x.1.Tended)
    (fun x fd x' hx _ hok => Tended.serveFd hx hok) h₂ (guarded_true _ _) hserve

/-- No session starves, in a run whose passes are all fair: at every `select`
the sessions that have an open connection and are not finished are watched, for
a reply or for their next command. -/
theorem attended_of_fair {conf : Conf} {files : CStr → Option (List Char)} {memory : ℕ → Dscrptr}
    {ps : List Pass} (hfair : Along pass Fair (bootChild conf files memory) ps) :
    Along pass (fun c p => ∀ c₁, c.atSelect p = .ok c₁ → c₁.Attended)
      (bootChild conf files memory) ps :=
  along_of_invariant (fun _ _ _ hc hp hok => Tended.pass hc hp hok)
    (fun _ _ hc hp _ hok => (Tended.atSelect hc hp hok).attended) (tended_boot conf files memory)
    hfair

def samplePass (message : Option (CStr × Option ℕ)) (ready : Finset ℤ) : Pass where
  message := message
  readReady := ready
  writeReady := ∅
  exceptReady := ∅
  reads := fun _ => sampleReply "220"
  writes := fun _ => sampleWrites

def openingPass (ready : Finset ℤ) : Pass := samplePass (some (sampleLetter "a.b", some 5)) ready

theorem attended_opening : Along pass (fun c p => ∀ c₁, c.atSelect p = .ok c₁ → c₁.Attended)
    sampleChild [openingPass {5}, samplePass none {5}] := by
  have hfirst : (sampleChild.atSelect (openingPass {5})).map (fun c => decide (c.readFds ⊆ {5})) =
      .ok true := by
    decide +kernel
  have hsecond : (sampleChild.pass (openingPass {5}) >>= fun c =>
      (c.atSelect (samplePass none {5})).map fun c₁ => decide (c₁.readFds ⊆ {5})) = .ok true := by
    decide +kernel
  have hfair : Along pass Fair sampleChild [openingPass {5}, samplePass none {5}] := by
    refine ⟨⟨fun path connected domain hp _ => ?_, fun c₁ hc₁ j _ hread => ?_⟩,
      fun c hc => ⟨⟨fun path connected domain hp => ?_, fun c₁ hc₁ j _ hread => ?_⟩,
        fun _ _ => trivial⟩⟩
    · cases hp
      simp [Leaves, Connects, sampleChild, bootChild]
    · rw [hc₁] at hfirst
      exact of_decide_eq_true (Except.ok.inj hfirst) hread
    · cases hp
    · obtain ⟨c', hc', hsubset⟩ := bind_eq_ok.mp hsecond
      cases hc.symm.trans hc'
      rw [hc₁] at hsubset
      exact of_decide_eq_true (Except.ok.inj hsubset) hread
  exact attended_of_fair hfair

/-- A timeout empties the sets, and the session that was opened is not watched
any more. -/
theorem timeout_starves : ¬Along pass (fun c p => ∀ c₁, c.atSelect p = .ok c₁ → c₁.Attended)
    sampleChild [openingPass ∅, samplePass none ∅] := by
  rintro ⟨-, h⟩
  have hsecond : (sampleChild.pass (openingPass ∅) >>= fun c =>
      (c.atSelect (samplePass none ∅)).map fun c₁ =>
        (decide (5 ∈ c₁.watched), c₁.readyDomainsCount, (c₁.dscrptrs 0).socketFd, c₁.sockets 5,
          decide ((c₁.dscrptrs 0).state = .connect))) = .ok (false, 1, 5, some 0, true) := by
    decide +kernel
  obtain ⟨c, hc, hsecond⟩ := bind_eq_ok.mp hsecond
  have hattended := (h c hc).1
  cases hc₁ : c.atSelect (samplePass none ∅) with
  | error halt =>
      rw [hc₁] at hsecond
      cases hsecond
  | ok c₁ =>
      rw [hc₁] at hsecond
      simp only [Except.map, Except.ok.injEq, Prod.mk.injEq, decide_eq_false_iff_not,
        decide_eq_true_eq] at hsecond
      obtain ⟨hunwatched, hready, hnumber, hsocket, hstate⟩ := hsecond
      have hunfinished : c₁.Unfinished 0 :=
        ⟨by rw [hready]; exact Nat.one_pos, by rw [hnumber, hsocket], by simp [hstate]⟩
      exact hunwatched (hnumber ▸ (hattended c₁ hc₁ 0 hunfinished).1)

end Child

end SmtpProj.Client
