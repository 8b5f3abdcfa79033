import SmtpProj.Joint.Machine

/-!
What the message queues of the machine do for the client and the server.

The queues are apart exactly if there are at most 16 children, or 33 where no server
runs (`queues_apart_iff`). Then the letters get to the children as if each had a
queue that nobody else knows (`queues_refine_client`), and each log process gets the
lines of its program in their order (`lines_in_order`). A child that looks for its
queue before the master has made it gets nothing, however long it runs
(`early_reader_starves`).
-/

namespace SmtpProj.Joint

open Lib

variable {r : Reader} {i : ℕ} {accepted : Bool}

namespace Machine

variable {s s' : Machine}

/-! ### The queues apart -/

/-- Every message is for a reader on the machine, and in the queue of that one. -/
structure Orderly (s : Machine) : Prop where
  addressed : s.boxes.Addressed Reader.key (readers s.procNum s.server)
  range : InRange s

theorem Orderly.step {a : Act} (h : Orderly s) (hstep : step s a = .ok s') : Orderly s' := by
  have hframed := framed_step hstep
  refine ⟨?_, inRange_step h.range hstep⟩
  rw [hframed.procNum, hframed.server]
  cases traffic_step h.range hstep with
  | quiet boxes => exact boxes ▸ h.addressed
  | post r text hr htext boxes => exact boxes ▸ h.addressed.post hr
  | take r m rest hr hbox hfound boxes => exact boxes ▸ h.addressed.drop

/-- What has been posted was taken or is kept, in its order; and the file of the
server's log has what its log process has taken. -/
structure Kept (before : List Char) (s : Machine) : Prop where
  order : ∀ r, s.posted r = s.taken r ++ s.pending r
  lines : ∀ text ∈ s.posted .serverLog, text ≠ [] ∧ nul ∉ text
  file : ∃ entries : List (Server.Tm × CStr), entries.map Prod.snd = s.taken .serverLog ∧
    s.serverFile = before ++ entries.flatMap fun e => Server.saveMessage e.1 e.2
  early : ∀ r, s.found r ≠ some true → s.taken r = []

theorem Kept.step {a : Act} {before : List Char} (h : Kept before s) (horderly : Orderly s)
    (hinj : Set.InjOn Reader.key (readers s.procNum s.server)) (hstep : step s a = .ok s') :
    Kept before s' := by
  have hfound := (framed_step hstep).found
  have hearly : ∀ r, s'.found r ≠ some true → s.found r ≠ some true := fun r hne h =>
    hne (hfound r true h)
  cases traffic_step horderly.range hstep with
  | quiet boxes posted taken file =>
      refine ⟨fun r => ?_, ?_, ?_, fun r hne => ?_⟩
      · rw [pending, boxes, posted, taken]
        exact h.order r
      · rw [posted]
        exact h.lines
      · rw [taken, file]
        exact h.file
      · rw [taken]
        exact h.early r (hearly r hne)
  | post r text hr htext boxes posted taken file =>
      refine ⟨fun r' => ?_, ?_, ?_, fun r' hne => ?_⟩
      · rw [pending, boxes, posted, taken]
        by_cases heq : r' = r
        · subst heq
          rw [Function.update_self, Mailboxes.pending_post, h.order r', List.append_assoc]
          rfl
        · rw [Function.update_of_ne heq, Mailboxes.pending_post_of_ne heq]
          exact h.order r'
      · rw [posted]
        by_cases heq : Reader.serverLog = r
        · subst heq
          rw [Function.update_self]
          exact List.forall_mem_append.mpr ⟨h.lines, by simpa using htext rfl⟩
        · rw [Function.update_of_ne heq]
          exact h.lines
      · rw [taken, file]
        exact h.file
      · rw [taken]
        exact h.early r' (hearly r' hne)
  | take r m rest hr hbox hfound' boxes posted taken file =>
      refine ⟨fun r' => ?_, ?_, ?_, fun r' hne => ?_⟩
      · rw [pending, boxes, posted, taken]
        by_cases heq : r' = r
        · subst heq
          rw [Function.update_self, h.order r', pending,
            horderly.addressed.pending_drop hinj hr hbox, List.append_assoc]
          rfl
        · rw [Function.update_of_ne heq,
            horderly.addressed.pending_drop_of_ne hinj hr heq]
          exact h.order r'
      · rw [posted]
        exact h.lines
      · obtain ⟨entries, hentries, hfile⟩ := h.file
        by_cases heq : r = .serverLog
        · subst heq
          rw [if_pos rfl] at file
          obtain ⟨now, hnow⟩ := file
          refine ⟨entries ++ [(now, m.2)], ?_, ?_⟩
          · rw [taken, Function.update_self, List.map_append, hentries]
            rfl
          · rw [hnow, hfile]
            simp
        · rw [if_neg heq] at file
          exact ⟨entries, by rw [taken, Function.update_of_ne (Ne.symm heq), hentries],
            file.trans hfile⟩
      · have hne' : r' ≠ r := by
          rintro rfl
          exact hearly r' hne hfound'
        rw [taken, Function.update_of_ne hne']
        exact h.early r' (hearly r' hne)

end Machine

open Machine

theorem Setup.orderly (u : Setup) : u.boot.Orderly := by
  refine ⟨Mailboxes.addressed_empty, fun m hm => ?_, fun i c hc => ?_⟩
  · cases hm
    simp
  · simp only [Setup.boot, Setup.client, Client.bootClient] at hc
    split_ifs at hc with hi
    exact hi

theorem Setup.kept (u : Setup) : u.boot.Kept u.serverFile :=
  ⟨fun _ => rfl, fun _ h => absurd h List.not_mem_nil, ⟨[], rfl, (List.append_nil _).symm⟩,
    fun _ _ => rfl⟩

structure Belongs (u : Setup) (s : Machine) : Prop where
  orderly : Orderly s
  procNum : s.procNum = u.procNum
  server : s.server = u.server

theorem belongs_boot (u : Setup) : Belongs u u.boot := ⟨u.orderly, rfl, rfl⟩

theorem Belongs.step {u : Setup} {s s' : Machine} {a : Act} (h : Belongs u s)
    (hstep : Machine.step s a = .ok s') : Belongs u s' := by
  have hframed := framed_step hstep
  exact ⟨h.orderly.step hstep, hframed.procNum.trans h.procNum, hframed.server.trans h.server⟩

theorem Belongs.injOn {u : Setup} {s : Machine} (h : Belongs u s)
    (hnum : u.procNum ≤ maxProcNum u.server) :
    Set.InjOn Reader.key (readers s.procNum s.server) := by
  rw [h.procNum, h.server]
  exact key_injOn_iff.mpr hnum

/-- What holds in every run. -/
theorem belongs_of_run {u : Setup} {acts : List Act} {s : Machine}
    (hrun : run step u.boot acts = .ok s) : Belongs u s :=
  run_invariant (fun _ _ _ h _ hstep => h.step hstep) (belongs_boot u) (guarded_true _ _) hrun

/-- What holds in every run with the queues apart. -/
theorem kept_of_run {u : Setup} {acts : List Act} {s : Machine}
    (hnum : u.procNum ≤ maxProcNum u.server) (hrun : run step u.boot acts = .ok s) :
    Kept u.serverFile s :=
  (run_invariant (P := fun s => Belongs u s ∧ Kept u.serverFile s)
    (fun _ _ _ h _ hstep =>
      ⟨h.1.step hstep, h.2.step h.1.orderly (h.1.injOn hnum) hstep⟩)
    ⟨belongs_boot u, u.kept⟩ (guarded_true _ _) hrun).2

/-- In every run no queue ever has a message for anyone but its reader, exactly if
there are no more children than there are numbers below those of the logs: 16 beside
the server, 33 without it. -/
theorem queues_apart_iff (u : Setup) :
    (∀ acts s, run step u.boot acts = .ok s → ∀ r ∈ readers u.procNum u.server,
      ∀ m ∈ s.boxes r.key, m.1 = r) ↔ u.procNum ≤ maxProcNum u.server := by
  constructor
  · intro h
    by_contra hnot
    have hchild : Reader.child (maxProcNum u.server) ∈ readers u.procNum u.server :=
      decide_eq_true (not_le.mp hnot)
    -- a line of the log is in the queue of a child
    cases hserver : u.server with
    | false =>
        let line := upToNul (Client.logLine .error [])
        have hrun : run step u.boot [.clientLine .error [] true] =
            .ok ((u.boot.create .clientLog).msgsnd .clientLog true line) := by
          have hfits : line.length < Client.mtextSize := by decide
          have hlevel : Client.LogLevel.error.number ≤ u.boot.curLvl.number := Nat.zero_le _
          rw [run_singleton, step, if_pos hlevel]
          exact if_pos hfits
        have heq := h _ _ hrun _ hchild (.clientLog, line)
          (Mailboxes.mem_post.mpr (.inr ⟨by rw [hserver]; rfl, rfl⟩))
        cases heq
    | true =>
        let line := Server.logLine .info []
        have hrun : run step u.boot [.serverLine .info [] true] =
            .ok ((u.boot.create .serverLog).msgsnd .serverLog true line) := by
          rw [run_singleton]
          exact if_pos hserver
        have heq := h _ _ hrun _ hchild (.serverLog, line)
          (Mailboxes.mem_post.mpr (.inr ⟨by rw [hserver]; rfl, rfl⟩))
        cases heq
  · intro hnum acts s hrun r hr m hm
    have hbelongs := belongs_of_run hrun
    rw [← hbelongs.procNum, ← hbelongs.server] at hr
    exact hbelongs.orderly.addressed.own (hbelongs.injOn hnum) hr hm

def sampleSetup : Setup where
  conf := ⟨"m/".toList, "h".toList, 120, 10⟩
  procNum := 1
  server := true
  curLvl := .error
  files := Client.sampleFiles
  domains _ := []
  counts _ := 0
  memory _ _ := Client.zeroDscrptr
  keys _ := false
  serverFile := []

def sampleTm : Server.Tm :=
  ⟨2020, 12, 24, 18, 0, 0, by decide, by decide, by decide, by decide, by decide, by decide⟩

def sampleActs : List Act :=
  [.ask .serverLog, .serverLine .info "SMTP server booted".toList true, .make,
    .ask (.child 0)] ++ Client.MailClient.sampleScan.map .client ++
    [.client (.receive 0 (some 5)), .serverSave sampleTm]

/-- Each reader takes its messages in the order in which they were posted, and none is
lost on the way; and the file of the server's log is read back, record by record, as
the lines that its log process has taken, each with a time. -/
theorem lines_in_order {u : Setup} {acts : List Act} {s : Machine}
    (hnum : u.procNum ≤ maxProcNum u.server) (hrun : run step u.boot acts = .ok s) :
    (∀ r, s.posted r = s.taken r ++ s.pending r) ∧
      ∃ new, s.serverFile = u.serverFile ++ new ∧
        ∃ entries : List (Server.Tm × CStr), entries.map Prod.snd = s.taken .serverLog ∧
          new.splitOn nul = (entries.map fun e => e.1.timestr ++ ' ' :: e.2) ++ [[]] := by
  have hkept := kept_of_run hnum hrun
  obtain ⟨entries, hentries, hfile⟩ := hkept.file
  refine ⟨hkept.order, _, hfile, entries, hentries, Server.splitOn_saved fun e he => ?_⟩
  refine hkept.lines e.2 ?_
  rw [hkept.order]
  exact List.mem_append_left _ (hentries ▸ List.mem_map_of_mem he)

theorem lines_in_order_booted : ∃ s now, run step sampleSetup.boot sampleActs = .ok s ∧
    s.serverFile.splitOn nul =
      [Server.Tm.timestr now ++ ' ' :: "INFO: SMTP server booted\n".toList, []] := by
  have hruns : (run step sampleSetup.boot sampleActs >>= fun s =>
      .ok (decide (s.taken .serverLog = ["INFO: SMTP server booted\n".toList]))) = .ok true := by
    decide +kernel
  obtain ⟨s, hrun, htaken⟩ := bind_eq_ok.mp hruns
  obtain ⟨-, new, hfile, entries, hentries, hsplit⟩ := lines_in_order (by decide) hrun
  rw [of_decide_eq_true (Except.ok.inj htaken), List.map_eq_singleton_iff] at hentries
  obtain ⟨entry, rfl, hline⟩ := hentries
  refine ⟨s, entry.1, hrun, ?_⟩
  have hnew : s.serverFile = new := hfile
  rw [hnew, hsplit, List.map_singleton, hline]
  rfl

/-- As long as the queues are apart, a reader that has looked for its queue before
there was one takes nothing, however long the processes run: all that is ever
posted to it stays where it is. -/
theorem early_reader_starves {u : Setup} {acts acts' : List Act} {s s' : Machine} {r : Reader}
    (hnum : u.procNum ≤ maxProcNum u.server) (hbefore : run step u.boot acts = .ok s)
    (hearly : s.found r = some false) (hbehind : run step s acts' = .ok s') :
    s'.taken r = [] ∧ s'.pending r = s'.posted r := by
  have hfound : s'.found r = some false :=
    run_invariant (P := fun s => s.found r = some false)
      (fun _ _ _ h _ hstep => (framed_step hstep).found r false h) hearly (guarded_true _ _) hbehind
  have hkept := kept_of_run hnum ((run_append_ok hbefore).trans hbehind)
  have htaken := hkept.early r (by simp [hfound])
  exact ⟨htaken, by rw [hkept.order, htaken, List.nil_append]⟩

/-- The child was faster than the master. -/
theorem early_reader_starves_sample : ∃ s s',
    run step sampleSetup.boot [.ask (.child 0), .make] = .ok s ∧
      run step s (Client.MailClient.sampleScan.map .client ++
        [.ask (.child 0), .client (.receive 0 (some 5))]) = .ok s' ∧
      s'.taken (.child 0) = [] ∧ s'.pending (.child 0) = ["m/u/new/1.2.a.b".toList] := by
  have hruns : (run step sampleSetup.boot [.ask (.child 0), .make] >>= fun s =>
      run step s (Client.MailClient.sampleScan.map .client ++
        [.ask (.child 0), .client (.receive 0 (some 5))]) >>= fun s' =>
      .ok (decide (s.found (.child 0) = some false) &&
        decide (s'.posted (.child 0) = ["m/u/new/1.2.a.b".toList]))) = .ok true := by
    decide +kernel
  obtain ⟨s, hbefore, hrest⟩ := bind_eq_ok.mp hruns
  obtain ⟨s', hbehind, hfacts⟩ := bind_eq_ok.mp hrest
  simp only [Except.ok.injEq, Bool.and_eq_true, decide_eq_true_eq] at hfacts
  obtain ⟨htaken, hpending⟩ := early_reader_starves (by decide) hbefore hfacts.1 hbehind
  exact ⟨s, s', hbefore, hbehind, htaken, hpending.trans hfacts.2⟩

/-! ### The client sees queues of its own -/

def Act.ofClient : Act → List Client.Action
  | .client a => [a]
  | _ => []

namespace Machine

variable {s s' : Machine}

theorem client_congr (hdir : s'.mailDir = s.mailDir) (hnum : s'.procNum = s.procNum)
    (hmaster : s'.master = s.master) (hchildren : s'.children = s.children)
    (hfiles : s'.files = s.files)
    (hpending : ∀ i, s'.pending (.child i) = s.pending (.child i)) : s'.client = s.client := by
  simp only [client, hdir, hnum, hmaster, hchildren, hfiles, hpending]

/-- What is posted to a child is in the child's queue. -/
theorem client_post (i : ℕ) (path : CStr) :
    (s.msgsnd (.child i) accepted path).client = s.client.send accepted (some (i, path)) := by
  cases accepted with
  | false => rfl
  | true =>
      have hqueues : ∀ j, (s.msgsnd (.child i) true path).pending (.child j) =
          Function.update s.client.queues i (s.client.queues i ++ [path]) j := by
        intro j
        by_cases hj : j = i
        · subst hj
          rw [Function.update_self]
          exact Mailboxes.pending_post
        · rw [Function.update_of_ne hj]
          exact Mailboxes.pending_post_of_ne (by simpa using hj)
      simp only [client, Client.MailClient.send, Client.MailClient.mk.injEq]
      exact ⟨rfl, rfl, rfl, funext hqueues, rfl, rfl⟩

theorem client_took {m : Reader × CStr} {rest : List (Reader × CStr)} (h : Orderly s)
    (hinj : Set.InjOn Reader.key (readers s.procNum s.server)) (hi : i < s.procNum)
    (hbox : s.boxes (Reader.child i).key = m :: rest) :
    ∃ queue, s.client.queues i = m.2 :: queue ∧ (s.took (.child i) m.2).client =
      { s.client with queues := Function.update s.client.queues i queue } := by
  have hr : Reader.child i ∈ readers s.procNum s.server := decide_eq_true hi
  refine ⟨_, h.addressed.pending_drop hinj hr hbox, ?_⟩
  have hqueues : ∀ j, (s.took (.child i) m.2).pending (.child j) =
      Function.update s.client.queues i
        (Mailboxes.pending Reader.key (.child i) (s.boxes.drop Reader.key (.child i))) j := by
    intro j
    by_cases hj : j = i
    · subst hj
      rw [Function.update_self]
      rfl
    · rw [Function.update_of_ne hj]
      exact h.addressed.pending_drop_of_ne hinj hr (by simpa using hj)
  simp only [client, Client.MailClient.mk.injEq]
  exact ⟨rfl, rfl, rfl, funext hqueues, rfl, rfl⟩

theorem client_receive (h : Orderly s)
    (hinj : Set.InjOn Reader.key (readers s.procNum s.server)) (i : ℕ) (connected : Option ℕ) :
    (s.receive i connected).client = s.client ∨
      (s.receive i connected).client = s.client.receive i connected := by
  rcases receive_cases i connected s with ⟨heq, -⟩ | ⟨c, path, s₁, hchild, hrcv, heq⟩
  · exact .inl (by rw [heq])
  · obtain ⟨m, rest, hbox, -, -, rfl, rfl⟩ := msgrcv_eq_some.mp hrcv
    obtain ⟨queue, hqueue, hclient⟩ := client_took h hinj (h.range.children i c hchild) hbox
    refine .inr ?_
    have hchild' : s.client.children i = some c := hchild
    rw [heq, Client.MailClient.receive, hchild', hqueue]
    dsimp only
    split_ifs
    · rw [client_childStep, hclient]
    · exact hclient

theorem client_masterStep {dirs : List (CStr × List CStr)}
    (h : s.masterStep dirs accepted = .ok s') :
    s'.client = s.client.masterStep dirs accepted := by
  rcases masterStep_cases h with ⟨hmaster, rfl⟩ | ⟨m, hmaster, ⟨halt, hstep, rfl⟩ |
    ⟨m', hstep, rfl⟩ | ⟨m', x, hstep, rfl⟩⟩
  · have hmaster' : s'.client.master = none := hmaster
    rw [Client.MailClient.masterStep, hmaster']
  all_goals
    have hmaster' : s.client.master = some m := hmaster
    have hstep' := hstep
    rw [Client.MailClient.masterStep, hmaster']
    dsimp only [client]
    rw [hstep]
  · rfl
  · cases accepted <;> rfl
  · exact client_post x.1 x.2

/-- A step of the machine is a step of the client, or the client does not see it. -/
theorem client_step {a : Act} (h : Orderly s)
    (hinj : Set.InjOn Reader.key (readers s.procNum s.server)) (hstep : step s a = .ok s') :
    ∃ bs, bs.Sublist a.ofClient ∧ run Client.MailClient.step s.client bs = .ok s'.client := by
  have hunseen : s'.client = s.client → ∃ bs, bs.Sublist a.ofClient ∧
      run Client.MailClient.step s.client bs = .ok s'.client := fun heq =>
    ⟨[], List.nil_sublist _, by rw [heq]; rfl⟩
  cases moved_of_step hstep with
  | idle => exact hunseen rfl
  | make => exact hunseen rfl
  | ask r =>
      refine hunseen ?_
      unfold ask
      split_ifs <;> rfl
  | master hmaster =>
      refine ⟨_, .refl _, ?_⟩
      rw [client_masterStep hmaster]
      exact run_singleton
  | receive i connected =>
      rcases client_receive h hinj i connected with heq | heq
      · exact hunseen heq
      · exact ⟨_, .refl _, by rw [heq]; exact run_singleton⟩
  | call i op hcall =>
      refine ⟨_, .refl _, ?_⟩
      rw [client_childStep, Act.ofClient, run_singleton]
      exact hcall _
  | @line a r accepted text hr hlog htext =>
      refine hunseen ?_
      cases accepted with
      | false => rfl
      | true =>
          exact client_congr rfl rfl rfl rfl rfl fun i =>
            Mailboxes.pending_post_of_ne (Ne.symm (hlog i))
  | clientSave hrcv =>
      obtain ⟨m, rest, -, -, -, -, rfl⟩ := msgrcv_eq_some.mp hrcv
      exact hunseen (client_congr rfl rfl rfl rfl rfl fun i =>
        h.addressed.pending_drop_of_ne hinj rfl (by simp))
  | serverSave hserver hrcv =>
      obtain ⟨m, rest, -, -, -, -, rfl⟩ := msgrcv_eq_some.mp hrcv
      exact hunseen (client_congr rfl rfl rfl rfl rfl fun i =>
        h.addressed.pending_drop_of_ne hinj hserver (by simp))

end Machine

/-- As long as the queues are apart, the client cannot tell the queues of the machine
from queues of its own: whatever the processes of both programs do, in any order, is
for the client a run with one queue to each of its children. -/
theorem queues_refine_client {u : Setup} {acts : List Act} {s : Machine}
    (hnum : u.procNum ≤ maxProcNum u.server) (hrun : run step u.boot acts = .ok s) :
    ∃ bs, bs.Sublist (acts.flatMap Act.ofClient) ∧
      run Client.MailClient.step u.client bs = .ok s.client :=
  run_refinement (f := client) (g := Act.ofClient) (I := Belongs u)
    (fun _ _ _ h hstep => ⟨h.step hstep, client_step h.orderly (h.injOn hnum) hstep⟩)
    (belongs_boot u) hrun

theorem queues_refine_client_sample : ∃ s bs, run step sampleSetup.boot sampleActs = .ok s ∧
    s.taken (.child 0) = ["m/u/new/1.2.a.b".toList] ∧
      run Client.MailClient.step sampleSetup.client bs = .ok s.client := by
  have hruns : (run step sampleSetup.boot sampleActs >>= fun s =>
      .ok (decide (s.taken (.child 0) = ["m/u/new/1.2.a.b".toList]))) = .ok true := by
    decide +kernel
  obtain ⟨s, hrun, htaken⟩ := bind_eq_ok.mp hruns
  obtain ⟨bs, -, hclient⟩ := queues_refine_client (by decide) hrun
  exact ⟨s, bs, hrun, of_decide_eq_true (Except.ok.inj htaken), hclient⟩

end SmtpProj.Joint
