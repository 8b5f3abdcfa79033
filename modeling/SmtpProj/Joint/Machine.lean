import SmtpProj.Lib.Mailbox
import SmtpProj.Client.Balance
import SmtpProj.Client.Capacity
import SmtpProj.Client.GivenUp
import SmtpProj.Server.Log

/-!
The machine that the client and the server run on, as far as their message queues
go.

The client has a queue for each of its children and one for its log, the server
one for its log. They belong to the machine: a queue is found by its key, and a key
is made of the number that `ftok` is given. The client takes 0, 1, 2, … for its
children and 33 for its log, the server 16 for its log; so from some number of
children on, two readers share a queue (`key_injOn_iff`).

The processes of both programs take their steps in any order. `Moved` has the steps
by what they do, and `Traffic` what they do to the queues.
-/

namespace SmtpProj.Joint

open Lib

/-! ### Queues and their readers -/

inductive Reader
  | child (i : ℕ)
  | clientLog
  | serverLog
  deriving DecidableEq

/-- What `ftok` makes of the number: its lowest eight bits are the part of the key in
which the queues differ. -/
def Reader.key : Reader → ℕ
  | .child i => i % 256
  | .clientLog => 33
  | .serverLog => 16

/-- `sizeof` of the structure that the reader, and whoever writes to it, has for a
message. -/
def Reader.size : Reader → ℕ
  | .child _ => 512
  | .clientLog => 512
  | .serverLog => 1032

/-- The reader is on a machine with a client of so many children, and perhaps the
server. -/
def Reader.runs (procNum : ℕ) (server : Bool) : Reader → Bool
  | .child i => decide (i < procNum)
  | .clientLog => true
  | .serverLog => server

def readers (procNum : ℕ) (server : Bool) : Set Reader := {r | r.runs procNum server = true}

def maxProcNum (server : Bool) : ℕ := if server then 16 else 33

structure Machine where
  mailDir : CStr
  procNum : ℕ
  server : Bool
  master : Option Client.Master
  children : ℕ → Option Client.Child
  files : CStr → Option (List Char)
  curLvl : Client.LogLevel
  /-- How many queues the master has made. -/
  made : ℕ
  /-- There is a queue with this key. -/
  keys : ℕ → Bool
  boxes : Mailboxes ℕ Reader CStr
  /-- The reader has looked for its queue, and whether it has found it. -/
  found : Reader → Option Bool
  serverFile : List Char
  /-- The texts that a queue has accepted for the reader, and those that the reader
  has taken; the program does not read them. -/
  posted : Reader → List CStr
  taken : Reader → List CStr

inductive Act
  /-- The master makes the queue of its next child. -/
  | make
  | ask (r : Reader)
  | client (a : Client.Action)
  | clientLine (lvl : Client.LogLevel) (message : CStr) (accepted : Bool)
  | serverLine (lvl : Server.LogLevel) (message : CStr) (accepted : Bool)
  | clientSave
  | serverSave (now : Server.Tm)

namespace Machine

def pending (r : Reader) (s : Machine) : List CStr := s.boxes.pending Reader.key r

def client (s : Machine) : Client.MailClient where
  mailDir := s.mailDir
  procNum := s.procNum
  master := s.master
  queues i := s.pending (.child i)
  children := s.children
  files := s.files

/-- `msgsnd`, which a full queue refuses; its result is not looked at. -/
def msgsnd (r : Reader) (accepted : Bool) (text : CStr) (s : Machine) : Machine :=
  if accepted then
    { s with
      boxes := s.boxes.post Reader.key r text
      posted := Function.update s.posted r (s.posted r ++ [text]) }
  else s

def took (r : Reader) (text : CStr) (s : Machine) : Machine :=
  { s with
    boxes := s.boxes.drop Reader.key r
    taken := Function.update s.taken r (s.taken r ++ [text]) }

/-- `msgrcv`: the first message of the queue, if the reader has found the queue and
has room for the message. -/
def msgrcv (r : Reader) (s : Machine) : Option (CStr × Machine) :=
  match s.boxes r.key with
  | [] => none
  | m :: _ =>
      if s.found r = some true ∧ m.1.size ≤ r.size then
        some (m.2, s.took r m.2)
      else none

def create (r : Reader) (s : Machine) : Machine :=
  { s with keys := Function.update s.keys r.key true }

/-- `msgget` of a reader. The log process of the server makes its queue if there is
none. -/
def ask (r : Reader) (s : Machine) : Machine :=
  if s.found r = none then
    let s := if r = .serverLog then s.create r else s
    { s with found := Function.update s.found r (some (s.keys r.key)) }
  else s

def masterStep (dirs : List (CStr × List CStr)) (accepted : Bool) (s : Machine) :
    Except Client.Halt Machine :=
  match s.master with
  | none => .ok s
  | some m =>
      match m.step s.mailDir s.procNum dirs with
      | .error _ => .ok { s with master := none }
      | .ok (m, none) => .ok { s with master := some m }
      | .ok (m, some (i, path)) =>
          if path.length < Client.mtextSize then
            .ok ({ s with master := some m }.msgsnd (.child i) accepted path)
          else .error .outOfBounds

def childStep (i : ℕ) (op : Client.Op) (s : Machine) : Machine :=
  let c := s.client.childStep i op
  { s with children := c.children, files := c.files }

/-- An empty path is not registered. -/
def receive (i : ℕ) (connected : Option ℕ) (s : Machine) : Machine :=
  match s.children i, s.msgrcv (.child i) with
  | some _, some (path, s) => if path ≠ [] then s.childStep i (.register path connected) else s
  | _, _ => s

/-- The master makes all the queues before it scans. -/
def step (s : Machine) : Act → Except Client.Halt Machine
  | .make =>
      if s.made < s.procNum then .ok { s.create (.child s.made) with made := s.made + 1 }
      else .ok s
  | .ask r => .ok (if r.runs s.procNum s.server then s.ask r else s)
  | .client (.master dirs accepted) =>
      if s.made < s.procNum then .ok s else s.masterStep dirs accepted
  | .client (.receive i connected) => .ok (s.receive i connected)
  | .client (.write i j k) => .ok (s.childStep i (.write j k))
  | .client (.read i j results) => .ok (s.childStep i (.read j results))
  | .client (.select i readReady writeReady exceptReady) =>
      .ok (s.childStep i (.select readReady writeReady exceptReady))
  | .clientLine lvl message accepted =>
      if lvl.number ≤ s.curLvl.number then
        let line := upToNul (Client.logLine lvl message)
        if line.length < Client.mtextSize then
          .ok ((s.create .clientLog).msgsnd .clientLog accepted line)
        else .error .outOfBounds
      else .ok s
  | .serverLine lvl message accepted =>
      if s.server then
        .ok ((s.create .serverLog).msgsnd .serverLog accepted (Server.logLine lvl message))
      else .ok s
  | .clientSave =>
      match s.msgrcv .clientLog with
      | none => .ok s
      | some (_, s) => .ok s
  | .serverSave now =>
      if s.server then
        match s.msgrcv .serverLog with
        | none => .ok s
        | some (text, s) => .ok { s with serverFile := s.serverFile ++ Server.saveMessage now text }
      else .ok s

end Machine

structure Setup where
  conf : Client.Conf
  procNum : ℕ
  server : Bool
  curLvl : Client.LogLevel
  files : CStr → Option (List Char)
  domains : ℤ → CStr
  counts : ℤ → ℤ
  memory : ℕ → ℕ → Client.Dscrptr
  /-- The queues that are there from before, all of them empty. -/
  keys : ℕ → Bool
  serverFile : List Char

def Setup.client (u : Setup) : Client.MailClient :=
  Client.bootClient u.conf u.procNum u.files u.domains u.counts u.memory

def Setup.boot (u : Setup) : Machine where
  mailDir := u.client.mailDir
  procNum := u.procNum
  server := u.server
  master := u.client.master
  children := u.client.children
  files := u.files
  curLvl := u.curLvl
  made := 0
  keys := u.keys
  boxes _ := []
  found _ := none
  serverFile := u.serverFile
  posted _ := []
  taken _ := []

variable {r r' : Reader} {procNum i : ℕ} {server accepted : Bool} {text : CStr}

@[simp] theorem mem_readers : r ∈ readers procNum server ↔ r.runs procNum server = true := Iff.rfl

/-- The keys tell the readers apart as long as no child comes to the number of a log. -/
theorem key_injOn_iff :
    Set.InjOn Reader.key (readers procNum server) ↔ procNum ≤ maxProcNum server := by
  constructor
  · intro hinj
    by_contra hnot
    have hchild : Reader.child (maxProcNum server) ∈ readers procNum server :=
      decide_eq_true (not_le.mp hnot)
    cases server with
    | false => cases hinj hchild (show Reader.clientLog ∈ readers procNum false from rfl) rfl
    | true => cases hinj hchild (show Reader.serverLog ∈ readers procNum true from rfl) rfl
  · intro hnum r hr r' hr' hkey
    cases server <;> cases r <;> cases r' <;>
      simp [mem_readers, Reader.runs, Reader.key, maxProcNum] at hr hr' hkey hnum ⊢ <;> omega

namespace Machine

variable {s s' : Machine}

inductive Traffic (s s' : Machine) : Prop
  | quiet (boxes : s'.boxes = s.boxes) (posted : s'.posted = s.posted)
      (taken : s'.taken = s.taken) (file : s'.serverFile = s.serverFile)
  | post (r : Reader) (text : CStr) (hr : r ∈ readers s.procNum s.server)
      (htext : r = .serverLog → text ≠ [] ∧ nul ∉ text)
      (boxes : s'.boxes = s.boxes.post Reader.key r text)
      (posted : s'.posted = Function.update s.posted r (s.posted r ++ [text]))
      (taken : s'.taken = s.taken) (file : s'.serverFile = s.serverFile)
  | take (r : Reader) (m : Reader × CStr) (rest : List (Reader × CStr))
      (hr : r ∈ readers s.procNum s.server) (hbox : s.boxes r.key = m :: rest)
      (hfound : s.found r = some true) (boxes : s'.boxes = s.boxes.drop Reader.key r)
      (posted : s'.posted = s.posted)
      (taken : s'.taken = Function.update s.taken r (s.taken r ++ [m.2]))
      (file : if r = .serverLog then ∃ now, s'.serverFile = s.serverFile ++
        Server.saveMessage now m.2 else s'.serverFile = s.serverFile)

theorem msgrcv_eq_some : s.msgrcv r = some (text, s') ↔ ∃ m rest, s.boxes r.key = m :: rest ∧
    s.found r = some true ∧ m.1.size ≤ r.size ∧ text = m.2 ∧ s' = s.took r m.2 := by
  unfold msgrcv
  cases hbox : s.boxes r.key with
  | nil => simp
  | cons m rest =>
      by_cases htakes : s.found r = some true ∧ m.1.size ≤ r.size
      · simp [htakes, took, eq_comm]
      · refine iff_of_false (by simp [htakes]) ?_
        rintro ⟨m', rest', heq, hfound, hsize, -⟩
        cases heq
        exact htakes ⟨hfound, hsize⟩

/-- The master has no letter for a child that is not there. -/
structure InRange (s : Machine) : Prop where
  outbox : ∀ m, s.master = some m → ∀ x ∈ m.outbox, x.1 < s.procNum
  children : ∀ i c, s.children i = some c → i < s.procNum

theorem Traffic.of_msgsnd {s₁ : Machine} (hr : r ∈ readers s.procNum s.server)
    (htext : r = .serverLog → text ≠ [] ∧ nul ∉ text) (boxes : s₁.boxes = s.boxes)
    (posted : s₁.posted = s.posted) (taken : s₁.taken = s.taken)
    (file : s₁.serverFile = s.serverFile) : Traffic s (s₁.msgsnd r accepted text) := by
  cases accepted with
  | false => exact .quiet boxes posted taken file
  | true =>
      refine .post r text hr htext ?_ ?_ taken file
      · simp [msgsnd, boxes]
      · simp [msgsnd, posted]

theorem Traffic.congr {s₁ : Machine} (h : Traffic s s₁) (hboxes : s'.boxes = s₁.boxes)
    (hposted : s'.posted = s₁.posted) (htaken : s'.taken = s₁.taken)
    (hfile : s'.serverFile = s₁.serverFile) : Traffic s s' := by
  cases h with
  | quiet boxes posted taken file =>
      exact .quiet (hboxes.trans boxes) (hposted.trans posted) (htaken.trans taken)
        (hfile.trans file)
  | post r text hr htext boxes posted taken file =>
      exact .post r text hr htext (hboxes.trans boxes) (hposted.trans posted) (htaken.trans taken)
        (hfile.trans file)
  | take r m rest hr hbox hfound boxes posted taken file =>
      exact .take r m rest hr hbox hfound (hboxes.trans boxes) (hposted.trans posted)
        (htaken.trans taken) (by rwa [hfile])

theorem Traffic.of_msgrcv (hr : r ∈ readers s.procNum s.server)
    (hrcv : s.msgrcv r = some (text, s')) (hne : r ≠ .serverLog) : Traffic s s' := by
  obtain ⟨m, rest, hbox, hfound, -, rfl, rfl⟩ := msgrcv_eq_some.mp hrcv
  exact .take r m rest hr hbox hfound rfl rfl rfl (by rw [if_neg hne]; rfl)

/-- The master sends the next letter that it has at hand, or it has none at hand and
looks for some. -/
theorem master_step_cases {m m' : Client.Master} {mailDir : CStr}
    {dirs : List (CStr × List CStr)} {msg : Option (ℕ × CStr)}
    (h : m.step mailDir procNum dirs = .ok (m', msg)) :
    (∃ x rest, m.outbox = (x.1, some x.2) :: rest ∧ m' = { m with outbox := rest } ∧
        msg = some x) ∨ msg = none ∧ ∀ x ∈ m'.outbox, x.1 < procNum := by
  unfold Client.Master.step at h
  cases hout : m.outbox with
  | nil =>
      rw [hout] at h
      by_cases hscans : m.Scans <;> simp only [hscans, if_true, if_false] at h
      · obtain ⟨m₁, hscan, hok⟩ := bind_eq_ok.mp h
        obtain ⟨table, -, hm₁⟩ := bind_eq_ok.mp hscan
        cases hm₁
        cases hok
        exact .inr ⟨rfl, by simp [hout]⟩
      · obtain ⟨m₁, htake, hok⟩ := bind_eq_ok.mp h
        obtain ⟨⟨idx, procs⟩, hidx, hm₁⟩ := bind_eq_ok.mp htake
        cases hm₁
        cases hok
        refine .inr ⟨rfl, fun x hx => ?_⟩
        obtain ⟨path, -, rfl⟩ := List.mem_map.mp hx
        exact (Client.getMailProcIdx_ok hidx).1
  | cons x rest =>
      obtain ⟨i, path⟩ := x
      rw [hout] at h
      cases path with
      | none => cases h
      | some path =>
          cases h
          exact .inl ⟨(i, path), rest, rfl, rfl, rfl⟩

/-- What a step of the master does: it sends a letter that has room in a message, or
it changes nothing outside of it, or it stops. -/
theorem masterStep_cases {dirs : List (CStr × List CStr)}
    (h : s.masterStep dirs accepted = .ok s') :
    (s.master = none ∧ s' = s) ∨ ∃ m, s.master = some m ∧
      ((∃ halt, m.step s.mailDir s.procNum dirs = .error halt ∧ s' = { s with master := none }) ∨
        (∃ m', m.step s.mailDir s.procNum dirs = .ok (m', none) ∧
          s' = { s with master := some m' }) ∨
        ∃ m' x, m.step s.mailDir s.procNum dirs = .ok (m', some x) ∧
          s' = { s with master := some m' }.msgsnd (.child x.1) accepted x.2) := by
  unfold masterStep at h
  cases hmaster : s.master with
  | none =>
      rw [hmaster] at h
      cases h
      exact .inl ⟨rfl, rfl⟩
  | some m =>
      rw [hmaster] at h
      refine .inr ⟨m, rfl, ?_⟩
      cases hstep : m.step s.mailDir s.procNum dirs with
      | error halt =>
          simp only [hstep] at h
          cases h
          exact .inl ⟨halt, rfl, rfl⟩
      | ok result =>
          obtain ⟨m', msg⟩ := result
          cases msg with
          | none =>
              simp only [hstep] at h
              cases h
              exact .inr (.inl ⟨m', rfl, rfl⟩)
          | some x =>
              simp only [hstep] at h
              split_ifs at h
              cases h
              exact .inr (.inr ⟨m', x, rfl, rfl⟩)

theorem traffic_masterStep {dirs : List (CStr × List CStr)} (hrange : InRange s)
    (h : s.masterStep dirs accepted = .ok s') : Traffic s s' := by
  rcases masterStep_cases h with ⟨-, rfl⟩ | ⟨m, hmaster, ⟨-, -, rfl⟩ | ⟨m', -, rfl⟩ |
    ⟨m', x, hstep, rfl⟩⟩
  · exact .quiet rfl rfl rfl rfl
  · exact .quiet rfl rfl rfl rfl
  · exact .quiet rfl rfl rfl rfl
  · rcases master_step_cases hstep with ⟨y, rest, hout, -, hy⟩ | ⟨hnone, -⟩
    · cases hy
      have hlt := hrange.outbox m hmaster (x.1, some x.2) (by simp [hout])
      exact .of_msgsnd (decide_eq_true hlt) (by simp) rfl rfl rfl rfl
    · cases hnone

theorem msgsnd_frame (r : Reader) (accepted : Bool) (text : CStr) (s : Machine) :
    (s.msgsnd r accepted text).master = s.master ∧
    (s.msgsnd r accepted text).children = s.children ∧
      (s.msgsnd r accepted text).procNum = s.procNum := by
  cases accepted <;> exact ⟨rfl, rfl, rfl⟩

theorem inRange_masterStep {dirs : List (CStr × List CStr)} (hrange : InRange s)
    (h : s.masterStep dirs accepted = .ok s') : InRange s' := by
  rcases masterStep_cases h with ⟨-, rfl⟩ | ⟨m, hmaster, ⟨-, -, rfl⟩ | ⟨m', hstep, rfl⟩ |
    ⟨m', x, hstep, rfl⟩⟩
  · exact hrange
  · exact ⟨fun m' hm' => absurd hm' (by simp), hrange.children⟩
  · refine ⟨fun m₁ hm₁ => ?_, hrange.children⟩
    cases hm₁
    rcases master_step_cases hstep with ⟨y, rest, -, -, hy⟩ | ⟨-, hlt⟩
    · cases hy
    · exact hlt
  · obtain ⟨hmaster', hchildren, hnum⟩ :=
      msgsnd_frame (.child x.1) accepted x.2 { s with master := some m' }
    refine ⟨fun m₁ hm₁ => ?_, by rw [hchildren, hnum]; exact hrange.children⟩
    rw [hmaster'] at hm₁
    cases hm₁
    rw [hnum]
    rcases master_step_cases hstep with ⟨y, rest, hout, hm', -⟩ | ⟨hnone, -⟩
    · subst hm'
      exact fun z hz => hrange.outbox m hmaster z (by rw [hout]; exact List.mem_cons_of_mem _ hz)
    · cases hnone

/-- A call of a child concerns that child and the files. -/
theorem client_childStep (i : ℕ) (op : Client.Op) (s : Machine) :
    (s.childStep i op).client = s.client.childStep i op := by
  unfold childStep Client.MailClient.childStep
  cases s.client.children i with
  | none => rfl
  | some c =>
      dsimp only
      cases Client.Child.step { c with files := s.client.files } op <;> rfl

theorem childStep_children {op : Client.Op} {j : ℕ} {c : Client.Child}
    (h : (s.childStep i op).children j = some c) : ∃ c', s.children j = some c' := by
  rcases Client.MailClient.childStep_moved s.client j i op with heq | hnone |
    ⟨c', -, -, hc', -, -⟩
  · exact ⟨c, heq.symm.trans h⟩
  · cases hnone.symm.trans h
  · exact ⟨c', hc'⟩

theorem InRange.childStep {op : Client.Op} (h : InRange s) : InRange (s.childStep i op) :=
  ⟨h.outbox, fun j _ hj => by
    obtain ⟨c', hc'⟩ := childStep_children hj
    exact h.children j c' hc'⟩

theorem receive_cases (i : ℕ) (connected : Option ℕ) (s : Machine) :
    (s.receive i connected = s ∧ (s.children i = none ∨ s.msgrcv (.child i) = none)) ∨
      ∃ c path s₁, s.children i = some c ∧ s.msgrcv (.child i) = some (path, s₁) ∧
        s.receive i connected =
          if path ≠ [] then s₁.childStep i (.register path connected) else s₁ := by
  unfold receive
  cases hchild : s.children i with
  | none => exact .inl ⟨rfl, .inl rfl⟩
  | some c =>
      cases hrcv : s.msgrcv (.child i) with
      | none => exact .inl ⟨rfl, .inr rfl⟩
      | some taken => exact .inr ⟨c, taken.1, taken.2, rfl, rfl, rfl⟩

inductive Moved (s : Machine) : Act → Machine → Prop
  | idle (a : Act) : Moved s a s
  | make (hmade : s.made < s.procNum) :
      Moved s .make { s.create (.child s.made) with made := s.made + 1 }
  | ask (r : Reader) : Moved s (.ask r) (s.ask r)
  | master {dirs : List (CStr × List CStr)} {accepted : Bool} {s' : Machine}
      (h : s.masterStep dirs accepted = .ok s') : Moved s (.client (.master dirs accepted)) s'
  | receive (i : ℕ) (connected : Option ℕ) :
      Moved s (.client (.receive i connected)) (s.receive i connected)
  | call {a : Client.Action} (i : ℕ) (op : Client.Op)
      (h : ∀ c : Client.MailClient, c.step a = .ok (c.childStep i op)) :
      Moved s (.client a) (s.childStep i op)
  | line {a : Act} {r : Reader} {accepted : Bool} {text : CStr}
      (hr : r ∈ readers s.procNum s.server) (hlog : ∀ i, r ≠ .child i)
      (htext : r = .serverLog → text ≠ [] ∧ nul ∉ text) :
      Moved s a ((s.create r).msgsnd r accepted text)
  | clientSave {text : CStr} {s' : Machine} (h : s.msgrcv .clientLog = some (text, s')) :
      Moved s .clientSave s'
  | serverSave {now : Server.Tm} {text : CStr} {s' : Machine} (hserver : s.server = true)
      (h : s.msgrcv .serverLog = some (text, s')) :
      Moved s (.serverSave now)
        { s' with serverFile := s'.serverFile ++ Server.saveMessage now text }

theorem moved_of_step {a : Act} (h : step s a = .ok s') : Moved s a s' := by
  cases a with
  | make =>
      by_cases hmade : s.made < s.procNum <;> simp [step, hmade] at h <;> subst h
      · exact .make hmade
      · exact .idle _
  | ask r =>
      by_cases hruns : r.runs s.procNum s.server = true <;> simp [step, hruns] at h <;> subst h
      · exact .ask r
      · exact .idle _
  | client a =>
      cases a with
      | master dirs accepted =>
          by_cases hmade : s.made < s.procNum <;> simp [step, hmade] at h
          · subst h
            exact .idle _
          · exact .master h
      | receive i connected =>
          cases h
          exact .receive i connected
      | write i j k =>
          cases h
          exact .call i _ fun c => rfl
      | read i j results =>
          cases h
          exact .call i _ fun c => rfl
      | select i readReady writeReady exceptReady =>
          cases h
          exact .call i _ fun c => rfl
  | clientLine lvl message accepted =>
      simp only [step] at h
      split_ifs at h <;> cases h
      · exact .line (r := .clientLog) rfl (by simp) (by simp)
      · exact .idle _
  | serverLine lvl message accepted =>
      by_cases hserver : s.server = true <;> simp [step, hserver] at h <;> subst h
      · exact .line (r := .serverLog) hserver (by simp)
          fun _ => ⟨Server.logLine_ne_nil, Server.nul_notMem_logLine⟩
      · exact .idle _
  | clientSave =>
      simp only [step] at h
      cases hrcv : s.msgrcv .clientLog with
      | none =>
          rw [hrcv] at h
          cases h
          exact .idle _
      | some taken =>
          rw [hrcv] at h
          cases h
          exact .clientSave hrcv
  | serverSave now =>
      by_cases hserver : s.server = true <;> simp [step, hserver] at h
      · cases hrcv : s.msgrcv .serverLog with
        | none =>
            rw [hrcv] at h
            cases h
            exact .idle _
        | some taken =>
            rw [hrcv] at h
            cases h
            exact .serverSave hserver hrcv
      · subst h
        exact .idle _

/-- What stays as it is, and that who has looked for its queue does so once. -/
structure Framed (s s' : Machine) : Prop where
  procNum : s'.procNum = s.procNum
  server : s'.server = s.server
  found : ∀ r b, s.found r = some b → s'.found r = some b

theorem Framed.msgsnd {s₁ : Machine} (h : Framed s s₁) : Framed s (s₁.msgsnd r accepted text) := by
  cases accepted <;> exact ⟨h.procNum, h.server, h.found⟩

theorem framed_ask : Framed s (s.ask r) := by
  unfold ask
  by_cases hnone : s.found r = none
  · have hkeeps : ∀ r' b v, s.found r' = some b → Function.update s.found r v r' = some b := by
      intro r' b v h
      have hne : r' ≠ r := by
        rintro rfl
        cases hnone.symm.trans h
      exact (Function.update_of_ne hne _ _).trans h
    rw [if_pos hnone]
    split_ifs <;> exact ⟨rfl, rfl, fun r' b h => hkeeps r' b _ h⟩
  · rw [if_neg hnone]
    exact ⟨rfl, rfl, fun _ _ h => h⟩

theorem framed_receive (i : ℕ) (connected : Option ℕ) : Framed s (s.receive i connected) := by
  rcases receive_cases i connected s with ⟨heq, -⟩ | ⟨c, path, s₁, -, hrcv, heq⟩
  · rw [heq]
    exact ⟨rfl, rfl, fun _ _ h => h⟩
  · obtain ⟨m, rest, -, -, -, -, rfl⟩ := msgrcv_eq_some.mp hrcv
    rw [heq]
    split_ifs <;> exact ⟨rfl, rfl, fun _ _ h => h⟩

theorem framed_step {a : Act} (hstep : step s a = .ok s') : Framed s s' := by
  have hrefl : ∀ s₁ : Machine, s₁.procNum = s.procNum → s₁.server = s.server →
      s₁.found = s.found → Framed s s₁ := fun s₁ hnum hserver hfound =>
    ⟨hnum, hserver, fun r b h => hfound ▸ h⟩
  cases moved_of_step hstep with
  | idle => exact hrefl _ rfl rfl rfl
  | make => exact hrefl _ rfl rfl rfl
  | ask r => exact framed_ask
  | master h =>
      rcases masterStep_cases h with ⟨-, rfl⟩ | ⟨m, -, ⟨-, -, rfl⟩ | ⟨m', -, rfl⟩ | ⟨m', x, -, rfl⟩⟩
      · exact hrefl _ rfl rfl rfl
      · exact hrefl _ rfl rfl rfl
      · exact hrefl _ rfl rfl rfl
      · exact (hrefl { s with master := some m' } rfl rfl rfl).msgsnd
  | receive i connected => exact framed_receive i connected
  | call => exact hrefl _ rfl rfl rfl
  | @line a r accepted text hr hlog htext => exact (hrefl (s.create r) rfl rfl rfl).msgsnd
  | clientSave h =>
      obtain ⟨m, rest, -, -, -, -, rfl⟩ := msgrcv_eq_some.mp h
      exact hrefl _ rfl rfl rfl
  | serverSave hserver h =>
      obtain ⟨m, rest, -, -, -, -, rfl⟩ := msgrcv_eq_some.mp h
      exact hrefl _ rfl rfl rfl

theorem traffic_receive (hrange : InRange s) (i : ℕ) (connected : Option ℕ) :
    Traffic s (s.receive i connected) := by
  rcases receive_cases i connected s with ⟨heq, -⟩ | ⟨c, path, s₁, hchild, hrcv, heq⟩
  · rw [heq]
    exact .quiet rfl rfl rfl rfl
  · have htaken : Traffic s s₁ :=
      .of_msgrcv (decide_eq_true (hrange.children i c hchild)) hrcv (by simp)
    rw [heq]
    split_ifs
    · exact htaken.congr rfl rfl rfl rfl
    · exact htaken

theorem traffic_step {a : Act} (hrange : InRange s) (hstep : step s a = .ok s') :
    Traffic s s' := by
  cases moved_of_step hstep with
  | idle => exact .quiet rfl rfl rfl rfl
  | make => exact .quiet rfl rfl rfl rfl
  | ask r =>
      unfold ask
      split_ifs <;> exact .quiet rfl rfl rfl rfl
  | master h => exact traffic_masterStep hrange h
  | receive i connected => exact traffic_receive hrange i connected
  | call => exact .quiet rfl rfl rfl rfl
  | line hr hlog htext => exact .of_msgsnd hr htext rfl rfl rfl rfl
  | clientSave h => exact .of_msgrcv rfl h (by simp)
  | serverSave hserver h =>
      obtain ⟨m, rest, hbox, hfound, -, rfl, rfl⟩ := msgrcv_eq_some.mp h
      refine .take .serverLog m rest hserver hbox hfound rfl rfl rfl ?_
      rw [if_pos rfl]
      exact ⟨_, rfl⟩

theorem inRange_step {a : Act} (hrange : InRange s) (hstep : step s a = .ok s') : InRange s' := by
  cases moved_of_step hstep with
  | idle => exact hrange
  | make => exact ⟨hrange.outbox, hrange.children⟩
  | ask r =>
      unfold ask
      split_ifs <;> exact ⟨hrange.outbox, hrange.children⟩
  | master h => exact inRange_masterStep hrange h
  | receive i connected =>
      rcases receive_cases i connected s with ⟨heq, -⟩ | ⟨c, path, s₁, hchild, hrcv, heq⟩
      · rw [heq]
        exact hrange
      · obtain ⟨m, rest, -, -, -, -, rfl⟩ := msgrcv_eq_some.mp hrcv
        have htook : InRange (s.took (.child i) m.2) := ⟨hrange.outbox, hrange.children⟩
        rw [heq]
        split_ifs
        · exact htook.childStep
        · exact htook
  | call => exact hrange.childStep
  | @line a r accepted text hr hlog htext =>
      cases accepted <;> exact ⟨hrange.outbox, hrange.children⟩
  | clientSave h =>
      obtain ⟨m, rest, -, -, -, -, rfl⟩ := msgrcv_eq_some.mp h
      exact ⟨hrange.outbox, hrange.children⟩
  | serverSave hserver h =>
      obtain ⟨m, rest, -, -, -, -, rfl⟩ := msgrcv_eq_some.mp h
      exact ⟨hrange.outbox, hrange.children⟩

end Machine

end SmtpProj.Joint
