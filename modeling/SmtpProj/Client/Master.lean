import SmtpProj.Client.Child

/-!
The master process (`scheduler.c`, `get_domains_mails`) and the client as a
whole: one master, its children, a message queue to each of them, and the
files they share.

The master scans the user directories into its table of domains, then sends
every path in the table to the child that serves the domain, entry by entry,
and clears the entry. The table is memory of the stack: what lies beyond
`domainsCount` was never written, and a new entry is reset at index
`found_domain_num`, which is -1 there.

A step of the client is the next thing the master does, or a call of a child;
the two interleave in any order. The files are one state for all the processes.
-/

namespace SmtpProj.Client

open Lib

/-! ### The table of domains -/

structure DomainMails where
  domain : CStr
  mailsPaths : ℕ → Option CStr
  mailsCount : ℤ

/-- The array `domains_mails` with what lies before it, and `domains_count`. -/
structure MailTable where
  domainsMails : ℤ → DomainMails
  domainsCount : ℕ

def maxMailsPaths : ℕ := 100

def maxDomainsMails : ℕ := 100

def maxProcDomains : ℕ := 60

namespace DomainMails

def paths (e : DomainMails) : List (Option CStr) :=
  (List.range e.mailsCount.toNat).map e.mailsPaths

/-- An entry that is found: the path is looked up among those it has, and
added behind them. -/
def addMail (path : CStr) (e : DomainMails) : Except Halt DomainMails :=
  if none ∈ e.paths then .error .badPointer
  else if some path ∈ e.paths then .ok e
  else if 0 ≤ e.mailsCount ∧ e.mailsCount < maxMailsPaths then
    .ok { e with
      mailsPaths := Function.update e.mailsPaths e.mailsCount.toNat (some path)
      mailsCount := e.mailsCount + 1 }
  else .error .outOfBounds

def startMail (domain path : CStr) (e : DomainMails) : DomainMails where
  domain := domain
  mailsPaths := Function.update e.mailsPaths 0 (some path)
  mailsCount := e.mailsCount + 1

def clear (e : DomainMails) : DomainMails :=
  { e with mailsPaths := fun _ => none, mailsCount := 0 }

end DomainMails

namespace MailTable

def setEntry (i : ℤ) (e : DomainMails) (t : MailTable) : MailTable :=
  { t with domainsMails := Function.update t.domainsMails i e }

def findDomain (domain : CStr) (t : MailTable) : Option ℕ :=
  (List.range t.domainsCount).foldl
    (fun found (i : ℕ) => if domain = (t.domainsMails i).domain then some i else found) none

def addLetter (t : MailTable) (letter : CStr × CStr) : Except Halt MailTable := do
  let domain ← emailDomain letter.2
  match t.findDomain domain with
  | none =>
      if t.domainsCount < maxDomainsMails then
        -- the count is reset at index -1, and not in the new entry
        let t := t.setEntry (-1) { t.domainsMails (-1) with mailsCount := 0 }
        let e := t.domainsMails t.domainsCount
        .ok { t.setEntry t.domainsCount (e.startMail domain letter.1) with
          domainsCount := t.domainsCount + 1 }
      else .error .outOfBounds
  | some i => do
      let e ← (t.domainsMails i).addMail letter.1
      .ok (t.setEntry i e)

end MailTable

/-- The names that the loops over a directory pass over. -/
def isDots (name : CStr) : Bool := name = ".".toList ∨ name = "..".toList

/-- The letters that the nested loops over the mail directory come to, by path
and name; `dirs` is what `readdir` lists, user by user. -/
def listedLetters (mailDir : CStr) (dirs : List (CStr × List CStr)) : List (CStr × CStr) :=
  (dirs.filter fun dir => !isDots dir.1).flatMap fun dir =>
    (dir.2.filter fun name => !isDots name).map fun name =>
      (getUserNewDirFullPath mailDir dir.1 ++ name, name)

def getDomainsMails (mailDir : CStr) (dirs : List (CStr × List CStr)) (t : MailTable) :
    Except Halt MailTable :=
  run MailTable.addLetter t (listedLetters mailDir dirs)

/-! ### The processes -/

/-- `get_mail_proc_idx`: the process that has the domain, or the one with the
fewest, which then has it. `procs` are the domains of each process. -/
def getMailProcIdx (procNum : ℕ) (domainName : CStr) (procs : ℕ → List CStr) :
    Except Halt (ℕ × (ℕ → List CStr)) :=
  match (List.range procNum).find? fun j => domainName ∈ procs j with
  | some j => .ok (j, procs)
  | none =>
      let minProcIdx := (List.range procNum).foldl
        (fun min j => if (procs min).length > (procs j).length then j else min) 0
      if minProcIdx < procNum ∧ (procs minProcIdx).length < maxProcDomains then
        .ok (minProcIdx, Function.update procs minProcIdx (procs minProcIdx ++ [domainName]))
      else .error .outOfBounds

/-- A loop that moves on to what is less ends at a least. -/
theorem foldl_least_le (f : ℕ → ℕ) (n : ℕ) : ∀ j < n,
    f ((List.range n).foldl (fun min j => if f min > f j then j else min) 0) ≤ f j := by
  induction n with
  | zero => exact fun j hj => absurd hj (Nat.not_lt_zero j)
  | succ n ih =>
      intro j hj
      rw [List.range_succ, List.foldl_append]
      simp only [List.foldl_cons, List.foldl_nil]
      split_ifs with hless
      · rcases Nat.lt_succ_iff_lt_or_eq.mp hj with hj | rfl
        · exact hless.le.trans (ih j hj)
        · exact le_rfl
      · rcases Nat.lt_succ_iff_lt_or_eq.mp hj with hj | rfl
        · exact ih j hj
        · exact not_lt.mp hless

theorem foldl_least_lt (f : ℕ → ℕ) (n : ℕ) (hn : 0 < n) :
    (List.range n).foldl (fun min j => if f min > f j then j else min) 0 < n := by
  obtain ⟨n, rfl⟩ : ∃ m, n = m + 1 := ⟨n - 1, by omega⟩
  clear hn
  induction n with
  | zero => simp
  | succ n ih =>
      rw [List.range_succ, List.foldl_append]
      simp only [List.foldl_cons, List.foldl_nil]
      split_ifs <;> omega

structure Master where
  table : MailTable
  procs : ℕ → List CStr
  /-- The next entry that the send loop comes to. -/
  next : ℕ
  /-- The paths of the entry at hand that are still to be sent, and where to. -/
  outbox : List (ℕ × Option CStr)

namespace Master

def takeEntry (procNum : ℕ) (m : Master) : Except Halt Master := do
  let e := m.table.domainsMails m.next
  let (idx, procs) ← getMailProcIdx procNum e.domain m.procs
  .ok {
    table := m.table.setEntry m.next e.clear
    procs := procs
    next := m.next + 1
    outbox := e.paths.map fun path => (idx, path) }

def scan (mailDir : CStr) (dirs : List (CStr × List CStr)) (m : Master) : Except Halt Master := do
  let table ← getDomainsMails mailDir dirs m.table
  .ok { m with table := table, next := 0 }

def Scans (m : Master) : Prop := m.outbox = [] ∧ m.table.domainsCount ≤ m.next

instance (m : Master) : Decidable m.Scans := inferInstanceAs (Decidable (_ ∧ _))

/-- The next step of `master_process_worker_start`, and the message that is
given to `msgsnd`, if it is a call of that. -/
def step (mailDir : CStr) (procNum : ℕ) (dirs : List (CStr × List CStr)) (m : Master) :
    Except Halt (Master × Option (ℕ × CStr)) :=
  match m.outbox with
  | (_, none) :: _ => .error .badPointer
  | (i, some path) :: rest => .ok ({ m with outbox := rest }, some (i, path))
  | [] =>
      if m.Scans then do
        let m ← m.scan mailDir dirs
        .ok (m, none)
      else do
        let m ← m.takeEntry procNum
        .ok (m, none)

end Master

/-! ### The client -/

/-- A process that has stopped is `none`. -/
structure MailClient where
  mailDir : CStr
  procNum : ℕ
  master : Option Master
  queues : ℕ → List CStr
  children : ℕ → Option Child
  files : CStr → Option (List Char)

inductive Action
  | master (dirs : List (CStr × List CStr)) (accepted : Bool)
  | receive (i : ℕ) (connected : Option ℕ)
  | write (i j : ℕ) (k : WriteKernel)
  | read (i j : ℕ) (results : List RecvResult)
  | select (i : ℕ) (readReady writeReady exceptReady : Finset ℤ)

namespace MailClient

/-- `msgsnd`, which a full queue refuses; its result is not looked at. -/
def send (accepted : Bool) (msg : Option (ℕ × CStr)) (s : MailClient) : MailClient :=
  match msg, accepted with
  | some (i, path), true => { s with queues := Function.update s.queues i (s.queues i ++ [path]) }
  | _, _ => s

def masterStep (dirs : List (CStr × List CStr)) (accepted : Bool) (s : MailClient) : MailClient :=
  match s.master with
  | none => s
  | some m =>
      match m.step s.mailDir s.procNum dirs with
      | .error _ => { s with master := none }
      | .ok (m, msg) => { s with master := some m }.send accepted msg

def childStep (i : ℕ) (op : Op) (s : MailClient) : MailClient :=
  match s.children i with
  | none => s
  | some c =>
      match { c with files := s.files }.step op with
      | .error _ => { s with children := Function.update s.children i none }
      | .ok c => { s with children := Function.update s.children i (some c), files := c.files }

/-- `msgrcv` of a child; an empty path is not registered. -/
def receive (i : ℕ) (connected : Option ℕ) (s : MailClient) : MailClient :=
  match s.children i, s.queues i with
  | some _, path :: rest =>
      let s := { s with queues := Function.update s.queues i rest }
      if path ≠ [] then s.childStep i (.register path connected) else s
  | _, _ => s

/-- A process that stops does not stop the client. -/
def step (s : MailClient) : Action → Except Halt MailClient
  | .master dirs accepted => .ok (s.masterStep dirs accepted)
  | .receive i connected => .ok (s.receive i connected)
  | .write i j k => .ok (s.childStep i (.write j k))
  | .read i j results => .ok (s.childStep i (.read j results))
  | .select i readReady writeReady exceptReady =>
      .ok (s.childStep i (.select readReady writeReady exceptReady))

end MailClient

/-- The client after `run_client` has started its processes: nothing was
scanned, and the tables are memory that was never written. -/
def bootClient (conf : Conf) (procNum : ℕ) (files : CStr → Option (List Char))
    (domains : ℤ → CStr) (counts : ℤ → ℤ) (memory : ℕ → ℕ → Dscrptr) : MailClient where
  mailDir := conf.mailDir
  procNum := procNum
  master := some ⟨⟨fun i => ⟨domains i, fun _ => none, counts i⟩, 0⟩, fun _ => [], 0, []⟩
  queues := fun _ => []
  children := fun i => if i < procNum then some (bootChild conf files (memory i)) else none
  files := files

end SmtpProj.Client
