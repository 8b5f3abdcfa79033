import SmtpProj.Lib.History
import SmtpProj.Client.Master

/-!
Which child a domain belongs to.

The master asks for the process of a domain each time the domain turns up, and
the answer depends on all the answers before it: a domain that no process has
goes to the one with the fewest. What is kept is that no two processes have the
same domain, and that a domain stays where it is (`Homed`). So the letters of a
domain go to one child, whatever the scans find.

The posts themselves are a matter of counting: what was posted and what is still
ahead is what the scans have found, in that order.
-/

namespace SmtpProj.Client

open Lib

/-! ### The table of the processes -/

/-- Process `i` has the domain, once, and no other process has it. -/
def Homed (procNum : ℕ) (procs : ℕ → List CStr) (domain : CStr) (i : ℕ) : Prop :=
  i < procNum ∧ ∀ j < procNum, (procs j).count domain = if j = i then 1 else 0

def Settled (procNum : ℕ) (procs : ℕ → List CStr) : Prop :=
  ∀ domain, (∀ j < procNum, domain ∉ procs j) ∨ ∃ i, Homed procNum procs domain i

variable {procNum : ℕ} {procs procs' : ℕ → List CStr} {domain : CStr} {i j : ℕ}

theorem settled_nil : Settled procNum fun _ => [] := fun _ => .inl fun _ _ => List.not_mem_nil

theorem Homed.mem_iff (h : Homed procNum procs domain i) (hj : j < procNum) :
    domain ∈ procs j ↔ j = i := by
  rw [← List.count_pos_iff, h.2 j hj]
  split_ifs with hji <;> simp [hji]

theorem Homed.unique (h : Homed procNum procs domain i) (h' : Homed procNum procs domain j) :
    i = j :=
  (h'.mem_iff h.1).mp ((h.mem_iff h.1).mpr rfl)

/-- What a process is given does not move the domains that it and the others
have. -/
theorem Homed.update {given : CStr} (h : Homed procNum procs domain i) (hne : given ≠ domain) :
    Homed procNum (Function.update procs j (procs j ++ [given])) domain i := by
  refine ⟨h.1, fun k hk => ?_⟩
  rw [← h.2 k hk]
  by_cases hkj : k = j
  · subst hkj
    simp [hne]
  · rw [Function.update_of_ne hkj]

theorem homed_update (hi : i < procNum) (hnew : ∀ j < procNum, domain ∉ procs j) :
    Homed procNum (Function.update procs i (procs i ++ [domain])) domain i := by
  refine ⟨hi, fun j hj => ?_⟩
  by_cases hji : j = i
  · subst hji
    simp [List.count_eq_zero.mpr (hnew j hj)]
  · rw [Function.update_of_ne hji, if_neg hji]
    exact List.count_eq_zero.mpr (hnew j hj)

theorem Settled.update (h : Settled procNum procs) (hi : i < procNum)
    (hnew : ∀ j < procNum, domain ∉ procs j) :
    Settled procNum (Function.update procs i (procs i ++ [domain])) := by
  intro other
  by_cases hother : domain = other
  · subst hother
    exact .inr ⟨i, homed_update hi hnew⟩
  · rcases h other with hfree | ⟨k, hhome⟩
    · refine .inl fun j hj hmem => ?_
      by_cases hji : j = i
      · subst hji
        simp [Ne.symm hother, hfree j hj] at hmem
      · rw [Function.update_of_ne hji] at hmem
        exact hfree j hj hmem
    · exact .inr ⟨k, hhome.update hother⟩

/-- What `get_mail_proc_idx` answers is the home of the domain, and no home is
lost. -/
theorem getMailProcIdx_homed (hsettled : Settled procNum procs)
    (h : getMailProcIdx procNum domain procs = .ok (i, procs')) :
    Homed procNum procs' domain i ∧ Settled procNum procs' ∧
      ∀ other k, Homed procNum procs other k → Homed procNum procs' other k := by
  unfold getMailProcIdx at h
  split at h
  next k hfind =>
    cases h
    have hmem : domain ∈ procs i := by simpa using List.find?_some hfind
    have hi : i < procNum := List.mem_range.mp (List.mem_of_find?_eq_some hfind)
    refine ⟨?_, hsettled, fun _ _ hhome => hhome⟩
    rcases hsettled domain with hnew | ⟨k, hhome⟩
    · exact absurd hmem (hnew i hi)
    · rwa [(hhome.mem_iff hi).mp hmem]
  next hfind =>
    dsimp only at h
    split_ifs at h with hroom
    cases h
    have hnew : ∀ j < procNum, domain ∉ procs j := fun j hj => by
      simpa using List.find?_eq_none.mp hfind j (List.mem_range.mpr hj)
    refine ⟨homed_update hroom.1 hnew, hsettled.update hroom.1 hnew, fun other k hhome => ?_⟩
    refine hhome.update ?_
    rintro rfl
    exact hnew k hhome.1 ((hhome.mem_iff hhome.1).mpr rfl)

/-! ### The loop of the master -/

inductive MasterEvent
  /-- A scan found these letters, by domain and path. -/
  | scanned (found : List (CStr × Option CStr))
  /-- The process of a domain was asked for. -/
  | placed (domain : CStr)
  /-- A path was given to `msgsnd`, for process `i`. -/
  | posted (i : ℕ) (domain path : CStr)

def DomainMails.listing (e : DomainMails) : List (CStr × Option CStr) :=
  e.paths.map fun path => (e.domain, path)

def MailTable.listingFrom (i : ℕ) (t : MailTable) : List (CStr × Option CStr) :=
  (List.range' i (t.domainsCount - i)).flatMap fun (k : ℕ) => (t.domainsMails k).listing

namespace Master

def boot (domainsMails : ℤ → DomainMails) : Master := ⟨⟨domainsMails, 0⟩, fun _ => [], 0, []⟩

/-- The next step of `master_process_worker_start`, where a scan may leave any
table. -/
def turn (procNum : ℕ) (m : Master) (t : MailTable) : Except Halt Master :=
  match m.outbox with
  | (_, none) :: _ => .error .badPointer
  | (_, some _) :: rest => .ok { m with outbox := rest }
  | [] => if m.Scans then .ok { m with table := t, next := 0 } else m.takeEntry procNum

def current (m : Master) : CStr := (m.table.domainsMails (m.next - 1)).domain

def events (m : Master) (t : MailTable) (_ : Master) : List MasterEvent :=
  match m.outbox with
  | (_, none) :: _ => []
  | (i, some path) :: _ => [.posted i m.current path]
  | [] =>
      if m.Scans then [.scanned (t.listingFrom 0)]
      else [.placed (m.table.domainsMails m.next).domain]

def enter (i : ℕ) (procs : ℕ → List CStr) (m : Master) : Master where
  table := m.table.setEntry m.next (m.table.domainsMails m.next).clear
  procs := procs
  next := m.next + 1
  outbox := (m.table.domainsMails m.next).paths.map fun path => (i, path)

def ahead (m : Master) : List (CStr × Option CStr) :=
  m.outbox.map (fun post => (m.current, post.2)) ++ m.table.listingFrom m.next

end Master

def found (h : List MasterEvent) : List (CStr × Option CStr) :=
  h.flatMap fun
    | .scanned letters => letters
    | .placed _ => []
    | .posted _ _ _ => []

def posted (h : List MasterEvent) : List (CStr × Option CStr) :=
  h.flatMap fun
    | .posted _ domain path => [(domain, some path)]
    | .scanned _ => []
    | .placed _ => []

@[simp] theorem found_append (h h' : List MasterEvent) : found (h ++ h') = found h ++ found h' :=
  List.flatMap_append

@[simp] theorem posted_append (h h' : List MasterEvent) :
    posted (h ++ h') = posted h ++ posted h' :=
  List.flatMap_append

namespace MailTable

variable {t : MailTable} {k : ℕ}

theorem listingFrom_of_le (h : t.domainsCount ≤ k) : t.listingFrom k = [] := by
  simp [listingFrom, Nat.sub_eq_zero_of_le h]

theorem listingFrom_of_lt (h : k < t.domainsCount) :
    t.listingFrom k = (t.domainsMails k).listing ++ t.listingFrom (k + 1) := by
  obtain ⟨n, hn⟩ : ∃ n, t.domainsCount - k = n + 1 := ⟨t.domainsCount - k - 1, by omega⟩
  have hn' : t.domainsCount - (k + 1) = n := by omega
  simp [listingFrom, hn, hn', List.range'_succ]

theorem listingFrom_setEntry (e : DomainMails) :
    (t.setEntry k e).listingFrom (k + 1) = t.listingFrom (k + 1) := by
  unfold listingFrom
  refine List.flatMap_congr fun i hi => ?_
  have hne : (i : ℤ) ≠ k := by
    have := (List.mem_range'_1.mp hi).1
    omega
  simp [setEntry, Function.update_of_ne hne]

end MailTable

namespace Master

variable {m m' : Master} {t : MailTable} {h : List MasterEvent}

theorem takeEntry_of_idx (h : getMailProcIdx procNum (m.table.domainsMails m.next).domain m.procs =
    .ok (i, procs')) : m.takeEntry procNum = .ok (m.enter i procs') := by
  simp only [takeEntry, h]
  rfl

theorem ahead_enter (hlt : m.next < m.table.domainsCount) :
    (m.enter i procs').ahead = m.table.listingFrom m.next := by
  have hpaths : (m.enter i procs').outbox.map (fun post => ((m.enter i procs').current, post.2)) =
      (m.table.domainsMails m.next).listing := by
    simp [enter, current, MailTable.setEntry, DomainMails.clear, DomainMails.listing]
  rw [ahead, hpaths, MailTable.listingFrom_of_lt hlt]
  exact congrArg _ (MailTable.listingFrom_setEntry _)

/-- Everything that a step of the loop can do: post a path, scan, or come to an
entry and ask for its process. -/
theorem turn_ok (hturn : m.turn procNum t = .ok m') :
    (∃ i path rest, m.outbox = (i, some path) :: rest ∧ m' = { m with outbox := rest } ∧
        m.events t m' = [.posted i m.current path]) ∨
      (m.Scans ∧ m' = { m with table := t, next := 0 } ∧
        m.events t m' = [.scanned (t.listingFrom 0)]) ∨
      (m.outbox = [] ∧ m.next < m.table.domainsCount ∧
        m.events t m' = [.placed (m.table.domainsMails m.next).domain] ∧
          ∃ i procs', getMailProcIdx procNum (m.table.domainsMails m.next).domain m.procs =
              .ok (i, procs') ∧ m' = m.enter i procs') := by
  unfold turn at hturn
  split at hturn
  next => cases hturn
  next i path rest hout =>
    cases hturn
    exact .inl ⟨i, path, rest, hout, rfl, by simp [events, hout]⟩
  next hout =>
    split_ifs at hturn with hscans
    · cases hturn
      exact .inr (.inl ⟨hscans, rfl, by simp [events, hout, hscans]⟩)
    · obtain ⟨⟨i, procs'⟩, hidx, hrest⟩ := bind_eq_ok.mp hturn
      cases hrest
      refine .inr (.inr ⟨hout, ?_, by simp [events, hout, hscans], i, procs', hidx, rfl⟩)
      exact not_le.mp fun hle => hscans ⟨hout, hle⟩

structure Steady (procNum : ℕ) (m : Master) (h : List MasterEvent) : Prop where
  settled : Settled procNum m.procs
  outbox : ∀ post ∈ m.outbox, Homed procNum m.procs m.current post.1
  posted : ∀ i domain path, .posted i domain path ∈ h → Homed procNum m.procs domain i
  placed : ∀ domain, .placed domain ∈ h → ∃ i, Homed procNum m.procs domain i
  balance : Client.posted h ++ m.ahead = found h

theorem steady_boot (procNum : ℕ) (domainsMails : ℤ → DomainMails) :
    Steady procNum (boot domainsMails) [] :=
  ⟨settled_nil, by simp [boot], by simp, by simp, rfl⟩

theorem Steady.turn (hm : Steady procNum m h) (hturn : m.turn procNum t = .ok m') :
    Steady procNum m' (h ++ m.events t m') := by
  rcases turn_ok hturn with ⟨i, path, rest, hout, rfl, hevents⟩ | ⟨hscans, rfl, hevents⟩ |
    ⟨hout, hlt, hevents, i, procs', hidx, rfl⟩
  · -- a path is posted, to the home of its domain
    rw [hevents]
    refine ⟨hm.settled, fun post hpost => hm.outbox post (by simp [hout, hpost]),
      fun k domain p hmem => ?_, fun domain hmem => ?_, ?_⟩
    · rcases List.mem_append.mp hmem with hmem | hmem
      · exact hm.posted k domain p hmem
      · obtain ⟨rfl, rfl, rfl⟩ : k = i ∧ domain = m.current ∧ p = path := by simpa using hmem
        exact hm.outbox (k, some p) (by simp [hout])
    · exact hm.placed domain (by simpa using hmem)
    · rw [found_append, ← hm.balance]
      simp [Client.posted, found, ahead, hout, current]
  · -- a scan finds new letters when none is ahead
    rw [hevents]
    refine ⟨hm.settled, by simp [hscans.1], fun k domain p hmem => ?_, fun domain hmem => ?_, ?_⟩
    · exact hm.posted k domain p (by simpa using hmem)
    · exact hm.placed domain (by simpa using hmem)
    · rw [found_append, ← hm.balance]
      simp [Client.posted, found, ahead, hscans.1, MailTable.listingFrom_of_le hscans.2]
  · -- the process of the next entry is looked up
    obtain ⟨hhome, hsettled, hkept⟩ := getMailProcIdx_homed hm.settled hidx
    rw [hevents]
    refine ⟨hsettled, fun post hpost => ?_, fun k domain p hmem => ?_, fun domain hmem => ?_, ?_⟩
    · obtain ⟨path, -, rfl⟩ := List.mem_map.mp hpost
      simpa [current, enter, MailTable.setEntry, DomainMails.clear] using hhome
    · exact hkept domain k (hm.posted k domain p (by simpa using hmem))
    · rcases List.mem_append.mp hmem with hmem | hmem
      · obtain ⟨k, hk⟩ := hm.placed domain hmem
        exact ⟨k, hkept domain k hk⟩
      · obtain rfl : domain = (m.table.domainsMails m.next).domain := by simpa using hmem
        exact ⟨i, hhome⟩
    · rw [found_append, ← hm.balance, posted_append, ahead_enter hlt]
      simp [Client.posted, found, ahead, hout]

/-! ### The loop goes on -/

theorem getMailProcIdx_error {halt : Halt}
    (h : getMailProcIdx procNum domain procs = .error halt) : halt = .outOfBounds := by
  unfold getMailProcIdx at h
  split at h
  next => cases h
  next =>
    dsimp only at h
    split_ifs at h
    cases h
    rfl

/-- The paths of the entry at hand are posted one by one. -/
theorem turn_posts (t : MailTable) (hpaths : ∀ post ∈ m.outbox, post.2 ≠ none) :
    run (turn procNum) m (List.replicate m.outbox.length t) = .ok { m with outbox := [] } := by
  obtain ⟨table, procs, next, outbox⟩ := m
  induction outbox with
  | nil => rfl
  | cons post rest ih =>
      obtain ⟨hpost, hrest⟩ := List.forall_mem_cons.mp hpaths
      obtain ⟨i, path⟩ := post
      obtain ⟨path, rfl⟩ := Option.ne_none_iff_exists'.mp hpost
      rw [List.length_cons, List.replicate_succ, run_cons_ok
        (show turn procNum ⟨table, procs, next, (i, some path) :: rest⟩ t =
          .ok ⟨table, procs, next, rest⟩ from rfl)]
      exact ih hrest

/-- The loop comes to the next scan, unless a process has no room for another
domain. -/
theorem turn_scans (t : MailTable) (hpaths : ∀ letter ∈ m.ahead, letter.2 ≠ none) :
    ∃ n, Ends Scans (· = .outOfBounds) (run (turn procNum) m (List.replicate n t)) := by
  obtain ⟨left, hleft⟩ : ∃ left, left = m.table.domainsCount - m.next := ⟨_, rfl⟩
  induction left generalizing m with
  | zero =>
      refine ⟨m.outbox.length, ?_⟩
      rw [turn_posts t fun post hpost => hpaths (m.current, post.2) (List.mem_append_left _
        (List.mem_map.mpr ⟨post, hpost, rfl⟩))]
      exact .ok ⟨rfl, Nat.sub_eq_zero_iff_le.mp hleft.symm⟩
  | succ left ih =>
      have hlt : m.next < m.table.domainsCount := by omega
      have hposts : run (turn procNum) m (List.replicate m.outbox.length t) =
          .ok { m with outbox := [] } := turn_posts t fun post hpost =>
        hpaths (m.current, post.2) (List.mem_append_left _ (List.mem_map.mpr ⟨post, hpost, rfl⟩))
      have hstep : turn procNum { m with outbox := [] } t =
          takeEntry procNum { m with outbox := [] } :=
        if_neg fun hscans => absurd hscans.2 (not_le.mpr hlt)
      cases hidx : getMailProcIdx procNum (m.table.domainsMails m.next).domain m.procs with
      | error halt =>
          obtain rfl := getMailProcIdx_error hidx
          refine ⟨m.outbox.length + 1, ?_⟩
          rw [List.replicate_succ', run_append_ok hposts, run_cons, hstep, takeEntry, hidx]
          exact .error rfl
      | ok answer =>
          obtain ⟨i, procs'⟩ := answer
          have hnext : ∀ letter ∈ (m.enter i procs').ahead, letter.2 ≠ none := by
            rw [ahead_enter hlt]
            exact fun letter hletter => hpaths letter (List.mem_append_right _ hletter)
          obtain ⟨n, hn⟩ := ih hnext (show left = m.table.domainsCount - (m.next + 1) by omega)
          refine ⟨m.outbox.length + (1 + n), ?_⟩
          rw [List.replicate_add, run_append_ok hposts, List.replicate_add, List.replicate_one,
            List.singleton_append, run_cons_ok (hstep.trans (takeEntry_of_idx hidx))]
          exact hn

/-! ### The run -/

/-- A step of the master as it is scans the directories, and is a step of the
loop with what the scan leaves. -/
theorem turn_of_step {mailDir : CStr} {dirs : List (CStr × List CStr)} {msg : Option (ℕ × CStr)}
    (hstep : m.step mailDir procNum dirs = .ok (m', msg)) :
    ∃ t, m.turn procNum t = .ok m' ∧ (m.Scans → getDomainsMails mailDir dirs m.table = .ok t) ∧
      ∀ i path, msg = some (i, path) ↔ .posted i m.current path ∈ m.events t m' := by
  unfold step at hstep
  split at hstep
  next => cases hstep
  next i path rest hout =>
    cases hstep
    refine ⟨m.table, by simp [turn, hout], fun hscans => ?_, fun k p => ?_⟩
    · simp [hscans.1] at hout
    · simp [events, hout, eq_comm]
  next hout =>
    split_ifs at hstep with hscans
    · obtain ⟨m₁, hscan, hrest⟩ := bind_eq_ok.mp hstep
      obtain ⟨t, ht, hm₁⟩ := bind_eq_ok.mp hscan
      cases hm₁
      cases hrest
      refine ⟨t, by simp [turn, hout, hscans], fun _ => ht, by simp [events, hout, hscans]⟩
    · obtain ⟨m₁, htake, hrest⟩ := bind_eq_ok.mp hstep
      cases hrest
      refine ⟨m.table, by simp [turn, hout, hscans, htake], fun h => absurd h hscans,
        by simp [events, hout, hscans]⟩

/-- Whatever the scans find: the letters of one domain are posted to one
process, each of them once and in the order they were found, and a domain that
was asked for is in the list of one process, once. Nothing keeps the loop from
its next scan but a process whose list is full. -/
theorem domain_affinity {domainsMails : ℤ → DomainMails} {ts : List MailTable}
    (hfilled : ∀ t ∈ ts, ∀ letter ∈ t.listingFrom 0, letter.2 ≠ none)
    (hrun : run (logged (turn procNum) events) (boot domainsMails, []) ts = .ok (m, h)) :
    (∀ i j domain p q, .posted i domain p ∈ h → .posted j domain q ∈ h → i = j) ∧
      (∀ domain, .placed domain ∈ h → ∃ i < procNum, ∀ j < procNum,
        (m.procs j).count domain = if j = i then 1 else 0) ∧
      posted h ++ m.ahead = found h ∧ (m.Scans → posted h = found h) ∧
        ∀ t, ∃ n, Ends Scans (· = .outOfBounds) (run (turn procNum) m (List.replicate n t)) := by
  have hinv : Steady procNum m h ∧ ∀ letter ∈ found h, letter.2 ≠ none := by
    refine run_invariant (P := fun c => Steady procNum c.1 c.2 ∧
      ∀ letter ∈ found c.2, letter.2 ≠ none)
      (G := fun _ t => ∀ letter ∈ t.listingFrom 0, letter.2 ≠ none) (fun c t c' hc ht hok => ?_)
      ⟨steady_boot procNum domainsMails, by simp [found]⟩
      (guarded_of_forall fun t hmem _ => hfilled t hmem) hrun
    obtain ⟨hturn, hlog⟩ := logged_eq_ok.mp hok
    refine ⟨hlog ▸ hc.1.turn hturn, ?_⟩
    rw [hlog, found_append]
    refine List.forall_mem_append.mpr ⟨hc.2, ?_⟩
    rcases turn_ok hturn with ⟨i, path, rest, -, -, hevents⟩ | ⟨-, -, hevents⟩ |
      ⟨-, -, hevents, -⟩ <;> rw [hevents]
    · simp [found]
    · simpa [found] using ht
    · simp [found]
  obtain ⟨hsteady, hpaths⟩ := hinv
  refine ⟨fun i j domain p q hp hq => ?_, hsteady.placed, hsteady.balance, fun hscans => ?_,
    fun t => turn_scans t fun letter hletter => ?_⟩
  · exact (hsteady.posted i domain p hp).unique (hsteady.posted j domain q hq)
  · have hbalance := hsteady.balance
    simpa [ahead, hscans.1, MailTable.listingFrom_of_le hscans.2] using hbalance
  · exact hpaths letter (hsteady.balance ▸ List.mem_append_right _ hletter)

def sampleTable : MailTable where
  domainsMails := fun i =>
    if i = 0 then ⟨"a.b".toList, fun _ => some (sampleLetter "a.b"), 2⟩
    else ⟨"c.d".toList, fun _ => some (sampleLetter "c.d"), 1⟩
  domainsCount := 2

/-- Two scans, and the posts of the first. -/
theorem domain_affinity_sample : ∃ m h,
    run (logged (turn 2) events) (boot fun _ => ⟨[], fun _ => none, 0⟩, [])
        (List.replicate 7 sampleTable) = .ok (m, h) ∧
      ∀ i j domain p q, .posted i domain p ∈ h → .posted j domain q ∈ h → i = j := by
  have hfilled : ∀ t ∈ List.replicate 7 sampleTable, ∀ letter ∈ t.listingFrom 0,
      letter.2 ≠ none := by
    intro t ht
    rw [List.eq_of_mem_replicate ht]
    decide
  have hrun : run (logged (turn 2) events) (boot fun _ => ⟨[], fun _ => none, 0⟩, [])
      (List.replicate 7 sampleTable) = .ok _ := rfl
  exact ⟨_, _, hrun, (domain_affinity hfilled hrun).1⟩

end Master

end SmtpProj.Client
