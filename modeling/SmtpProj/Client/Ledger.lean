import Mathlib.Data.List.ReduceOption
import SmtpProj.Lib.History
import SmtpProj.Client.GivenUp

/-!
What becomes of the letters that the master posts.

A path that `msgsnd` has accepted is in the queue of a child, then in one of its
lists, and leaves the list with a reply to its body. It can also be dropped when
it is registered, or be lost with a child that stops. The history of a run notes
these four fates, each where the code decides it, and the books balance: for
every child and every path, what was posted is what is in the queue and in the
lists, and what was removed, dropped and lost.
-/

namespace SmtpProj.Client

open Lib

/-! ### Postings -/

inductive Fate
  | posted
  /-- It has left its list with a reply to its body. -/
  | removed
  /-- It was taken from the queue and put in no list. -/
  | dropped
  /-- Its child has stopped. -/
  | lost
  deriving DecidableEq

structure Posting where
  proc : ℕ
  fate : Fate
  path : CStr
  deriving DecidableEq

def Child.paths (c : Child) : List CStr :=
  (List.range c.readyDomainsCount).flatMap fun j => (c.dscrptrs j).mailsList.reduceOption

def Op.brought : Op → List CStr
  | .register path _ => [path]
  | .write _ _ => []
  | .read _ _ => []
  | .select _ _ _ => []

/-- The letter that a reply removes: the first of a session that has sent its
body and gets a reply that is no error. -/
def Child.removes (j : ℕ) (results : List RecvResult) (c : Child) : List CStr :=
  if j < c.readyDomainsCount ∧ (c.dscrptrs j).state = .sendBody ∧
      ∀ reply ∈ c.receive results (c.dscrptrs j), checkServerCode reply ≠ .error then
    ((c.dscrptrs j).mailsList.take 1).reduceOption
  else []

/-- The letter that a registration drops: the session it comes to is done. -/
def Child.drops (path : CStr) (c c' : Child) : List CStr :=
  match emailDomain path with
  | .error _ => []
  | .ok domain => if (c'.dscrptrs (c.slotOf domain)).state = .done then [path] else []

def Child.decides (c : Child) (op : Op) : List (Fate × CStr) :=
  match c.step op, op with
  | .error _, op => (op.brought ++ c.paths).map (.lost, ·)
  | .ok c', .register path _ => (c.drops path c').map (.dropped, ·)
  | .ok _, .read j results => (c.removes j results).map (.removed, ·)
  | .ok _, .write _ _ => []
  | .ok _, .select _ _ _ => []

/-! ### The lists of a child -/

theorem sum_add_term {s : Finset ℕ} {f g : ℕ → ℕ} {j : ℕ} (hj : j ∈ s)
    (h : ∀ k, k ≠ j → g k = f k) : ∑ k ∈ s, g k + f j = ∑ k ∈ s, f k + g j := by
  have hrest : ∑ k ∈ s.erase j, g k = ∑ k ∈ s.erase j, f k :=
    Finset.sum_congr rfl fun k hk => h k (Finset.ne_of_mem_erase hk)
  rw [← Finset.add_sum_erase s g hj, ← Finset.add_sum_erase s f hj, hrest]
  omega

theorem count_reduceOption (p : CStr) (mails : List (Option CStr)) :
    mails.reduceOption.count p = mails.count (some p) := by
  induction mails with
  | nil => rfl
  | cons mail mails ih =>
      cases mail with
      | none => rw [List.reduceOption_cons_of_none, ih, List.count_cons_of_ne (by simp)]
      | some path =>
          rw [List.reduceOption_cons_of_some, List.count_cons, List.count_cons, ih]
          simp

theorem count_paths (p : CStr) (c : Child) : c.paths.count p = inLists p c := by
  unfold Child.paths inLists
  induction c.readyDomainsCount with
  | zero => rfl
  | succ n ih =>
      rw [List.range_succ, List.flatMap_append, List.count_append, ih, Finset.sum_range_succ,
        List.flatMap_singleton, count_reduceOption]

namespace Child

variable {c c' : Child} {p : CStr}

theorem count_enqueue (p path : CStr) (d : Dscrptr) :
    (d.enqueue path).mailsList.count (some p) + (if d.state = .done then [path] else []).count p =
      d.mailsList.count (some p) + [path].count p := by
  unfold Dscrptr.enqueue
  split_ifs
  · rfl
  · simp [addFirst, List.count_cons]

/-- A letter that is registered is added to a list or dropped. -/
theorem inLists_add_drops {path : CStr} {connected : Option ℕ} (hfiled : c.Filed)
    (h : c.registerNewEmail connected path = .ok c') (p : CStr) :
    inLists p c' + (c.drops path c').count p = inLists p c + [path].count p := by
  obtain ⟨domain, j, attempt, d, hdomain, hreach, hreg⟩ := registerNewEmail_ok h
  have hslot := hreg.slot
  have hdrops : c.drops path c' = if d.state = .done then [path] else [] := by
    simp only [drops, hdomain]
    rw [hreach.slotOf hfiled, hslot, Dscrptr.enqueue_state]
  have hadd := count_enqueue p path d
  rw [← hdrops, ← hslot] at hadd
  have hknown : j < c.readyDomainsCount → d.mailsList = (c.dscrptrs j).mailsList →
      inLists p c' + (c.drops path c').count p = inLists p c + [path].count p := by
    intro hj hmails
    have hready : c'.readyDomainsCount = c.readyDomainsCount := by
      rw [hreg.ready]
      omega
    have hsum := sum_add_term (f := fun i => (c.dscrptrs i).mailsList.count (some p))
      (g := fun i => (c'.dscrptrs i).mailsList.count (some p)) (Finset.mem_range.mpr hj)
      fun i hi => by rw [hreg.other hi]
    rw [hmails] at hadd
    unfold inLists
    rw [hready]
    omega
  cases hreach with
  | fresh hnew hd =>
      have hready : c'.readyDomainsCount = c.readyDomainsCount + 1 := by
        rw [hreg.ready]
        omega
      have hold : ∑ i ∈ Finset.range c.readyDomainsCount, (c'.dscrptrs i).mailsList.count (some p) =
          inLists p c :=
        Finset.sum_congr rfl fun i hi => by rw [hreg.other (Finset.mem_range.mp hi).ne]
      rw [inLists, hready, Finset.sum_range_succ, hold]
      simp only [List.count_cons_of_ne (show (none : Option CStr) ≠ some p by simp),
        List.count_nil] at hadd
      omega
  | reopened hj _ _ hd => exact hknown hj (Dscrptr.initConn_kept hd).2
  | busy hj => exact hknown hj rfl

/-- A letter that is answered leaves its list. -/
theorem inLists_add_removes {j : ℕ} {results : List RecvResult}
    (h : c.handleReadSocket results j = .ok c') (p : CStr) :
    inLists p c' + (c.removes j results).count p = inLists p c := by
  obtain ⟨reply, d, hreply, hd, hc'⟩ := handleReadSocket_ok.mp h
  have hready : c'.readyDomainsCount = c.readyDomainsCount := by
    rw [hc']
    rfl
  have hslots : c'.dscrptrs = Function.update c.dscrptrs j d := by
    rw [hc']
    rfl
  have hother : ∀ i, i ≠ j → c'.dscrptrs i = c.dscrptrs i := fun i hi => by
    rw [hslots, Function.update_of_ne hi]
  have hself : j < c.readyDomainsCount →
      d.mailsList.count (some p) + (c.removes j results).count p =
        (c.dscrptrs j).mailsList.count (some p) := by
    intro hj
    rcases Dscrptr.advance_ok hd with ⟨hbody, hpos, mails, st, hmails, -, rfl⟩ |
        ⟨hkeep, st, -, rfl⟩
    · rw [removes, if_pos ⟨hj, hbody, by simpa [hreply] using hpos⟩, count_reduceOption]
      cases hlist : (c.dscrptrs j).mailsList with
      | nil =>
          rw [hlist] at hmails
          cases hmails
          rfl
      | cons mail rest =>
          rw [hlist] at hmails
          cases mail with
          | none => cases hmails
          | some path =>
              cases hmails
              simp [List.count_cons]
    · rw [removes, if_neg fun hsent => hsent.2.2 reply hreply (hkeep hsent.2.1)]
      rfl
  by_cases hj : j < c.readyDomainsCount
  · have hsum := sum_add_term (f := fun i => (c.dscrptrs i).mailsList.count (some p))
      (g := fun i => (c'.dscrptrs i).mailsList.count (some p)) (Finset.mem_range.mpr hj)
      fun i hi => by rw [hother i hi]
    have hcount := hself hj
    rw [hslots, Function.update_self, ← hslots] at hsum
    unfold inLists
    rw [hready]
    omega
  · rw [removes, if_neg fun hsent => hj hsent.1, List.count_nil, Nat.add_zero]
    unfold inLists
    rw [hready]
    refine Finset.sum_congr rfl fun i hi => ?_
    rw [hother i ((Finset.mem_range.mp hi).trans_le (not_lt.mp hj)).ne]

theorem inLists_write_eq {j : ℕ} {k : WriteKernel} (h : c.handleWriteSocket k j = .ok c')
    (p : CStr) : inLists p c' = inLists p c := by
  obtain ⟨r, hr, hw⟩ := handleWriteSocket_ok h
  unfold inLists
  rw [hw.ready, hw.dscrptrs]
  refine Finset.sum_congr rfl fun i _ => ?_
  by_cases hij : i = j
  · subst hij
    rw [Function.update_self, (Dscrptr.sendMsgToServer_ok hr).1.mailsList]
  · rw [Function.update_of_ne hij]

def tally (f : Fate) (p : CStr) (h : List (Fate × CStr)) : ℕ := h.count (f, p)

theorem count_map_fate (f g : Fate) (p : CStr) (paths : List CStr) :
    tally f p (paths.map (g, ·)) = if g = f then paths.count p else 0 := by
  unfold tally
  split_ifs with hfate
  · subst hfate
    exact List.count_map_of_injective paths (g, ·) (fun _ _ h => (Prod.mk.inj h).2) p
  · refine List.count_eq_zero.mpr fun hmem => ?_
    obtain ⟨path, -, heq⟩ := List.mem_map.mp hmem
    exact hfate (Prod.mk.inj heq).1

/-- What a call that completes brings to a child is in its lists afterwards, or
was removed or dropped. -/
theorem balance_of_ok {op : Op} (hfiled : c.Filed) (h : c.step op = .ok c') (p : CStr) :
    op.brought.count p + inLists p c = inLists p c' + tally .removed p (c.decides op) +
      tally .dropped p (c.decides op) + tally .lost p (c.decides op) := by
  simp only [decides, h]
  cases op with
  | register path connected =>
      have hadd := inLists_add_drops hfiled h p
      simp only [count_map_fate, Op.brought]
      simp
      omega
  | write j k =>
      have hsame := inLists_write_eq h p
      simp only [Op.brought, tally, List.count_nil]
      omega
  | read j results =>
      have hremoves := inLists_add_removes h p
      simp only [Op.brought, count_map_fate]
      simp
      omega
  | select readReady writeReady exceptReady =>
      cases h
      simp [Op.brought, tally, inLists]

theorem balance_of_error {op : Op} {halt : Halt} (h : c.step op = .error halt) (p : CStr) :
    op.brought.count p + inLists p c = tally .removed p (c.decides op) +
      tally .dropped p (c.decides op) + tally .lost p (c.decides op) := by
  simp only [decides, h, count_map_fate, List.count_append, count_paths]
  simp

end Child

namespace MailClient

/-! ### The books -/

def callPostings (k : ℕ) (op : Op) (s : MailClient) : List Posting :=
  match s.children k with
  | none => []
  | some c => (({ c with files := s.files } : Child).decides op).map fun x => ⟨k, x.1, x.2⟩

def entries (s : MailClient) (a : Action) (_ : MailClient) : List Posting :=
  match a with
  | .master dirs accepted =>
      match s.master with
      | none => []
      | some m =>
          match m.step s.mailDir s.procNum dirs with
          | .ok (_, some (k, path)) => if accepted then [⟨k, .posted, path⟩] else []
          | .ok (_, none) => []
          | .error _ => []
  | .receive k connected =>
      match s.children k, s.queues k with
      | some _, path :: _ =>
          if path ≠ [] then s.callPostings k (.register path connected) else [⟨k, .dropped, path⟩]
      | _, _ => []
  | .write k j kernel => s.callPostings k (.write j kernel)
  | .read k j results => s.callPostings k (.read j results)
  | .select k readReady writeReady exceptReady =>
      s.callPostings k (.select readReady writeReady exceptReady)

def noted (i : ℕ) (f : Fate) (p : CStr) (book : List Posting) : ℕ := book.count ⟨i, f, p⟩

variable {s s' : MailClient} {i k : ℕ} {p : CStr} {op : Op}

@[simp] theorem noted_append (i : ℕ) (f : Fate) (p : CStr) (book new : List Posting) :
    noted i f p (book ++ new) = noted i f p book + noted i f p new := List.count_append

@[simp] theorem noted_nil (i : ℕ) (f : Fate) (p : CStr) : noted i f p [] = 0 := rfl

theorem noted_callPostings {c : Child} (hc : s.children k = some c) (i : ℕ) (f : Fate) (p : CStr) :
    noted i f p (s.callPostings k op) =
      if i = k then Child.tally f p (({ c with files := s.files } : Child).decides op) else 0 := by
  simp only [callPostings, hc, noted]
  split_ifs with hik
  · subst hik
    exact List.count_map_of_injective _ (fun x : Fate × CStr => (⟨i, x.1, x.2⟩ : Posting))
      (fun x y h => Prod.ext (Posting.mk.inj h).2.1 (Posting.mk.inj h).2.2) (f, p)
  · refine List.count_eq_zero.mpr fun hmem => ?_
    obtain ⟨x, -, heq⟩ := List.mem_map.mp hmem
    exact hik (Posting.mk.inj heq).1.symm

theorem tally_posted_decides (c : Child) (op : Op) (p : CStr) :
    Child.tally .posted p (c.decides op) = 0 := by
  unfold Child.decides
  split
  · rw [Child.count_map_fate, if_neg (by simp)]
  · rw [Child.count_map_fate, if_neg (by simp)]
  · rw [Child.count_map_fate, if_neg (by simp)]
  · rfl
  · rfl

/-- What is posted, and what was held before a step, is held after it or
noted. -/
def Accounts (i : ℕ) (p : CStr) (new : List Posting) (s s' : MailClient) : Prop :=
  noted i .posted p new + s.heldBy p i = s'.heldBy p i + noted i .removed p new +
    noted i .dropped p new + noted i .lost p new

/-- The books of process `i` balance for the path. -/
def Balanced (i : ℕ) (p : CStr) (s : MailClient) (book : List Posting) : Prop :=
  noted i .posted p book = s.heldBy p i + noted i .removed p book + noted i .dropped p book +
    noted i .lost p book

theorem Balanced.of_accounts {book new : List Posting} (h : s.Balanced i p book)
    (hstep : Accounts i p new s s') : s'.Balanced i p (book ++ new) := by
  unfold Balanced at h ⊢
  unfold Accounts at hstep
  simp only [noted_append]
  omega

theorem accounts_nil (h : s'.heldBy p i = s.heldBy p i) : Accounts i p [] s s' := by
  simp [Accounts, h]

theorem noted_singleton (i k : ℕ) (f g : Fate) (p path : CStr) :
    noted i f p [⟨k, g, path⟩] = if i = k ∧ f = g then [path].count p else 0 := by
  unfold noted
  rw [List.count_singleton, List.count_singleton]
  simp only [beq_iff_eq, Posting.mk.injEq]
  split_ifs <;> grind

/-! ### The calls -/

/-- A call takes what it brings to its process, and what this holds. -/
theorem accounts_call {c : Child} (hc : s.children k = some c) (hfiled : c.Filed) (op : Op)
    (i : ℕ) (p : CStr) :
    (if i = k then op.brought.count p else 0) + s.heldBy p i = (s.childStep k op).heldBy p i +
      noted i .removed p (s.callPostings k op) + noted i .dropped p (s.callPostings k op) +
        noted i .lost p (s.callPostings k op) := by
  have hfiled' : ({ c with files := s.files } : Child).Filed := ⟨hfiled.distinct, hfiled.letters⟩
  have hlists : inLists p ({ c with files := s.files } : Child) = inLists p c := rfl
  simp only [noted_callPostings hc]
  by_cases hik : i = k
  · subst hik
    simp only [if_true]
    cases hok : ({ c with files := s.files } : Child).step op with
    | error halt =>
        have hbalance := Child.balance_of_error hok p
        rw [childStep_of_error hc hok]
        simp only [heldBy, hc, Function.update_self, Option.elim_some, Option.elim_none]
        omega
    | ok c' =>
        have hbalance := Child.balance_of_ok hfiled' hok p
        rw [childStep_of_ok hc hok]
        simp only [heldBy, hc, Function.update_self, Option.elim_some]
        omega
  · have hkept := (heldBy_childStep k op s p).2.2.2 i hik
    simp [hik, hkept]

theorem noted_posted_callPostings (i k : ℕ) (p : CStr) (op : Op) (s : MailClient) :
    noted i .posted p (s.callPostings k op) = 0 := by
  cases hc : s.children k with
  | none => simp [callPostings, hc]
  | some c => rw [noted_callPostings hc, tally_posted_decides, ite_self]

theorem accounts_quiet (hfiled : ∀ c, s.children k = some c → c.Filed) (hop : op.brought = []) :
    Accounts i p (s.callPostings k op) s (s.childStep k op) := by
  cases hc : s.children k with
  | none =>
      rw [callPostings, hc, childStep_of_stopped hc]
      exact accounts_nil rfl
  | some c =>
      have hcall := accounts_call hc (hfiled c hc) op i p
      rw [hop] at hcall
      rw [Accounts, noted_posted_callPostings]
      simpa using hcall

/-! ### The steps -/

/-- What `msgsnd` accepts is posted. -/
theorem accounts_send (accepted : Bool) (k : ℕ) (path : CStr) (m : Option Master)
    (s : MailClient) :
    Accounts i p (if accepted then [⟨k, .posted, path⟩] else []) s
      ({ s with master := m }.send accepted (some (k, path))) := by
  cases accepted with
  | false => exact accounts_nil rfl
  | true =>
      simp only [Accounts, if_true, noted_singleton, send, heldBy]
      by_cases hik : i = k
      · subst hik
        simp only [Function.update_self, List.count_append]
        simp
        omega
      · simp [hik]

theorem accounts_master (dirs : List (CStr × List CStr)) (accepted : Bool) (s : MailClient) :
    Accounts i p (s.entries (.master dirs accepted) s') s (s.masterStep dirs accepted) := by
  cases hm : s.master with
  | none =>
      rw [masterStep_none hm, entries, hm]
      exact accounts_nil rfl
  | some m =>
      cases hstep : m.step s.mailDir s.procNum dirs with
      | error halt =>
          simp only [masterStep_error hm hstep, entries, hm, hstep]
          exact accounts_nil rfl
      | ok r =>
          obtain ⟨m', msg⟩ := r
          rw [masterStep_ok hm hstep]
          cases msg with
          | none =>
              simp only [entries, hm, hstep]
              exact accounts_nil rfl
          | some post =>
              simp only [entries, hm, hstep]
              exact accounts_send accepted post.1 post.2 (some m') s

/-- A path that is received leaves the queue, and comes to the child or is
dropped. -/
theorem accounts_receive (hfiled : ∀ c, s.children k = some c → c.Filed) (connected : Option ℕ) :
    Accounts i p (s.entries (.receive k connected) s') s (s.receive k connected) := by
  cases hc : s.children k with
  | none =>
      simp only [receive, entries, hc]
      exact accounts_nil rfl
  | some c =>
      cases hqueue : s.queues k with
      | nil =>
          simp only [receive, entries, hc, hqueue]
          exact accounts_nil rfl
      | cons path rest =>
          have htaken : s.heldBy p i = ({ s with queues := Function.update s.queues k rest } :
              MailClient).heldBy p i + if i = k then [path].count p else 0 := by
            by_cases hik : i = k
            · subst hik
              simp only [heldBy, hqueue, Function.update_self, if_true, List.count_cons,
                List.count_nil]
              omega
            · simp [heldBy, hik]
          simp only [receive, entries, hc, hqueue]
          split_ifs with hpath
          · have hcall :=
              accounts_call (s := { s with queues := Function.update s.queues k rest }) hc
                (hfiled c hc) (.register path connected) i p
            have hentries : ({ s with queues := Function.update s.queues k rest } :
                MailClient).callPostings k (.register path connected) =
                  s.callPostings k (.register path connected) := rfl
            rw [hentries] at hcall
            rw [Accounts, noted_posted_callPostings, htaken, ← hcall]
            simp only [Op.brought]
            omega
          · simp only [Accounts, noted_singleton]
            simp
            omega

theorem Balanced.step {a : Action} {book : List Posting}
    (hfiled : ∀ i c, s.children i = some c → c.Filed) (h : s.Balanced i p book)
    (hok : s.step a = .ok s') : s'.Balanced i p (book ++ s.entries a s') := by
  refine h.of_accounts ?_
  cases a with
  | master dirs accepted =>
      cases hok
      exact accounts_master dirs accepted s
  | receive k connected =>
      cases hok
      exact accounts_receive (hfiled k) connected
  | write k j kernel | read k j results | select k readReady writeReady exceptReady =>
      cases hok
      exact accounts_quiet (hfiled k) rfl

/-! ### Losses -/

theorem exists_error_of_lost {c : Child} (h : (.lost, p) ∈ c.decides op) :
    ∃ halt, c.step op = .error halt := by
  unfold Child.decides at h
  split at h
  next _ halt hstep => exact ⟨halt, hstep⟩
  all_goals simp at h

theorem stopped_of_lost_call (h : ⟨i, .lost, p⟩ ∈ s.callPostings k op) :
    (s.childStep k op).children i = none := by
  cases hc : s.children k with
  | none => simp [callPostings, hc] at h
  | some c =>
      simp only [callPostings, hc, List.mem_map] at h
      obtain ⟨⟨fate, path⟩, hmem, heq⟩ := h
      obtain ⟨rfl, rfl, rfl⟩ := Posting.mk.inj heq
      obtain ⟨halt, herror⟩ := exists_error_of_lost hmem
      rw [childStep_of_error hc herror]
      exact Function.update_self _ _ _

theorem stopped_of_lost {a : Action} (hok : s.step a = .ok s')
    (h : ⟨i, .lost, p⟩ ∈ s.entries a s') : s'.children i = none := by
  cases a with
  | master dirs accepted =>
      simp only [entries] at h
      split at h
      next => simp at h
      next m hm =>
        split at h
        · split_ifs at h <;> simp at h
        · simp at h
        · simp at h
  | receive k connected =>
      cases hok
      cases hc : s.children k with
      | none => simp [entries, hc] at h
      | some c =>
          cases hqueue : s.queues k with
          | nil => simp [entries, hc, hqueue] at h
          | cons path rest =>
              simp only [entries, hc, hqueue] at h
              simp only [receive, hc, hqueue]
              split_ifs at h ⊢ with hpath
              · exact stopped_of_lost_call
                  (s := { s with queues := Function.update s.queues k rest }) h
              · simp at h
  | write k j kernel | read k j results | select k readReady writeReady exceptReady =>
      cases hok
      exact stopped_of_lost_call h

theorem stopped_step {a : Action} (hok : s.step a = .ok s') (h : s.children i = none) :
    s'.children i = none := by
  rcases step_moved hok i with hsame | hnone | ⟨c, op, c', hc, -⟩
  · rw [hsame, h]
  · exact hnone
  · rw [h] at hc
    cases hc

/-! ### Whole runs -/

/-- The books balance in every run, in whatever order the processes take their
steps: for every process and every path, what was posted is what waits in the
queue and the lists, and what was removed, dropped and lost. And nothing is lost
but with a child that has stopped. -/
theorem letters_accounted_for {conf : Conf} {procNum : ℕ} {files : CStr → Option (List Char)}
    {domains : ℤ → CStr} {counts : ℤ → ℤ} {memory : ℕ → ℕ → Dscrptr} {actions : List Action}
    {book : List Posting} (h : run (logged step entries)
      (bootClient conf procNum files domains counts memory, []) actions = .ok (s, book)) (i : ℕ) :
    (∀ p, s.Balanced i p book) ∧ ((∃ p, ⟨i, .lost, p⟩ ∈ book) → s.children i = none) := by
  have hboot : ∀ p, (bootClient conf procNum files domains counts memory).Balanced i p [] := by
    intro p
    simp only [Balanced, noted_nil, heldBy, bootClient]
    split_ifs <;> simp [inLists, bootChild]
  have hkept := run_invariant
    (P := fun c : MailClient × List Posting =>
      (∀ k child, c.1.children k = some child → child.Filed) ∧
      (∀ p, c.1.Balanced i p c.2) ∧ ((∃ p, ⟨i, .lost, p⟩ ∈ c.2) → c.1.children i = none))
    (fun c a c' hc _ hok => ?_)
    ⟨fun k child hchild => (child_of_run run_nil hchild).1, hboot, by simp⟩ (guarded_true _ _) h
  · exact hkept.2
  · obtain ⟨hfiled, hbalanced, hlost⟩ := hc
    obtain ⟨hstep, hbook⟩ := logged_eq_ok.mp hok
    refine ⟨fun k => childKeeps_step (fun _ _ hc => ⟨hc.distinct, hc.letters⟩)
      (fun _ op _ hc hok => hc.step op hok) (hfiled k) hstep, fun p => ?_, ?_⟩
    · rw [hbook]
      exact (hbalanced p).step hfiled hstep
    · rintro ⟨p, hp⟩
      rw [hbook] at hp
      rcases List.mem_append.mp hp with hold | hnew
      · exact stopped_step hstep (hlost ⟨p, hold⟩)
      · exact stopped_of_lost hstep hnew

def sampleDelivery : List Action :=
  sampleScan ++ [.receive 0 (some 5), .read 0 0 (sampleReply "220"), .write 0 0 sampleWrites] ++
    (List.replicate 3 [.read 0 0 (sampleReply "250"), .write 0 0 sampleWrites]).flatten ++
    [.read 0 0 (sampleReply "354"), .write 0 0 sampleWrites, .read 0 0 (sampleReply "250")]

theorem letters_accounted_for_sample : ∃ s book,
    run (logged step entries) (sampleClient, []) sampleDelivery = .ok (s, book) ∧
      s.Balanced 0 (sampleLetter "a.b") book ∧
        noted 0 .posted (sampleLetter "a.b") book = 1 ∧
          noted 0 .removed (sampleLetter "a.b") book = 1 := by
  have hrun : run (logged step entries) (sampleClient, []) sampleDelivery = .ok (_, _) := rfl
  exact ⟨_, _, hrun, (letters_accounted_for hrun 0).1 _, by decide +kernel, by decide +kernel⟩

end MailClient

end SmtpProj.Client
