import Mathlib.Algebra.BigOperators.Group.Finset.Piecewise
import Mathlib.Algebra.Order.BigOperators.Group.Finset
import SmtpProj.Client.Frame
import SmtpProj.Client.Master

/-!
How often the client holds the path of one letter.

The master looks a path up among those of its own table before it adds it, and
clears the table with every scan, while the file stays in `new` until a child
sends the letter's sender. A scan in between finds the file again and posts its
path a second time.

If no scan comes upon a path that is still in a queue or in the list of a
child, every path is held once at most. The master counts too: what it has
found and not yet posted is part of the sum, and a step only moves a path on,
drops it, or adds one that was nowhere.
-/

namespace SmtpProj.Client

open Lib

/-! ### Counting -/

def inLists (path : CStr) (c : Child) : ℕ :=
  ∑ j ∈ Finset.range c.readyDomainsCount, (c.dscrptrs j).mailsList.count (some path)

def Master.waiting (path : CStr) (m : Master) : ℕ :=
  (m.outbox.map Prod.snd).count (some path) +
    ∑ i ∈ Finset.range m.table.domainsCount, (m.table.domainsMails i).paths.count (some path)

namespace MailClient

def heldBy (path : CStr) (s : MailClient) (i : ℕ) : ℕ :=
  (s.queues i).count path + (s.children i).elim 0 (inLists path)

/-- How often the path is among the messages of the queues and the elements of
the lists. -/
def held (path : CStr) (s : MailClient) : ℕ := ∑ i ∈ Finset.range s.procNum, s.heldBy path i

def load (path : CStr) (s : MailClient) : ℕ := s.master.elim 0 (Master.waiting path) + s.held path

/-- No letter is queued twice. -/
def HeldOnce (s : MailClient) : Prop := ∀ path, s.held path ≤ 1

/-- A scan lists a file once, and comes upon no path that is still held. -/
def FreshScan (s : MailClient) : Action → Prop
  | .master dirs _ => ∀ m, s.master = some m → m.Scans →
      ((listedLetters s.mailDir dirs).map Prod.fst).Nodup ∧
        ∀ letter ∈ listedLetters s.mailDir dirs, s.held letter.1 = 0
  | .receive _ _ => True
  | .write _ _ _ => True
  | .read _ _ _ => True
  | .select _ _ _ _ => True

end MailClient

theorem sum_le_sum_add {s : Finset ℕ} {f g : ℕ → ℕ} {d : ℕ} (i : ℕ)
    (hi : g i ≤ f i + d) (hne : ∀ k, k ≠ i → g k ≤ f k) : ∑ k ∈ s, g k ≤ ∑ k ∈ s, f k + d := by
  calc ∑ k ∈ s, g k ≤ ∑ k ∈ s, (f k + if k = i then d else 0) := by
        refine Finset.sum_le_sum fun k _ => ?_
        by_cases hk : k = i
        · subst hk
          simpa using hi
        · simpa [hk] using hne k hk
    _ = ∑ k ∈ s, f k + ∑ k ∈ s, (if k = i then d else 0) := Finset.sum_add_distrib
    _ ≤ ∑ k ∈ s, f k + d := by
        refine Nat.add_le_add_left ?_ _
        rw [Finset.sum_ite_eq' s i fun _ => d]
        split_ifs
        · exact le_rfl
        · exact Nat.zero_le d

/-! ### The lists of a child -/

theorem inLists_register {c c' : Child} {connected : Option ℕ} {path : CStr}
    (h : c.registerNewEmail connected path = .ok c') (p : CStr) :
    inLists p c' ≤ inLists p c + if p = path then 1 else 0 := by
  obtain ⟨domain, j, attempt, d, -, hreach, hreg⟩ := Child.registerNewEmail_ok h
  have hadd : (d.enqueue path).mailsList.count (some p) ≤
      d.mailsList.count (some p) + if p = path then 1 else 0 := by
    unfold Dscrptr.enqueue
    by_cases hdone : d.state = .done
    · simp [hdone]
    · rw [if_neg hdone]
      by_cases hp : p = path
      · simp [addFirst, hp]
      · simp [addFirst, hp, Ne.symm hp]
  have hslot : c'.dscrptrs j = d.enqueue path := hreg.slot
  have hknown : j < c.readyDomainsCount → d.mailsList = (c.dscrptrs j).mailsList →
      inLists p c' ≤ inLists p c + if p = path then 1 else 0 := by
    intro hj hmails
    have hready : c'.readyDomainsCount = c.readyDomainsCount := by
      rw [hreg.ready]
      omega
    unfold inLists
    rw [hready]
    refine sum_le_sum_add j ?_ fun i hi => by rw [hreg.other hi]
    rw [hslot, ← hmails]
    exact hadd
  cases hreach with
  | fresh hnew hd =>
      have hready : c'.readyDomainsCount = c.readyDomainsCount + 1 := by
        rw [hreg.ready]
        omega
      unfold inLists
      rw [hready, Finset.sum_range_succ, hslot]
      refine Nat.add_le_add (le_of_eq ?_) (hadd.trans (by simp))
      exact Finset.sum_congr rfl fun i hi => by
        rw [hreg.other (Finset.mem_range.mp hi).ne]
  | reopened hj _ _ hd => exact hknown hj (Dscrptr.initConn_kept hd).2
  | busy hj => exact hknown hj rfl

theorem inLists_of_kept {c c' : Child} (hready : c'.readyDomainsCount = c.readyDomainsCount)
    (hkept : ∀ i, (c'.dscrptrs i).mailsList <:+ (c.dscrptrs i).mailsList) (p : CStr) :
    inLists p c' ≤ inLists p c := by
  unfold inLists
  rw [hready]
  exact Finset.sum_le_sum fun i _ => (hkept i).sublist.count_le _

theorem inLists_write {c c' : Child} {j : ℕ} {k : WriteKernel}
    (h : c.handleWriteSocket k j = .ok c') (p : CStr) : inLists p c' ≤ inLists p c := by
  obtain ⟨r, hr, hw⟩ := Child.handleWriteSocket_ok h
  refine inLists_of_kept hw.ready (fun i => ?_) p
  rw [hw.dscrptrs]
  by_cases hij : i = j
  · subst hij
    rw [Function.update_self, (Dscrptr.sendMsgToServer_ok hr).1.mailsList]
  · rw [Function.update_of_ne hij]

theorem inLists_read {c c' : Child} {j : ℕ} {results : List RecvResult}
    (h : c.handleReadSocket results j = .ok c') (p : CStr) : inLists p c' ≤ inLists p c := by
  obtain ⟨reply, d, -, hd, hc'⟩ := Child.handleReadSocket_ok.mp h
  have hslots : c'.dscrptrs = Function.update c.dscrptrs j d := by rw [hc']; rfl
  refine inLists_of_kept (by rw [hc']; rfl) (fun i => ?_) p
  rw [hslots]
  by_cases hij : i = j
  · subst hij
    rw [Function.update_self]
    exact (Dscrptr.advance_kept hd).2.2
  · rw [Function.update_of_ne hij]

def Op.brings (path : CStr) : Op → ℕ
  | .register path' _ => if path = path' then 1 else 0
  | .write _ _ => 0
  | .read _ _ => 0
  | .select _ _ _ => 0

theorem inLists_step {c c' : Child} {op : Op} (h : c.step op = .ok c') (p : CStr) :
    inLists p c' ≤ inLists p c + op.brings p := by
  cases op with
  | register path connected => exact inLists_register h p
  | write j k => exact inLists_write h p
  | read j results => exact inLists_read h p
  | select readReady writeReady exceptReady =>
      cases h
      exact le_rfl

/-! ### The table of the master -/

namespace DomainMails

theorem paths_addMail {path : CStr} {e e' : DomainMails} (h : e.addMail path = .ok e') :
    e'.paths = e.paths ∨ e'.paths = e.paths ++ [some path] := by
  unfold addMail at h
  split_ifs at h with hnone hmem hcount
  · cases h
    exact .inl rfl
  · cases h
    refine .inr ?_
    have hsucc : (e.mailsCount + 1).toNat = e.mailsCount.toNat + 1 := by omega
    simp only [paths, hsucc, List.range_succ, List.map_append, List.map_cons, List.map_nil,
      Function.update_self]
    congr 1
    refine List.map_congr_left fun n hn => ?_
    rw [Function.update_of_ne (List.mem_range.mp hn).ne]

theorem paths_startMail {domain path : CStr} {e : DomainMails} (he : ∀ n, e.mailsPaths n = none)
    (p : CStr) : (e.startMail domain path).paths.count (some p) ≤ if p = path then 1 else 0 := by
  simp only [paths, startMail]
  cases (e.mailsCount + 1).toNat with
  | zero => simp
  | succ n =>
      have hlater : some p ∉ (List.range n).map
          (Function.update e.mailsPaths 0 (some path) ∘ Nat.succ) := by
        simp [he]
      rw [List.range_succ_eq_map, List.map_cons, List.map_map, List.count_cons,
        List.count_eq_zero.mpr hlater, Function.update_self]
      by_cases hp : p = path
      · simp [hp]
      · simp [hp, Ne.symm hp]

end DomainMails

namespace MailTable

def stored (path : CStr) (t : MailTable) : ℕ :=
  ∑ i ∈ Finset.range t.domainsCount, (t.domainsMails i).paths.count (some path)

def Unwritten (t : MailTable) : Prop :=
  ∀ i : ℕ, t.domainsCount ≤ i → ∀ n, (t.domainsMails i).mailsPaths n = none

variable {t t' : MailTable}

theorem findDomain_lt {domain : CStr} {i : ℕ} (h : t.findDomain domain = some i) :
    i < t.domainsCount := by
  unfold findDomain at h
  rcases foldl_found_cases (fun i : ℕ => domain = (t.domainsMails i).domain) t.domainsCount with
    ⟨hnone, -⟩ | ⟨j, hj, hsome, -⟩
  · rw [hnone] at h
    cases h
  · rw [hsome] at h
    cases h
    exact hj

/-- A domain that is new takes the entry behind those in use; the reset at
index -1 leaves it as it is. -/
theorem stored_newEntry {domain path : CStr} {e : DomainMails} (ht : t.Unwritten)
    (h : t' = { (t.setEntry (-1) e).setEntry t.domainsCount
      (((t.setEntry (-1) e).domainsMails t.domainsCount).startMail domain path) with
        domainsCount := t.domainsCount + 1 }) :
    t'.Unwritten ∧ ∀ p, t'.stored p ≤ t.stored p + if p = path then 1 else 0 := by
  subst h
  have hnew : (t.domainsCount : ℤ) ≠ -1 := by omega
  have hold : ∀ i : ℕ, i ≠ t.domainsCount → (i : ℤ) ≠ -1 ∧ (i : ℤ) ≠ t.domainsCount :=
    fun i hi => ⟨by omega, by exact_mod_cast hi⟩
  refine ⟨fun i hi n => ?_, fun p => ?_⟩
  · have hi' : t.domainsCount + 1 ≤ i := hi
    obtain ⟨h₁, h₂⟩ := hold i (by omega)
    simp only [setEntry, Function.update_of_ne h₂, Function.update_of_ne h₁]
    exact ht i (by omega) n
  · simp only [stored, Finset.sum_range_succ, setEntry, Function.update_self,
      Function.update_of_ne hnew]
    refine Nat.add_le_add (le_of_eq ?_)
      (DomainMails.paths_startMail (fun n => ht t.domainsCount le_rfl n) p)
    refine Finset.sum_congr rfl fun i hi => ?_
    obtain ⟨h₁, h₂⟩ := hold i (Finset.mem_range.mp hi).ne
    rw [Function.update_of_ne h₂, Function.update_of_ne h₁]

theorem stored_setEntry {path : CStr} {i : ℕ} {e : DomainMails} (ht : t.Unwritten)
    (hi : i < t.domainsCount) (he : (t.domainsMails i).addMail path = .ok e) :
    (t.setEntry i e).Unwritten ∧
      ∀ p, (t.setEntry i e).stored p ≤ t.stored p + if p = path then 1 else 0 := by
  have hother : ∀ k : ℕ, k ≠ i → (k : ℤ) ≠ i := fun k hk => by exact_mod_cast hk
  refine ⟨fun k hk n => ?_, fun p => sum_le_sum_add i ?_ fun k hk => ?_⟩
  · have hki : (k : ℤ) ≠ i := hother k (hi.trans_le hk).ne'
    simp only [setEntry, Function.update_of_ne hki]
    exact ht k hk n
  · simp only [setEntry, Function.update_self]
    rcases DomainMails.paths_addMail he with hpaths | hpaths
    · rw [hpaths]
      exact Nat.le_add_right _ _
    · rw [hpaths, List.count_append]
      by_cases hp : p = path
      · simp [hp]
      · simp [hp, Ne.symm hp]
  · simp only [setEntry, Function.update_of_ne (hother k hk), le_refl]

/-- A file adds its path once at most. -/
theorem stored_addLetter {letter : CStr × CStr} (ht : t.Unwritten)
    (h : t.addLetter letter = .ok t') :
    t'.Unwritten ∧ ∀ p, t'.stored p ≤ t.stored p + if p = letter.1 then 1 else 0 := by
  obtain ⟨domain, -, h⟩ := bind_eq_ok.mp h
  cases hfind : t.findDomain domain with
  | none =>
      simp only [hfind] at h
      split at h
      next =>
        exact stored_newEntry ht (Except.ok.inj h).symm
      next => cases h
  | some i =>
      simp only [hfind] at h
      obtain ⟨e, he, h⟩ := bind_eq_ok.mp h
      cases h
      exact stored_setEntry ht (findDomain_lt hfind) he

theorem stored_addLetters {letters : List (CStr × CStr)} (ht : t.Unwritten)
    (h : run addLetter t letters = .ok t') :
    t'.Unwritten ∧ ∀ p, t'.stored p ≤ t.stored p + (letters.map Prod.fst).count p := by
  induction letters generalizing t with
  | nil =>
      cases h
      exact ⟨ht, fun p => by simp⟩
  | cons letter letters ih =>
      obtain ⟨t₁, h₁, hrest⟩ := bind_eq_ok.mp h
      obtain ⟨ht₁, hle₁⟩ := stored_addLetter ht h₁
      obtain ⟨ht', hle⟩ := ih ht₁ hrest
      refine ⟨ht', fun p => ?_⟩
      have hp := hle p
      have hp₁ := hle₁ p
      rw [List.map_cons, List.count_cons]
      by_cases heq : p = letter.1
      · subst heq
        simp only [if_true, beq_self_eq_true] at hp₁ ⊢
        omega
      · simp only [if_neg heq] at hp₁
        omega

end MailTable

/-! ### The master -/

namespace Master

variable {m m' : Master}

structure Tidy (m : Master) : Prop where
  unwritten : m.table.Unwritten
  cleared : ∀ i < m.next, i < m.table.domainsCount → (m.table.domainsMails i).paths = []

theorem waiting_eq (path : CStr) (m : Master) :
    m.waiting path = (m.outbox.map Prod.snd).count (some path) + m.table.stored path := rfl

/-- A scan starts from an empty table, so the master has ahead of it what the
scan lists. -/
theorem scan_ok {mailDir : CStr} {dirs : List (CStr × List CStr)} (hm : m.Tidy) (hs : m.Scans)
    (h : m.scan mailDir dirs = .ok m') :
    m'.Tidy ∧ ∀ p, m'.waiting p ≤ ((listedLetters mailDir dirs).map Prod.fst).count p := by
  obtain ⟨table, htable, h⟩ := bind_eq_ok.mp h
  cases h
  obtain ⟨hunwritten, hle⟩ := MailTable.stored_addLetters hm.unwritten htable
  refine ⟨⟨hunwritten, fun i hi => absurd hi (Nat.not_lt_zero i)⟩, fun p => ?_⟩
  have hempty : m.table.stored p = 0 := by
    refine Finset.sum_eq_zero fun i hi => ?_
    have hi' := Finset.mem_range.mp hi
    rw [hm.cleared i (hi'.trans_le hs.2) hi']
    rfl
  have hp := hle p
  rw [waiting_eq, hs.1]
  simpa [hempty] using hp

theorem takeEntry_ok {procNum : ℕ} (hm : m.Tidy) (hout : m.outbox = [])
    (hnext : m.next < m.table.domainsCount) (h : m.takeEntry procNum = .ok m') :
    m'.Tidy ∧ ∀ p, m'.waiting p ≤ m.waiting p := by
  obtain ⟨⟨idx, procs⟩, -, h⟩ := bind_eq_ok.mp h
  cases h
  have hother : ∀ i : ℕ, i ≠ m.next → (i : ℤ) ≠ m.next := fun i hi => by exact_mod_cast hi
  have hclear : (m.table.domainsMails m.next).clear.paths = [] := by
    simp [DomainMails.clear, DomainMails.paths]
  refine ⟨⟨fun i hi n => ?_, fun i hi hi' => ?_⟩, fun p => ?_⟩
  · have hne : (i : ℤ) ≠ m.next := hother i (hnext.trans_le hi).ne'
    simp only [MailTable.setEntry, Function.update_of_ne hne]
    exact hm.unwritten i hi n
  · by_cases hne : i = m.next
    · subst hne
      simpa [MailTable.setEntry] using hclear
    · simp only [MailTable.setEntry, Function.update_of_ne (hother i hne)]
      have hlt : i < m.next + 1 := hi
      exact hm.cleared i (by omega) hi'
  · have hmem : m.next ∈ Finset.range m.table.domainsCount := Finset.mem_range.mpr hnext
    rw [waiting_eq, waiting_eq, hout]
    simp only [MailTable.stored, MailTable.setEntry]
    rw [← Finset.add_sum_erase _ _ hmem, ← Finset.add_sum_erase _ _ hmem, Function.update_self,
      hclear]
    have hrest : ∀ i ∈ (Finset.range m.table.domainsCount).erase m.next,
        (Function.update m.table.domainsMails m.next (m.table.domainsMails m.next).clear
          (i : ℤ)).paths.count (some p) = (m.table.domainsMails i).paths.count (some p) :=
      fun i hi => by rw [Function.update_of_ne (hother i (Finset.ne_of_mem_erase hi))]
    rw [Finset.sum_congr rfl hrest]
    simp [Function.comp_def]

/-- The master scans, or what it has ahead of it becomes less by what it
sends. -/
theorem step_ok {mailDir : CStr} {procNum : ℕ} {dirs : List (CStr × List CStr)}
    {msg : Option (ℕ × CStr)} (hm : m.Tidy) (h : m.step mailDir procNum dirs = .ok (m', msg)) :
    m'.Tidy ∧ ((m.Scans ∧ msg = none ∧
        ∀ p, m'.waiting p ≤ ((listedLetters mailDir dirs).map Prod.fst).count p) ∨
      ∀ p, m'.waiting p + (msg.map Prod.snd).toList.count p ≤ m.waiting p) := by
  unfold step at h
  split at h
  next => cases h
  next i path rest hout =>
    cases h
    refine ⟨⟨hm.unwritten, hm.cleared⟩, .inr fun p => ?_⟩
    simp only [waiting_eq, hout, List.map_cons, List.count_cons, Option.map_some,
      Option.toList_some, List.count_nil, beq_iff_eq, Option.some.injEq]
    omega
  next hout =>
    split_ifs at h with hscans
    · obtain ⟨m₁, hscan, h⟩ := bind_eq_ok.mp h
      cases h
      obtain ⟨htidy, hle⟩ := scan_ok hm hscans hscan
      exact ⟨htidy, .inl ⟨hscans, rfl, hle⟩⟩
    · obtain ⟨m₁, htake, h⟩ := bind_eq_ok.mp h
      cases h
      have hnext : m.next < m.table.domainsCount := by
        by_contra hge
        exact hscans ⟨hout, by omega⟩
      obtain ⟨htidy, hle⟩ := takeEntry_ok hm hout hnext htake
      exact ⟨htidy, .inr hle⟩

end Master

/-! ### The client -/

namespace MailClient

variable {s s' : MailClient}

structure Sound (s : MailClient) : Prop where
  tidy : ∀ m, s.master = some m → m.Tidy
  load : ∀ p, s.load p ≤ 1

theorem Sound.heldOnce (hs : s.Sound) : s.HeldOnce := fun p =>
  (Nat.le_add_left _ _).trans (hs.load p)

theorem Sound.of_heldBy (hs : s.Sound) (hmaster : s'.master = s.master)
    (hnum : s'.procNum = s.procNum) (hle : ∀ p i, s'.heldBy p i ≤ s.heldBy p i) : s'.Sound where
  tidy m hm := hs.tidy m (hmaster ▸ hm)
  load p := by
    refine le_trans (Nat.add_le_add (le_of_eq (by rw [hmaster])) ?_) (hs.load p)
    unfold held
    rw [hnum]
    exact Finset.sum_le_sum fun i _ => hle p i

@[simp] theorem send_master (accepted : Bool) (msg : Option (ℕ × CStr)) (s : MailClient) :
    (s.send accepted msg).master = s.master := by
  unfold send
  split <;> rfl

theorem held_send (accepted : Bool) (msg : Option (ℕ × CStr)) (s : MailClient) (p : CStr) :
    (s.send accepted msg).held p ≤ s.held p + (msg.map Prod.snd).toList.count p := by
  unfold send
  split
  next i path =>
    refine sum_le_sum_add i ?_ fun k hk => ?_
    · simp only [heldBy, Function.update_self, List.count_append, Option.map_some,
        Option.toList_some]
      omega
    · simp only [heldBy, Function.update_of_ne hk, le_refl]
  next => exact Nat.le_add_right _ _

/-- A step of the master, with the message it sends. -/
theorem Sound.of_message {m' : Master} (hm' : m'.Tidy) (accepted : Bool)
    (msg : Option (ℕ × CStr))
    (hle : ∀ p, m'.waiting p + (msg.map Prod.snd).toList.count p + s.held p ≤ 1) :
    ({ s with master := some m' }.send accepted msg).Sound where
  tidy m hm := by
    rw [send_master] at hm
    cases hm
    exact hm'
  load p := by
    have hsend := held_send accepted msg { s with master := some m' } p
    have hheld : ({ s with master := some m' } : MailClient).held p = s.held p := rfl
    have hp := hle p
    rw [MailClient.load, send_master]
    simp only [Option.elim_some]
    omega

theorem masterStep_none {dirs : List (CStr × List CStr)} {accepted : Bool}
    (hm : s.master = none) : s.masterStep dirs accepted = s := by
  unfold masterStep
  rw [hm]

theorem masterStep_error {dirs : List (CStr × List CStr)} {accepted : Bool} {m : Master}
    {e : Halt} (hm : s.master = some m) (h : m.step s.mailDir s.procNum dirs = .error e) :
    s.masterStep dirs accepted = { s with master := none } := by
  unfold masterStep
  rw [hm]
  simp only [h]

theorem masterStep_ok {dirs : List (CStr × List CStr)} {accepted : Bool} {m m' : Master}
    {msg : Option (ℕ × CStr)} (hm : s.master = some m)
    (h : m.step s.mailDir s.procNum dirs = .ok (m', msg)) :
    s.masterStep dirs accepted = { s with master := some m' }.send accepted msg := by
  unfold masterStep
  rw [hm]
  simp only [h]

theorem Sound.masterStep {dirs : List (CStr × List CStr)} {accepted : Bool} (hs : s.Sound)
    (hfresh : s.FreshScan (.master dirs accepted)) : (s.masterStep dirs accepted).Sound := by
  cases hm : s.master with
  | none =>
      rw [masterStep_none hm]
      exact hs
  | some m =>
      have hload : ∀ p, m.waiting p + s.held p ≤ 1 := fun p => by
        have hp := hs.load p
        rwa [MailClient.load, hm, Option.elim_some] at hp
      cases hstep : m.step s.mailDir s.procNum dirs with
      | error e =>
          rw [masterStep_error hm hstep]
          refine ⟨fun m' hm' => (Option.some_ne_none m' hm'.symm).elim, fun p => ?_⟩
          have hheld : ({ s with master := none } : MailClient).load p = 0 + s.held p := rfl
          have hp := hload p
          omega
      | ok r =>
          obtain ⟨m', msg⟩ := r
          obtain ⟨htidy, hcases⟩ := Master.step_ok (hs.tidy m hm) hstep
          rw [masterStep_ok hm hstep]
          refine Sound.of_message htidy accepted msg fun p => ?_
          rcases hcases with ⟨hscans, rfl, hle⟩ | hle
          · -- a path that the scan lists is not held, and the others are not found
            obtain ⟨hnodup, hfree⟩ := hfresh m hm hscans
            have hfound := hle p
            have hheld := hload p
            by_cases hp : p ∈ (listedLetters s.mailDir dirs).map Prod.fst
            · obtain ⟨letter, hletter, rfl⟩ := List.mem_map.mp hp
              have hzero := hfree letter hletter
              have hone := List.nodup_iff_count_le_one.mp hnodup letter.1
              simp only [Option.map_none, Option.toList_none, List.count_nil]
              omega
            · have hzero := List.count_eq_zero.mpr hp
              simp only [Option.map_none, Option.toList_none, List.count_nil]
              omega
          · have hless := hle p
            have hp := hload p
            omega

/-- A call of a child, which may stop it; its list is gone then. -/
theorem heldBy_childStep (i : ℕ) (op : Op) (s : MailClient) (p : CStr) :
    (s.childStep i op).master = s.master ∧ (s.childStep i op).procNum = s.procNum ∧
      (s.childStep i op).heldBy p i ≤ s.heldBy p i + op.brings p ∧
      ∀ k, k ≠ i → (s.childStep i op).heldBy p k = s.heldBy p k := by
  unfold childStep
  split
  next => exact ⟨rfl, rfl, Nat.le_add_right _ _, fun _ _ => rfl⟩
  next c hc =>
    split
    next e he =>
      refine ⟨rfl, rfl, ?_, fun k hk => ?_⟩
      · simp only [heldBy, Function.update_self, Option.elim_none]
        omega
      · simp only [heldBy, Function.update_of_ne hk]
    next c' hc' =>
      refine ⟨rfl, rfl, ?_, fun k hk => ?_⟩
      · have hlists : inLists p c' ≤ inLists p c + op.brings p := inLists_step hc' p
        simp only [heldBy, hc, Function.update_self, Option.elim_some]
        omega
      · simp only [heldBy, Function.update_of_ne hk]

theorem Sound.childStep {i : ℕ} {op : Op} (hs : s.Sound) (hop : ∀ p, op.brings p = 0) :
    (s.childStep i op).Sound := by
  refine hs.of_heldBy (heldBy_childStep i op s []).1 (heldBy_childStep i op s []).2.1 fun p k => ?_
  obtain ⟨-, -, hself, hother⟩ := heldBy_childStep i op s p
  by_cases hk : k = i
  · subst hk
    rwa [hop p] at hself
  · exact (hother k hk).le

theorem Sound.receive {i : ℕ} {connected : Option ℕ} (hs : s.Sound) :
    (s.receive i connected).Sound := by
  unfold MailClient.receive
  split
  next c path rest hc hq =>
    have htake : ∀ p, ({ s with queues := Function.update s.queues i rest } : MailClient).heldBy p i
        + (if p = path then 1 else 0) = s.heldBy p i := fun p => by
      simp only [heldBy, Function.update_self, hq, List.count_cons, beq_iff_eq, @eq_comm _ p path]
      omega
    have hkeep : ∀ p k, k ≠ i →
        ({ s with queues := Function.update s.queues i rest } : MailClient).heldBy p k =
          s.heldBy p k := fun p k hk => by simp only [heldBy, Function.update_of_ne hk]
    split
    next =>
      have hstep := heldBy_childStep i (.register path connected)
        { s with queues := Function.update s.queues i rest }
      refine hs.of_heldBy (hstep []).1 (hstep []).2.1 fun p k => ?_
      obtain ⟨-, -, hself, hother⟩ := hstep p
      by_cases hk : k = i
      · subst hk
        exact hself.trans (htake p).le
      · rw [hother k hk, hkeep p k hk]
    next =>
      refine hs.of_heldBy rfl rfl fun p k => ?_
      by_cases hk : k = i
      · subst hk
        exact (Nat.le_add_right _ _).trans (htake p).le
      · rw [hkeep p k hk]
  next => exact hs

theorem Sound.step {a : Action} (hs : s.Sound) (hfresh : s.FreshScan a)
    (h : s.step a = .ok s') : s'.Sound := by
  cases a with
  | master dirs accepted =>
      cases h
      exact hs.masterStep hfresh
  | receive i connected =>
      cases h
      exact hs.receive
  | write i j k =>
      cases h
      exact hs.childStep fun _ => rfl
  | read i j results =>
      cases h
      exact hs.childStep fun _ => rfl
  | select i readReady writeReady exceptReady =>
      cases h
      exact hs.childStep fun _ => rfl

theorem sound_boot (conf : Conf) (procNum : ℕ) (files : CStr → Option (List Char))
    (domains : ℤ → CStr) (counts : ℤ → ℤ) (memory : ℕ → ℕ → Dscrptr) :
    (bootClient conf procNum files domains counts memory).Sound where
  tidy m hm := by
    cases hm
    exact ⟨fun _ _ _ => rfl, fun i hi => absurd hi (Nat.not_lt_zero i)⟩
  load p := by
    have hmaster : (bootClient conf procNum files domains counts memory).master.elim 0
        (Master.waiting p) = 0 := rfl
    have hheld : (bootClient conf procNum files domains counts memory).held p = 0 := by
      refine Finset.sum_eq_zero fun i hi => ?_
      have hi' : i < procNum := Finset.mem_range.mp hi
      simp only [heldBy, bootClient, if_pos hi']
      rfl
    rw [MailClient.load, hmaster, hheld]
    exact Nat.zero_le 1

/-- If every scan lists a file once and comes upon no path that is still held,
no letter is queued twice, in whatever order the processes take their steps. -/
theorem heldOnce_of_freshScans (conf : Conf) (procNum : ℕ) (files : CStr → Option (List Char))
    (domains : ℤ → CStr) (counts : ℤ → ℤ) (memory : ℕ → ℕ → Dscrptr) (actions : List Action)
    (hG : Guarded MailClient.step FreshScan
      (bootClient conf procNum files domains counts memory) actions) :
    Always MailClient.step HeldOnce (bootClient conf procNum files domains counts memory)
      actions :=
  (run_always (fun _ _ _ hs hfresh h => hs.step hfresh h)
    (sound_boot conf procNum files domains counts memory) hG).mono fun _ hs => hs.heldOnce

def sampleClient : MailClient :=
  bootClient ⟨"m/".toList, "h".toList, 120, 10⟩ 1 sampleFiles (fun _ => []) (fun _ => 0)
    fun _ _ => zeroDscrptr

def sampleScan : List Action :=
  [.master [("..".toList, []), ("u".toList, [".".toList, "1.2.a.b".toList])] true,
    .master [] true, .master [] true]

theorem heldOnce_sample :
    Always step HeldOnce sampleClient (sampleScan ++ [.receive 0 (some 5)]) := by
  refine heldOnce_of_freshScans _ _ _ _ _ _ _ ?_
  rintro _ ⟨⟩
  refine ⟨?_, ?_⟩
  · rintro m ⟨⟩ -
    exact ⟨by decide, by decide⟩
  rintro _ ⟨⟩
  refine ⟨?_, ?_⟩
  · rintro m ⟨⟩ hscans
    exact absurd hscans (by decide)
  rintro _ ⟨⟩
  refine ⟨?_, ?_⟩
  · rintro m ⟨⟩ hscans
    exact absurd hscans (by decide)
  rintro _ ⟨⟩
  exact ⟨trivial, trivial⟩

/-- The next scan finds the file still in its place, and queues its path
again. -/
theorem rescan_queues_twice : ∃ s, run step sampleClient (sampleScan ++ sampleScan) = .ok s ∧
    (s.files (sampleLetter "a.b")).isSome ∧
      s.queues 0 = [sampleLetter "a.b", sampleLetter "a.b"] ∧
        ¬ Always step HeldOnce sampleClient (sampleScan ++ sampleScan) := by
  have hrun : run step sampleClient (sampleScan ++ sampleScan) = .ok _ := rfl
  refine ⟨_, hrun, by decide, by decide, fun h => ?_⟩
  exact absurd (h.last hrun (sampleLetter "a.b")) (by decide)

end MailClient

end SmtpProj.Client
