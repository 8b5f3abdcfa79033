import SmtpProj.Client.Registration
import SmtpProj.Client.Scan

/-!
The indices on the way of a letter.

Five arrays lie on it: the table of the master and the paths of each entry, the
processes and the domains of each, and the descriptors of a child. Their sizes
are constants of three files, and nothing compares a count with them.

What each function indexes is listed as its loops come to it, and compared with
the sizes. A letter of a domain that is new to the master is outside at once,
because its count is reset at the index of a search that failed; otherwise what
matters is whether there is room. The log line at the end of
`get_mail_proc_idx` reads the second process, also where there is one.
-/

namespace SmtpProj.Client

open Lib

structure Access where
  size : ℕ
  index : ℤ

def Access.InBounds (a : Access) : Prop := 0 ≤ a.index ∧ a.index < a.size

instance (a : Access) : Decidable a.InBounds := inferInstanceAs (Decidable (_ ∧ _))

@[simp] theorem inBounds_natCast {size index : ℕ} :
    Access.InBounds ⟨size, index⟩ ↔ index < size := by
  simp [Access.InBounds]

def loopOver (size count : ℕ) : List Access := (List.range count).map fun i : ℕ => ⟨size, i⟩

theorem loopOver_inBounds {size count : ℕ} (h : count ≤ size) :
    ∀ a ∈ loopOver size count, a.InBounds := by
  intro a ha
  obtain ⟨i, hi, rfl⟩ := List.mem_map.mp ha
  exact inBounds_natCast.mpr ((List.mem_range.mp hi).trans_le h)

/-! ### The table of the master -/

theorem DomainMails.Stores.hasRoom_iff {e : DomainMails} {stored : List CStr} {path : CStr}
    (h : e.Stores stored) :
    e.HasRoom path ↔ some path ∈ e.paths ∨ e.mailsCount < maxMailsPaths := by
  rw [DomainMails.HasRoom, h.count, Int.ofNat_lt]
  by_cases hmem : some path ∈ e.paths
  · rw [Finset.insert_eq_of_mem (List.mem_toFinset.mpr hmem), h.card]
    exact iff_of_true h.fits (.inl hmem)
  · rw [Finset.card_insert_of_notMem (by simpa using hmem), h.card, or_iff_right hmem]
    exact Iff.rfl

namespace MailTable

variable {t : MailTable} {letter : CStr × CStr} {letters : List (CStr × CStr)} {i : ℕ}

/-- What the body of `get_domains_mails` indexes for one file: the search for
its domain, and then the new entry or the one that was found. -/
def accesses (letter : CStr × CStr) (t : MailTable) : List Access :=
  match emailDomain letter.2 with
  | .error _ => []
  | .ok domain =>
      loopOver maxDomainsMails t.domainsCount ++
        match t.findDomain domain with
        | none => [⟨maxDomainsMails, t.domainsCount⟩, ⟨maxDomainsMails, -1⟩, ⟨maxMailsPaths, 0⟩]
        | some i =>
            ⟨maxDomainsMails, i⟩ :: loopOver maxMailsPaths (t.domainsMails i).mailsCount.toNat ++
              if (t.domainsMails i).paths.contains (some letter.1) then []
              else [⟨maxMailsPaths, (t.domainsMails i).mailsCount⟩]

/-- A new domain is counted in front of the table. -/
theorem front_mem_accesses {domain : CStr} (hdomain : emailDomain letter.2 = .ok domain)
    (hnew : t.findDomain domain = none) : ⟨maxDomainsMails, -1⟩ ∈ t.accesses letter := by
  unfold accesses
  rw [hdomain]
  simp [hnew]

/-- The file is for a domain of the table that has room for it. -/
def Takes (t : MailTable) (letter : CStr × CStr) : Prop :=
  ∀ domain, emailDomain letter.2 = .ok domain → ∃ i < t.domainsCount,
    (t.domainsMails i).domain = domain ∧ (t.domainsMails i).HasRoom letter.1

theorem Exact.accesses_inBounds_iff (ht : t.Exact) (hcount : t.domainsCount ≤ maxDomainsMails) :
    (∀ a ∈ t.accesses letter, a.InBounds) ↔ t.Takes letter := by
  unfold accesses Takes
  cases hdomain : emailDomain letter.2 with
  | error halt => simp
  | ok domain =>
      simp only [Except.ok.injEq, forall_eq', List.forall_mem_append]
      rw [and_iff_right (loopOver_inBounds hcount)]
      rcases foldl_found_cases (fun i : ℕ => domain = (t.domainsMails i).domain) t.domainsCount with
        ⟨-, hnew⟩ | ⟨i, hi, -, rfl⟩
      · rw [findDomain_eq_none fun i hi hi' => hnew i hi hi'.symm]
        refine iff_of_false (fun h => ?_) ?_
        · have hfront : Access.InBounds ⟨maxDomainsMails, -1⟩ := h _ (by simp)
          exact absurd hfront.1 (by simp)
        · rintro ⟨i, hi, hdomain', -⟩
          exact hnew i hi hdomain'.symm
      · obtain ⟨stored, hstores⟩ := ht.stores i hi
        have hentry : Access.InBounds ⟨maxDomainsMails, i⟩ :=
          inBounds_natCast.mpr (hi.trans_le hcount)
        have hpaths : (t.domainsMails i).mailsCount.toNat ≤ maxMailsPaths := by
          rw [hstores.count]
          exact hstores.fits
        have hroom : (∀ a ∈ (if (t.domainsMails i).paths.contains (some letter.1) then []
            else [(⟨maxMailsPaths, (t.domainsMails i).mailsCount⟩ : Access)]), a.InBounds) ↔
              (t.domainsMails i).HasRoom letter.1 := by
          rw [hstores.hasRoom_iff]
          split_ifs with hmem <;> rw [List.contains_iff_mem] at hmem
          · simp [hmem]
          · simp [hmem, hstores.count]
        rw [ht.findDomain hi]
        simp only [List.cons_append, List.forall_mem_cons, List.forall_mem_append]
        rw [and_iff_right hentry, and_iff_right (loopOver_inBounds hpaths), hroom]
        constructor
        · intro h
          exact ⟨i, hi, rfl, h⟩
        · rintro ⟨k, hk, hsame, h⟩
          rwa [← ht.distinct k hk i hi hsame]

theorem Exact.of_takes {t' : MailTable} (ht : t.Exact) (htakes : t.Takes letter)
    (h : t.addLetter letter = .ok t') : t'.Exact ∧ t'.domainsCount = t.domainsCount := by
  obtain ⟨domain, hdomain, -⟩ := bind_eq_ok.mp h
  obtain ⟨i, hi, rfl, hroom⟩ := htakes domain hdomain
  obtain ⟨t₁, hstep, hcount, hexact, -⟩ := ht.addLetter hi hdomain hroom
  obtain rfl : t' = t₁ := Except.ok.inj (h.symm.trans hstep)
  exact ⟨hexact, hcount⟩

def parsed (letters : List (CStr × CStr)) : List (CStr × CStr) :=
  letters.takeWhile fun letter => (emailDomain letter.2).isOk

/-- One letter after the other is taken if there is room for all of them. -/
theorem Exact.along_takes_iff (ht : t.Exact) :
    Along MailTable.addLetter Takes t letters ↔
      t.KnowsAll (parsed letters) ∧ t.HoldsAll (parsed letters) := by
  induction letters generalizing t with
  | nil => exact iff_of_true trivial ⟨by simp [KnowsAll, parsed], ht.holdsAll_nil⟩
  | cons letter letters ih =>
      cases hdomain : emailDomain letter.2 with
      | error halt =>
          have hstop : parsed (letter :: letters) = [] := by
            simp [parsed, hdomain, Except.isOk, Except.toBool]
          have hstep : t.addLetter letter = .error halt := by
            simp only [MailTable.addLetter, hdomain, bind, Except.bind]
          rw [hstop]
          refine iff_of_true ⟨fun domain hd => ?_, fun t' ht' => ?_⟩
            ⟨by simp [KnowsAll], ht.holdsAll_nil⟩
          · rw [hdomain] at hd
            cases hd
          · rw [hstep] at ht'
            cases ht'
      | ok domain =>
          have hparsed : parsed (letter :: letters) = letter :: parsed letters := by
            simp [parsed, hdomain, Except.isOk, Except.toBool]
          rw [hparsed]
          constructor
          · rintro ⟨htakes, hrest⟩
            obtain ⟨i, hi, rfl, hroom⟩ := htakes domain hdomain
            obtain ⟨t₁, hstep, hcount, hexact, hkeeps, -, hpaths⟩ := ht.addLetter hi hdomain hroom
            obtain ⟨hknows, hholds⟩ := (ih hexact).mp (hrest t₁ hstep)
            refine ⟨fun l hl => ?_, (ht.holdsAll_cons hi hkeeps hcount hdomain hpaths).mpr hholds⟩
            rcases List.mem_cons.mp hl with rfl | hl
            · exact ⟨i, hi, hdomain⟩
            · obtain ⟨k, hk, hk'⟩ := hknows l hl
              rw [hcount] at hk
              exact ⟨k, hk, by rw [hk', (hkeeps k hk).2.1]⟩
          · rintro ⟨hknows, hholds⟩
            obtain ⟨i, hi, hi'⟩ := hknows letter (by simp)
            obtain rfl : domain = (t.domainsMails i).domain :=
              Except.ok.inj (hdomain.symm.trans hi')
            have hroom := hholds.hasRoom hi hdomain
            obtain ⟨t₁, hstep, hcount, hexact, hkeeps, -, hpaths⟩ := ht.addLetter hi hdomain hroom
            refine (along_cons_ok hstep).mpr ⟨fun d hd => ⟨i, hi, ?_, hroom⟩, (ih hexact).mpr
              ⟨fun l hl => ?_, (ht.holdsAll_cons hi hkeeps hcount hdomain hpaths).mp hholds⟩⟩
            · exact Except.ok.inj (hdomain.symm.trans hd)
            · obtain ⟨k, hk, hk'⟩ := hknows l (by simp [hl])
              exact ⟨k, hcount ▸ hk, by rw [hk', (hkeeps k hk).2.1]⟩

/-- A scan stays inside its arrays exactly if every letter it comes to is for a
domain of the table, with room for it. -/
theorem Exact.along_accesses_iff (ht : t.Exact) (hcount : t.domainsCount ≤ maxDomainsMails) :
    Along MailTable.addLetter (fun t letter => ∀ a ∈ t.accesses letter, a.InBounds) t letters ↔
      t.KnowsAll (parsed letters) ∧ t.HoldsAll (parsed letters) := by
  rw [← ht.along_takes_iff]
  refine along_congr_of (I := fun t => t.Exact ∧ t.domainsCount ≤ maxDomainsMails)
    (fun t₁ letter t₂ h₁ hin hstep => ?_)
    (fun t₁ letter _ h₁ => h₁.1.accesses_inBounds_iff h₁.2) ⟨ht, hcount⟩
  obtain ⟨hexact, hsame⟩ := h₁.1.of_takes ((h₁.1.accesses_inBounds_iff h₁.2).mp hin) hstep
  exact ⟨hexact, hsame ▸ h₁.2⟩

theorem Exact.of_along_takes {t' : MailTable} (ht : t.Exact)
    (htakes : Along MailTable.addLetter Takes t letters)
    (h : run MailTable.addLetter t letters = .ok t') :
    t'.Exact ∧ t'.domainsCount = t.domainsCount :=
  run_invariant (P := fun t₁ => t₁.Exact ∧ t₁.domainsCount = t.domainsCount)
    (fun t₁ letter t₂ h₁ hg hstep => by
      obtain ⟨hexact, hsame⟩ := h₁.1.of_takes hg hstep
      exact ⟨hexact, hsame.trans h₁.2⟩) ⟨ht, rfl⟩ htakes.guarded h

end MailTable

/-! ### The processes -/

/-- What `get_mail_proc_idx` indexes: the domains of the processes up to the one
that has the domain, or those of all, and then the end of one of them; the
log line reads the second process. -/
def procAccesses (procNum : ℕ) (domainName : CStr) (procs : ℕ → List CStr) : List Access :=
  let search (count : ℕ) := (List.range count).flatMap fun j : ℕ =>
    ⟨procNum, j⟩ :: loopOver maxProcDomains (procs j).length
  match (List.range procNum).find? fun j => (procs j).contains domainName with
  | some j => search (j + 1)
  | none =>
      let minProcIdx := (List.range procNum).foldl
        (fun min j => if (procs min).length > (procs j).length then j else min) 0
      search procNum ++ [⟨procNum, minProcIdx⟩, ⟨maxProcDomains, (procs minProcIdx).length⟩,
        ⟨procNum, 1⟩]

/-- The domain has a process, or there is a second process, and one with room. -/
def HasProc (procNum : ℕ) (domainName : CStr) (procs : ℕ → List CStr) : Prop :=
  (∃ j < procNum, domainName ∈ procs j) ∨
    (2 ≤ procNum ∧ ∃ j < procNum, (procs j).length < maxProcDomains)

section Processes

variable {procNum : ℕ} {domainName : CStr} {procs : ℕ → List CStr}

theorem procAccesses_inBounds_iff (hpos : 0 < procNum)
    (hdomains : ∀ j < procNum, (procs j).length ≤ maxProcDomains) :
    (∀ a ∈ procAccesses procNum domainName procs, a.InBounds) ↔
      HasProc procNum domainName procs := by
  have hsearch : ∀ count ≤ procNum, ∀ a ∈ (List.range count).flatMap (fun j : ℕ =>
      (⟨procNum, j⟩ : Access) :: loopOver maxProcDomains (procs j).length), a.InBounds := by
    intro count hcount a ha
    obtain ⟨j, hj, ha⟩ := List.mem_flatMap.mp ha
    have hlt := (List.mem_range.mp hj).trans_le hcount
    rcases List.mem_cons.mp ha with rfl | ha
    · exact inBounds_natCast.mpr hlt
    · exact loopOver_inBounds (hdomains j hlt) a ha
  unfold procAccesses HasProc
  cases hfind : (List.range procNum).find? fun j => (procs j).contains domainName with
  | some j =>
      have hj : j < procNum := List.mem_range.mp (List.mem_of_find?_eq_some hfind)
      have hmem : domainName ∈ procs j := by simpa using List.find?_some hfind
      exact iff_of_true (hsearch (j + 1) hj) (.inl ⟨j, hj, hmem⟩)
  | none =>
      have hnew : ¬∃ j < procNum, domainName ∈ procs j := by
        rintro ⟨j, hj, hmem⟩
        have := List.find?_eq_none.mp hfind j (List.mem_range.mpr hj)
        exact this (by simpa using hmem)
      have hlt := foldl_least_lt (fun j => (procs j).length) procNum
      have hle := foldl_least_le (fun j => (procs j).length) procNum
      simp only [List.forall_mem_append, List.forall_mem_cons]
      rw [and_iff_right (hsearch procNum le_rfl), or_iff_right hnew]
      constructor
      · rintro ⟨-, hend, hsecond, -⟩
        exact ⟨inBounds_natCast.mp hsecond, _, hlt hpos, inBounds_natCast.mp hend⟩
      · rintro ⟨htwo, j, hj, hroom⟩
        refine ⟨inBounds_natCast.mpr (hlt hpos), inBounds_natCast.mpr ((hle j hj).trans_lt hroom),
          inBounds_natCast.mpr htwo, by simp⟩

end Processes

/-! ### The descriptors of a child -/

namespace Child

variable {c c' : Child} {path : CStr}

/-- What `register_new_email` indexes: the search for the domain, and then the
descriptor that has it or the next one. -/
def registerAccesses (path : CStr) (c : Child) : List Access :=
  match emailDomain path with
  | .error _ => []
  | .ok domain =>
      loopOver maxMailDomainNum c.readyDomainsCount ++ [⟨maxMailDomainNum, c.slotOf domain⟩]

theorem registerAccesses_inBounds_iff (hready : c.readyDomainsCount ≤ maxMailDomainNum) :
    (∀ a ∈ c.registerAccesses path, a.InBounds) ↔
      ∀ domain, emailDomain path = .ok domain → c.HasSlot domain := by
  unfold registerAccesses
  cases hdomain : emailDomain path with
  | error halt => simp
  | ok domain =>
      simp only [Except.ok.injEq, forall_eq', List.forall_mem_append]
      rw [and_iff_right (loopOver_inBounds hready)]
      rcases findDomain_cases domain c with ⟨hnone, -⟩ | ⟨j, hj, hsome, -⟩
      · simp [HasSlot, slotOf, hnone]
      · simpa [HasSlot, slotOf, hsome] using hj.trans_le hready

/-- No call registers more domains than there are descriptors. -/
theorem ready_step {op : Op} (h : c.step op = .ok c')
    (hready : c.readyDomainsCount ≤ maxMailDomainNum) :
    c'.readyDomainsCount ≤ maxMailDomainNum := by
  cases op with
  | register path connected =>
      obtain ⟨domain, j, attempt, d, hdomain, hreach, hreg⟩ := registerNewEmail_ok h
      have hslot : c.HasSlot domain := (exists_registerNewEmail_iff hdomain).mp ⟨c', h⟩
      rw [hreg.ready]
      refine max_le hready ?_
      cases hreach with
      | fresh hnew =>
          rcases findDomain_cases domain c with ⟨hnone, -⟩ | ⟨i, hi, -, hi'⟩
          · exact hslot.resolve_left (by simp [hnone])
          · exact absurd hi' (hnew i hi)
      | reopened hj | busy hj => exact Nat.succ_le_of_lt (hj.trans_le hready)
  | write j k =>
      obtain ⟨r, -, hw⟩ := handleWriteSocket_ok h
      rwa [hw.ready]
  | read j results =>
      obtain ⟨reply, d, -, -, rfl⟩ := handleReadSocket_ok.mp h
      exact hready
  | select readReady writeReady exceptReady =>
      cases h
      exact hready

end Child

/-! ### The client -/

structure Master.Bounded (procNum : ℕ) (m : Master) : Prop where
  table : m.table.Exact
  entries : m.table.domainsCount ≤ maxDomainsMails
  domains : ∀ j < procNum, (m.procs j).length ≤ maxProcDomains

namespace MailClient

/-- The client has a process, and the counts of all its processes are within
their arrays. -/
structure Bounded (s : MailClient) : Prop where
  procNum : 0 < s.procNum
  master : ∀ m, s.master = some m → m.Bounded s.procNum
  children : ∀ i c, s.children i = some c → c.readyDomainsCount ≤ maxMailDomainNum

/-- The calls of `get_domains_mails`, `get_mail_proc_idx` and
`register_new_email` in a step index their arrays inside. -/
def InBounds (s : MailClient) : Action → Prop
  | .master dirs _ => ∀ m, s.master = some m → m.outbox = [] →
      if m.Scans then
        Along MailTable.addLetter (fun t letter => ∀ a ∈ t.accesses letter, a.InBounds) m.table
          (listedLetters s.mailDir dirs)
      else ∀ a ∈ procAccesses s.procNum (m.table.domainsMails m.next).domain m.procs, a.InBounds
  | .receive i _ => ∀ c path rest, s.children i = some c → s.queues i = path :: rest →
      path ≠ [] → ∀ a ∈ c.registerAccesses path, a.InBounds
  | .write _ _ _ => True
  | .read _ _ _ => True
  | .select _ _ _ _ => True

/-- Every letter of a scan is for a domain of the table, with room for it; an
entry is for a domain that has a process, or finds one with room behind the
first; a letter that is registered has a descriptor for its domain. -/
def HasPlace (s : MailClient) : Action → Prop
  | .master dirs _ => ∀ m, s.master = some m → m.outbox = [] →
      if m.Scans then
        m.table.KnowsAll (MailTable.parsed (listedLetters s.mailDir dirs)) ∧
          m.table.HoldsAll (MailTable.parsed (listedLetters s.mailDir dirs))
      else HasProc s.procNum (m.table.domainsMails m.next).domain m.procs
  | .receive i _ => ∀ c path rest, s.children i = some c → s.queues i = path :: rest →
      path ≠ [] → ∀ domain, emailDomain path = .ok domain → c.HasSlot domain
  | .write _ _ _ => True
  | .read _ _ _ => True
  | .select _ _ _ _ => True

variable {s : MailClient}

theorem Bounded.inBounds_iff (h : s.Bounded) (a : Action) : s.InBounds a ↔ s.HasPlace a := by
  cases a with
  | master dirs accepted =>
      refine forall_congr' fun m => forall_congr' fun hm => forall_congr' fun _ => ?_
      have hmaster := h.master m hm
      split_ifs
      · exact hmaster.table.along_accesses_iff hmaster.entries
      · exact procAccesses_inBounds_iff h.procNum hmaster.domains
  | receive i connected =>
      refine forall_congr' fun c => forall_congr' fun path => forall_congr' fun rest =>
        forall_congr' fun hc => forall_congr' fun _ => forall_congr' fun _ => ?_
      exact Child.registerAccesses_inBounds_iff (h.children i c hc)
  | write | read | select => exact Iff.rfl

/-! ### The steps -/

theorem Bounded.of_children {s' : MailClient} (h : s.Bounded) (hnum : s'.procNum = s.procNum)
    (hmaster : s'.master = s.master) (hchildren : ∀ k c', s'.children k = some c' →
      c'.readyDomainsCount ≤ maxMailDomainNum) : s'.Bounded := by
  refine ⟨hnum ▸ h.procNum, fun m hm => ?_, hchildren⟩
  rw [hnum]
  exact h.master m (hmaster ▸ hm)

theorem Bounded.childStep (h : s.Bounded) (i : ℕ) (op : Op) : (s.childStep i op).Bounded := by
  unfold MailClient.childStep
  split
  next => exact h
  next c hc =>
    split
    next halt hstep =>
      refine h.of_children rfl rfl fun k c' hk => ?_
      by_cases hki : k = i
      · simp [hki] at hk
      · simp only [Function.update_of_ne hki] at hk
        exact h.children k c' hk
    next c₁ hstep =>
      refine h.of_children rfl rfl fun k c' hk => ?_
      by_cases hki : k = i
      · subst hki
        obtain rfl : c₁ = c' := by simpa using hk
        have hready : ({ c with files := s.files } : Child).readyDomainsCount ≤ maxMailDomainNum :=
          h.children k c hc
        exact Child.ready_step hstep hready
      · simp only [Function.update_of_ne hki] at hk
        exact h.children k c' hk

theorem Bounded.receive (h : s.Bounded) (i : ℕ) (connected : Option ℕ) :
    (s.receive i connected).Bounded := by
  unfold MailClient.receive
  split
  next c path rest _ _ =>
    have hs : ({ s with queues := Function.update s.queues i rest } : MailClient).Bounded :=
      h.of_children rfl rfl h.children
    split
    next => exact hs.childStep i (.register path connected)
    next => exact hs
  next => exact h

theorem exact_setEntry_clear {t : MailTable} {i : ℕ} (ht : t.Exact) :
    (t.setEntry i (t.domainsMails i).clear).Exact := by
  have hdomain : ∀ k : ℕ, ((t.setEntry i (t.domainsMails i).clear).domainsMails k).domain =
      (t.domainsMails k).domain := by
    intro k
    by_cases hki : (k : ℤ) = i
    · simp [MailTable.setEntry, hki, DomainMails.clear]
    · simp [MailTable.setEntry, hki]
  refine ⟨fun k hk l hl hkl => ?_, fun k hk => ?_⟩
  · rw [hdomain, hdomain] at hkl
    exact ht.distinct k hk l hl hkl
  · by_cases hki : (k : ℤ) = i
    · refine ⟨[], ?_⟩
      rw [hki]
      simp only [MailTable.setEntry, Function.update_self]
      exact ⟨rfl, rfl, List.nodup_nil, Nat.zero_le _⟩
    · simp only [MailTable.setEntry, Function.update_of_ne hki]
      exact ht.stores k hk

theorem length_update_le {procNum i : ℕ} {procs : ℕ → List CStr} {domainName : CStr}
    (h : ∀ j < procNum, (procs j).length ≤ maxProcDomains)
    (hroom : (procs i).length < maxProcDomains) :
    ∀ j < procNum,
      (Function.update procs i (procs i ++ [domainName]) j).length ≤ maxProcDomains := by
  intro j hj
  by_cases hji : j = i
  · subst hji
    rw [Function.update_self, List.length_append, List.length_singleton]
    exact hroom
  · rw [Function.update_of_ne hji]
    exact h j hj

theorem takeEntry_bounded {procNum : ℕ} {m m' : Master} (hm : m.Bounded procNum)
    (h : m.takeEntry procNum = .ok m') : m'.Bounded procNum := by
  obtain ⟨⟨idx, procs⟩, hidx, h⟩ := bind_eq_ok.mp h
  cases h
  refine ⟨exact_setEntry_clear hm.table, hm.entries, fun j hj => ?_⟩
  unfold getMailProcIdx at hidx
  split at hidx
  next =>
    cases hidx
    exact hm.domains j hj
  next =>
    dsimp only at hidx
    split_ifs at hidx with hroom
    cases hidx
    exact length_update_le hm.domains hroom.2 j hj

theorem Bounded.masterStep {dirs : List (CStr × List CStr)} {accepted : Bool} (h : s.Bounded)
    (hplace : s.HasPlace (.master dirs accepted)) : (s.masterStep dirs accepted).Bounded := by
  have hsend : ∀ (m' : Master) (msg : Option (ℕ × CStr)), m'.Bounded s.procNum →
      ({ s with master := some m' }.send accepted msg).Bounded := by
    intro m' msg hm'
    have hs : ({ s with master := some m' } : MailClient).Bounded := by
      refine ⟨h.procNum, fun m₁ hm₁ => ?_, h.children⟩
      obtain rfl : m' = m₁ := Option.some.inj hm₁
      exact hm'
    unfold send
    split
    · exact hs.of_children rfl rfl hs.children
    · exact hs
  cases hm : s.master with
  | none =>
      rw [masterStep_none hm]
      exact h
  | some m =>
      cases hstep : m.step s.mailDir s.procNum dirs with
      | error halt =>
          rw [masterStep_error hm hstep]
          refine ⟨h.procNum, fun m₁ hm₁ => ?_, h.children⟩
          cases hm₁
      | ok next =>
          obtain ⟨m', msg⟩ := next
          rw [masterStep_ok hm hstep]
          refine hsend m' msg ?_
          have hmaster := h.master m hm
          unfold Master.step at hstep
          split at hstep
          next => cases hstep
          next i path rest hout =>
            cases hstep
            exact ⟨hmaster.table, hmaster.entries, hmaster.domains⟩
          next hout =>
            have hopen := hplace m hm hout
            split_ifs at hstep hopen with hscans
            · obtain ⟨m₁, hscan, hstep⟩ := bind_eq_ok.mp hstep
              cases hstep
              obtain ⟨t, ht, hscan⟩ := bind_eq_ok.mp hscan
              cases hscan
              obtain ⟨hexact, hcount⟩ := hmaster.table.of_along_takes
                (hmaster.table.along_takes_iff.mpr hopen) ht
              exact ⟨hexact, hcount ▸ hmaster.entries, hmaster.domains⟩
            · obtain ⟨m₁, htake, hstep⟩ := bind_eq_ok.mp hstep
              cases hstep
              exact takeEntry_bounded hmaster htake

theorem Bounded.step {s' : MailClient} {a : Action} (h : s.Bounded) (hplace : s.HasPlace a)
    (hok : s.step a = .ok s') : s'.Bounded := by
  cases a with
  | master dirs accepted =>
      cases hok
      exact h.masterStep hplace
  | receive i connected =>
      cases hok
      exact h.receive i connected
  | write i j k | read i j results | select i readReady writeReady exceptReady =>
      cases hok
      exact h.childStep i _

/-! ### The runs -/

/-- From any state whose counts are within their arrays, the scans and
registrations of a run index their arrays inside exactly if each finds a place
for its letters. -/
theorem inBounds_iff_hasPlace (h : s.Bounded) (acts : List Action) :
    Along MailClient.step InBounds s acts ↔ Along MailClient.step HasPlace s acts :=
  along_congr_of (fun _ a _ hs hin hok => hs.step ((hs.inBounds_iff a).mp hin) hok)
    (fun _ a _ hs => hs.inBounds_iff a) h

theorem bounded_boot (conf : Conf) {procNum : ℕ} (hpos : 0 < procNum)
    (files : CStr → Option (List Char)) (domains : ℤ → CStr) (counts : ℤ → ℤ)
    (memory : ℕ → ℕ → Dscrptr) :
    (bootClient conf procNum files domains counts memory).Bounded := by
  refine ⟨hpos, fun m hm => ?_, fun i c hc => ?_⟩
  · obtain rfl := Option.some.inj hm
    refine ⟨⟨fun i hi => absurd hi (Nat.not_lt_zero i), fun i hi => absurd hi (Nat.not_lt_zero i)⟩,
      Nat.zero_le _, fun j _ => Nat.zero_le _⟩
  · simp only [bootClient] at hc
    split_ifs at hc
    obtain rfl := Option.some.inj hc
    exact Nat.zero_le _

def knowingClient : MailClient :=
  { sampleClient with
    master := some ⟨MailTable.sampleTable ["a.b"], fun _ => ["a.b".toList], 1, []⟩ }

theorem knowingClient_inBounds :
    Along MailClient.step InBounds knowingClient [.master MailTable.sampleDirs true] ↔
      Along MailClient.step HasPlace knowingClient [.master MailTable.sampleDirs true] := by
  refine inBounds_iff_hasPlace ⟨Nat.one_pos, fun m hm => ?_, fun i c hc => ?_⟩ _
  · obtain rfl := Option.some.inj hm
    have hlen : (MailTable.sampleTable ["a.b"]).domainsCount = 1 := rfl
    refine ⟨⟨fun i hi k hk _ => ?_, fun i hi => ⟨[], ?_⟩⟩, ?_, fun j _ => ?_⟩
    · simp only at hi hk
      omega
    · exact ⟨rfl, rfl, List.nodup_nil, Nat.zero_le _⟩
    · decide
    · exact Nat.le_of_ble_eq_true rfl
  · have hboot : sampleClient.Bounded := bounded_boot _ Nat.one_pos _ _ _ _
    exact hboot.children i c hc

/-- The first letter that a client finds is counted in front of its table. -/
theorem first_letter_outOfBounds :
    ¬Along MailClient.step InBounds sampleClient [.master MailTable.sampleDirs true] := by
  rintro ⟨hin, -⟩
  have hscan := hin _ rfl rfl
  have hscans : (⟨⟨fun _ => ⟨[], fun _ => none, 0⟩, 0⟩, fun _ => [], 0, []⟩ : Master).Scans :=
    ⟨rfl, le_rfl⟩
  rw [if_pos hscans] at hscan
  have hfront : (⟨maxDomainsMails, -1⟩ : Access).InBounds := by
    have hletters : listedLetters sampleClient.mailDir MailTable.sampleDirs =
        [("m/u/new/1.2.a.b".toList, "1.2.a.b".toList)] := by decide +kernel
    rw [hletters] at hscan
    have hdomain : emailDomain "1.2.a.b".toList = .ok "a.b".toList := by decide +kernel
    exact hscan.1 _ (MailTable.front_mem_accesses hdomain rfl)
  exact absurd hfront (by decide)

end MailClient

end SmtpProj.Client
