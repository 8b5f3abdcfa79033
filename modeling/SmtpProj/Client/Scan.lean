import Mathlib.Data.Finset.Card
import SmtpProj.Client.Duplicates

/-!
What a scan makes of the table of domains.

A letter whose domain has an entry is looked up in it and added behind the
paths that are there, so the entry goes on to hold each of its letters once. A
letter whose domain is new is another matter: the count that is reset for it is
the one in front of the table, because the index is the one of the search that
failed, and the count of the new entry goes on from whatever was there.

So the table stays exact, and nothing else is written, as long as every letter
is for a domain that has an entry already. Without a bound on the array of
paths, each entry must have room for the letters that are new to it.
-/

namespace SmtpProj.Client

open Lib

/-! ### Exact tables -/

namespace DomainMails

/-- The entry holds `letters`, each once, and its count is their number. -/
structure Stores (letters : List CStr) (e : DomainMails) : Prop where
  count : e.mailsCount = letters.length
  paths : e.paths = letters.map some
  nodup : letters.Nodup
  fits : letters.length ≤ maxMailsPaths

variable {e e' : DomainMails} {letters : List CStr} {path : CStr}

theorem Stores.mem_iff (h : e.Stores letters) : some path ∈ e.paths ↔ path ∈ letters := by
  simp [h.paths]

theorem Stores.count_eq_one (h : e.Stores letters) (hmem : path ∈ letters) :
    e.paths.count (some path) = 1 := by
  rw [h.paths, List.count_map_of_injective letters some (Option.some_injective _) path]
  exact List.count_eq_one_of_mem h.nodup hmem

def HasRoom (path : CStr) (e : DomainMails) : Prop :=
  (insert (some path) e.paths.toFinset).card ≤ maxMailsPaths

theorem Stores.card (h : e.Stores letters) : e.paths.toFinset.card = letters.length := by
  rw [h.paths, List.toFinset_card_of_nodup (h.nodup.map (Option.some_injective _)),
    List.length_map]

/-- A letter is added to the entry, or is there already. -/
theorem Stores.addMail (h : e.Stores letters) (hroom : e.HasRoom path) :
    ∃ e' letters', e.addMail path = .ok e' ∧ e'.Stores letters' ∧ e'.domain = e.domain ∧
      e.paths <+: e'.paths ∧ e'.paths.toFinset = insert (some path) e.paths.toFinset := by
  have hnone : none ∉ e.paths := by simp [h.paths]
  by_cases hmem : some path ∈ e.paths
  · refine ⟨e, letters, ?_, h, rfl, List.prefix_rfl, ?_⟩
    · rw [DomainMails.addMail, if_neg hnone, if_pos hmem]
    · exact (Finset.insert_eq_of_mem (List.mem_toFinset.mpr hmem)).symm
  · have hlt : letters.length < maxMailsPaths := by
      have hcard := hroom
      rw [HasRoom, Finset.card_insert_of_notMem (by simpa using hmem), h.card] at hcard
      exact hcard
    have hcount : 0 ≤ e.mailsCount ∧ e.mailsCount < maxMailsPaths := by
      rw [h.count]
      exact ⟨Int.natCast_nonneg _, by exact_mod_cast hlt⟩
    obtain ⟨e', he', hadd⟩ : ∃ e', e.addMail path = .ok e' ∧ e'.mailsCount = e.mailsCount + 1 ∧
        e'.domain = e.domain := by
      rw [DomainMails.addMail, if_neg hnone, if_neg hmem, if_pos hcount]
      exact ⟨_, rfl, rfl, rfl⟩
    have hpaths : e'.paths = e.paths ++ [some path] := by
      refine (paths_addMail he').resolve_left fun hsame => ?_
      have hlen := congrArg List.length hsame
      simp only [DomainMails.paths, List.length_map, List.length_range, hadd.1] at hlen
      omega
    refine ⟨e', letters ++ [path], he', ⟨?_, ?_, ?_, ?_⟩, hadd.2, ?_, ?_⟩
    · simp [hadd.1, h.count]
    · simp [hpaths, h.paths]
    · refine List.nodup_append'.mpr ⟨h.nodup, List.nodup_singleton _, ?_⟩
      simpa using fun hpath => hmem (h.mem_iff.mpr hpath)
    · rw [List.length_append, List.length_singleton]
      exact hlt
    · exact hpaths ▸ List.prefix_append _ _
    · rw [hpaths, List.toFinset_append, List.toFinset_cons, List.toFinset_nil,
        Finset.union_comm]
      rfl

end DomainMails

namespace MailTable

/-- The domains are pairwise distinct, and every count is the number of the
paths that are stored, which are pairwise distinct too. -/
structure Exact (t : MailTable) : Prop where
  distinct : ∀ i < t.domainsCount, ∀ k < t.domainsCount,
    (t.domainsMails i).domain = (t.domainsMails k).domain → i = k
  stores : ∀ i < t.domainsCount, ∃ letters, (t.domainsMails i).Stores letters

/-- Nothing was written but the entries in use. -/
def WritesWithin (t t' : MailTable) : Prop :=
  ∀ i : ℤ, i < 0 ∨ t'.domainsCount ≤ i → t'.domainsMails i = t.domainsMails i

/-- Every entry of `t` is still there, with the paths it had. -/
def Keeps (t t' : MailTable) : Prop :=
  ∀ i < t.domainsCount, i < t'.domainsCount ∧
    (t'.domainsMails i).domain = (t.domainsMails i).domain ∧
    (t.domainsMails i).paths <+: (t'.domainsMails i).paths

def Files (letter : CStr × CStr) (t : MailTable) : Prop :=
  ∃ i < t.domainsCount, emailDomain letter.2 = .ok (t.domainsMails i).domain ∧
    (t.domainsMails i).paths.count (some letter.1) = 1

variable {t t' u : MailTable} {letter : CStr × CStr} {letters : List (CStr × CStr)} {i : ℕ}

theorem Keeps.trans {t₁ : MailTable} (h : t.Keeps t₁) (h' : t₁.Keeps t') : t.Keeps t' := by
  intro i hi
  obtain ⟨hi₁, hdomain, hpaths⟩ := h i hi
  obtain ⟨hi', hdomain', hpaths'⟩ := h' i hi₁
  exact ⟨hi', hdomain'.trans hdomain, hpaths.trans hpaths'⟩

theorem Keeps.files (h : t.Keeps t') (ht' : t'.Exact) (hi : i < t.domainsCount)
    (hdomain : emailDomain letter.2 = .ok (t.domainsMails i).domain)
    (hmem : some letter.1 ∈ (t.domainsMails i).paths) : t'.Files letter := by
  obtain ⟨hi', hsame, hpaths⟩ := h i hi
  obtain ⟨letters, hstores⟩ := ht'.stores i hi'
  refine ⟨i, hi', by rw [hsame, hdomain], hstores.count_eq_one ?_⟩
  exact hstores.mem_iff.mp (hpaths.subset hmem)

theorem Exact.findDomain (h : t.Exact) (hi : i < t.domainsCount) :
    t.findDomain (t.domainsMails i).domain = some i := by
  rcases foldl_found_cases (fun k : ℕ => (t.domainsMails i).domain = (t.domainsMails k).domain)
    t.domainsCount with ⟨-, hnew⟩ | ⟨k, hk, hsome, hdomain⟩
  · exact absurd rfl (hnew i hi)
  · obtain rfl := h.distinct i hi k hk hdomain
    exact hsome

/-! ### A letter of a known domain -/

/-- What a letter of a known domain changes: its entry, which then has it. -/
theorem Exact.addLetter (h : t.Exact) (hi : i < t.domainsCount)
    (hdomain : emailDomain letter.2 = .ok (t.domainsMails i).domain)
    (hroom : (t.domainsMails i).HasRoom letter.1) :
    ∃ t', t.addLetter letter = .ok t' ∧ t'.domainsCount = t.domainsCount ∧ t'.Exact ∧
      t.Keeps t' ∧ t.WritesWithin t' ∧
      (∀ k : ℕ, (t'.domainsMails k).paths.toFinset =
        if k = i then insert (some letter.1) (t.domainsMails i).paths.toFinset
        else (t.domainsMails k).paths.toFinset) := by
  obtain ⟨letters, hstores⟩ := h.stores i hi
  obtain ⟨e, letters', he, hstores', hsame, hpaths, hfinset⟩ := hstores.addMail hroom
  have hstep : t.addLetter letter = .ok (t.setEntry i e) := by
    simp only [MailTable.addLetter, hdomain, bind, Except.bind, h.findDomain hi, he]
  have hown : (t.setEntry i e).domainsMails i = e := by simp [setEntry]
  have hother : ∀ k : ℤ, k ≠ i → (t.setEntry i e).domainsMails k = t.domainsMails k := by
    intro k hk
    simp [setEntry, hk]
  have hdomains : ∀ k : ℕ, ((t.setEntry i e).domainsMails k).domain =
      (t.domainsMails k).domain := by
    intro k
    by_cases hk : k = i
    · rw [hk, hown, hsame]
    · rw [hother k (by exact_mod_cast hk)]
  refine ⟨t.setEntry i e, hstep, rfl, ⟨fun k hk l hl hkl => ?_, fun k hk => ?_⟩,
    fun k hk => ⟨hk, hdomains k, ?_⟩, fun k hk => hother k ?_, fun k => ?_⟩
  · rw [hdomains, hdomains] at hkl
    exact h.distinct k hk l hl hkl
  · by_cases hki : k = i
    · exact ⟨letters', by rw [hki, hown]; exact hstores'⟩
    · rw [hother k (by exact_mod_cast hki)]
      exact h.stores k hk
  · by_cases hki : k = i
    · rw [hki, hown]
      exact hpaths
    · rw [hother k (by exact_mod_cast hki)]
  · have hcount : (t.setEntry i e).domainsCount = t.domainsCount := rfl
    rw [hcount] at hk
    omega
  · split_ifs with hki
    · rw [hki, hown, hfinset]
    · rw [hother k (by exact_mod_cast hki)]

/-! ### All the letters -/

def lettersFor (domain : CStr) (letters : List (CStr × CStr)) : List (Option CStr) :=
  (letters.filter fun letter => emailDomain letter.2 = .ok domain).map fun letter => some letter.1

def KnowsAll (letters : List (CStr × CStr)) (t : MailTable) : Prop :=
  ∀ letter ∈ letters, ∃ i < t.domainsCount,
    emailDomain letter.2 = .ok (t.domainsMails i).domain

def HoldsAll (letters : List (CStr × CStr)) (t : MailTable) : Prop :=
  ∀ i < t.domainsCount, ((t.domainsMails i).paths.toFinset ∪
    (lettersFor (t.domainsMails i).domain letters).toFinset).card ≤ maxMailsPaths

theorem lettersFor_cons (domain : CStr) (letter : CStr × CStr) (letters : List (CStr × CStr)) :
    lettersFor domain (letter :: letters) =
      if emailDomain letter.2 = .ok domain then some letter.1 :: lettersFor domain letters
      else lettersFor domain letters := by
  by_cases h : emailDomain letter.2 = .ok domain
  · simp [lettersFor, h]
  · simp [lettersFor, h]

theorem Exact.holdsAll_nil (ht : t.Exact) : t.HoldsAll [] := by
  intro i hi
  obtain ⟨stored, hstores⟩ := ht.stores i hi
  simpa [lettersFor, hstores.card] using hstores.fits

/-- A letter of a known domain takes its room from the entry, and the others
have theirs left. -/
theorem Exact.holdsAll_cons (ht : t.Exact) (hi : i < t.domainsCount) (hkeeps : t.Keeps t')
    (hcount : t'.domainsCount = t.domainsCount)
    (hdomain : emailDomain letter.2 = .ok (t.domainsMails i).domain)
    (hpaths : ∀ k : ℕ, (t'.domainsMails k).paths.toFinset =
      if k = i then insert (some letter.1) (t.domainsMails i).paths.toFinset
      else (t.domainsMails k).paths.toFinset) :
    t.HoldsAll (letter :: letters) ↔ t'.HoldsAll letters := by
  unfold HoldsAll
  rw [hcount]
  refine forall_congr' fun k => forall_congr' fun hk => ?_
  rw [hpaths, (hkeeps k hk).2.1, lettersFor_cons]
  by_cases hki : k = i
  · subst hki
    rw [if_pos hdomain, if_pos rfl, List.toFinset_cons, Finset.union_insert, Finset.insert_union]
  · have hother : emailDomain letter.2 ≠ .ok (t.domainsMails k).domain := fun hk' =>
      hki (ht.distinct k hk i hi (Except.ok.inj (hk'.symm.trans hdomain)))
    rw [if_neg hother, if_neg hki]

theorem HoldsAll.hasRoom (h : t.HoldsAll (letter :: letters)) (hi : i < t.domainsCount)
    (hdomain : emailDomain letter.2 = .ok (t.domainsMails i).domain) :
    (t.domainsMails i).HasRoom letter.1 := by
  refine (Finset.card_le_card (Finset.insert_subset ?_ Finset.subset_union_left)).trans (h i hi)
  refine Finset.mem_union_right _ (List.mem_toFinset.mpr ?_)
  rw [lettersFor_cons, if_pos hdomain]
  exact List.mem_cons_self

/-- Letters of known domains, for which there is room. -/
theorem Exact.addLetters (h : t.Exact) (hknows : t.KnowsAll letters) (hholds : t.HoldsAll letters) :
    ∃ t', run MailTable.addLetter t letters = .ok t' ∧ t'.domainsCount = t.domainsCount ∧
      t'.Exact ∧ t.Keeps t' ∧ t.WritesWithin t' ∧ ∀ letter ∈ letters, t'.Files letter := by
  induction letters generalizing t with
  | nil =>
      exact ⟨t, rfl, rfl, h, fun k hk => ⟨hk, rfl, List.prefix_rfl⟩, fun _ _ => rfl, by simp⟩
  | cons letter letters ih =>
      obtain ⟨i, hi, hdomain⟩ := hknows letter (by simp)
      obtain ⟨t₁, hstep, hcount, hexact, hkeeps, hwrites, hpaths⟩ :=
        h.addLetter hi hdomain (hholds.hasRoom hi hdomain)
      have hknows₁ : t₁.KnowsAll letters := by
        intro l hl
        obtain ⟨k, hk, hkdomain⟩ := hknows l (by simp [hl])
        exact ⟨k, (hkeeps k hk).1, by rw [(hkeeps k hk).2.1, hkdomain]⟩
      obtain ⟨t', hrun, hcount', hexact', hkeeps', hwrites', hfiles⟩ :=
        ih hexact hknows₁ ((h.holdsAll_cons hi hkeeps hcount hdomain hpaths).mp hholds)
      refine ⟨t', (run_cons_ok hstep).trans hrun, hcount'.trans hcount, hexact',
        hkeeps.trans hkeeps', fun k hk => ?_, fun l hl => ?_⟩
      · exact (hwrites' k hk).trans (hwrites k (by rwa [hcount'] at hk))
      · rcases List.mem_cons.mp hl with rfl | hl
        · refine hkeeps'.files hexact' (hkeeps i hi).1 (by rw [(hkeeps i hi).2.1, hdomain]) ?_
          rw [← List.mem_toFinset, hpaths, if_pos rfl]
          exact Finset.mem_insert_self _ _
        · exact hfiles l hl

/-! ### A letter of a new domain -/

theorem findDomain_eq_none {domain : CStr}
    (h : ∀ i < t.domainsCount, (t.domainsMails i).domain ≠ domain) :
    t.findDomain domain = none := by
  rcases foldl_found_cases (fun i : ℕ => domain = (t.domainsMails i).domain) t.domainsCount with
    ⟨hnone, -⟩ | ⟨i, hi, -, hdomain⟩
  · exact hnone
  · exact absurd hdomain.symm (h i hi)

/-- The entry in front of the table is only ever reset, and a new domain resets
it. -/
theorem reset_addLetter (h : t.addLetter letter = .ok t') :
    ((t.domainsMails (-1)).mailsCount = 0 → (t'.domainsMails (-1)).mailsCount = 0) ∧
      ∀ domain, emailDomain letter.2 = .ok domain →
        (∀ k < t.domainsCount, (t.domainsMails k).domain ≠ domain) →
          (t'.domainsMails (-1)).mailsCount = 0 := by
  obtain ⟨domain, hdomain, h⟩ := bind_eq_ok.mp h
  cases hfind : t.findDomain domain with
  | none =>
      simp only [hfind] at h
      split at h
      next =>
        cases h
        have hne : (-1 : ℤ) ≠ t.domainsCount := by omega
        simp [setEntry, hne]
      next => cases h
  | some i =>
      simp only [hfind] at h
      obtain ⟨e, -, h⟩ := bind_eq_ok.mp h
      cases h
      have hne : (-1 : ℤ) ≠ i := by omega
      refine ⟨fun hreset => by simpa [setEntry, hne] using hreset, fun d hd hnew => ?_⟩
      obtain rfl : domain = d := Except.ok.inj (hdomain.symm.trans hd)
      rw [findDomain_eq_none hnew] at hfind
      cases hfind

theorem domains_addLetter {domain : CStr} (h : t.addLetter letter = .ok t')
    (hletter : emailDomain letter.2 ≠ .ok domain)
    (hnew : ∀ k < t.domainsCount, (t.domainsMails k).domain ≠ domain) :
    ∀ k < t'.domainsCount, (t'.domainsMails k).domain ≠ domain := by
  obtain ⟨d, hd, h⟩ := bind_eq_ok.mp h
  have hne : d ≠ domain := fun heq => hletter (heq ▸ hd)
  cases hfind : t.findDomain d with
  | none =>
      simp only [hfind] at h
      split at h
      next =>
        cases h
        intro k hk
        have hk' : k < t.domainsCount + 1 := hk
        have hfront : (k : ℤ) ≠ -1 := by omega
        by_cases hkc : k = t.domainsCount
        · simpa [setEntry, hkc, DomainMails.startMail] using hne
        · have hkc' : (k : ℤ) ≠ t.domainsCount := by exact_mod_cast hkc
          simpa [setEntry, hfront, hkc'] using hnew k (by omega)
      next => cases h
  | some i =>
      simp only [hfind] at h
      obtain ⟨e, he, h⟩ := bind_eq_ok.mp h
      cases h
      have hdomain : e.domain = (t.domainsMails i).domain := by
        unfold DomainMails.addMail at he
        split_ifs at he <;> cases he <;> rfl
      intro k hk
      by_cases hki : k = i
      · simpa [setEntry, hki, hdomain] using hnew i (findDomain_lt hfind)
      · have hki' : (k : ℤ) ≠ i := by exact_mod_cast hki
        simpa [setEntry, hki'] using hnew k hk

theorem reset_addLetters (h : run MailTable.addLetter t letters = .ok t')
    (hzero : (t.domainsMails (-1)).mailsCount = 0) : (t'.domainsMails (-1)).mailsCount = 0 :=
  run_invariant (P := fun t : MailTable => (t.domainsMails (-1)).mailsCount = 0)
    (fun _ _ _ hreset _ hstep => (reset_addLetter hstep).1 hreset) hzero (guarded_true _ _) h

theorem reset_of_new {domain : CStr} (h : run MailTable.addLetter t letters = .ok t')
    (hmem : letter ∈ letters) (hdomain : emailDomain letter.2 = .ok domain)
    (hnew : ∀ k < t.domainsCount, (t.domainsMails k).domain ≠ domain) :
    (t'.domainsMails (-1)).mailsCount = 0 := by
  induction letters generalizing t with
  | nil => simp at hmem
  | cons l letters ih =>
      obtain ⟨t₁, hstep, hrest⟩ := bind_eq_ok.mp h
      by_cases hl : emailDomain l.2 = .ok domain
      · exact reset_addLetters hrest ((reset_addLetter hstep).2 domain hl hnew)
      · have hmem' : letter ∈ letters := by
          rcases List.mem_cons.mp hmem with rfl | hmem'
          · exact absurd hdomain hl
          · exact hmem'
        exact ih hrest hmem' (domains_addLetter hstep hl hnew)

/-! ### The scan -/

def SameUsed (t u : MailTable) : Prop :=
  u.domainsCount = t.domainsCount ∧
    ∀ i < t.domainsCount, u.domainsMails (i : ℕ) = t.domainsMails (i : ℕ)

/-- Whatever the entries that are not in use contain, the scan writes entries in
use only, leaves the table exact with all that was in it, and files every
letter. -/
def ScansExactly (mailDir : CStr) (dirs : List (CStr × List CStr)) (t : MailTable) : Prop :=
  ∀ u, t.SameUsed u → ∃ u', getDomainsMails mailDir dirs u = .ok u' ∧ u.WritesWithin u' ∧
    u'.Exact ∧ u.Keeps u' ∧ ∀ letter ∈ listedLetters mailDir dirs, u'.Files letter

theorem SameUsed.exact (h : t.SameUsed u) (ht : t.Exact) : u.Exact := by
  obtain ⟨hcount, hentries⟩ := h
  refine ⟨fun i hi k hk hik => ?_, fun i hi => ?_⟩
  · rw [hcount] at hi hk
    rw [hentries i hi, hentries k hk] at hik
    exact ht.distinct i hi k hk hik
  · rw [hcount] at hi
    rw [hentries i hi]
    exact ht.stores i hi

theorem SameUsed.knowsAll (h : t.SameUsed u) (hknows : t.KnowsAll letters) :
    u.KnowsAll letters := by
  obtain ⟨hcount, hentries⟩ := h
  intro letter hletter
  obtain ⟨i, hi, hdomain⟩ := hknows letter hletter
  exact ⟨i, hcount ▸ hi, by rw [hentries i hi, hdomain]⟩

theorem SameUsed.holdsAll (h : t.SameUsed u) (hholds : t.HoldsAll letters) :
    u.HoldsAll letters := by
  obtain ⟨hcount, hentries⟩ := h
  intro i hi
  rw [hcount] at hi
  rw [hentries i hi]
  exact hholds i hi

/-- What a table that files every letter holds. -/
theorem holdsAll_of_files (ht' : t'.Exact) (hkeeps : t.Keeps t')
    (hfiles : ∀ letter ∈ letters, t'.Files letter) : t.HoldsAll letters := by
  intro i hi
  obtain ⟨hi', hdomain, hpaths⟩ := hkeeps i hi
  obtain ⟨stored, hstores⟩ := ht'.stores i hi'
  refine (Finset.card_le_card (Finset.union_subset ?_ ?_)).trans
    (hstores.card.trans_le hstores.fits)
  · intro p hp
    exact List.mem_toFinset.mpr (hpaths.subset (List.mem_toFinset.mp hp))
  · intro p hp
    obtain ⟨letter, hletter, rfl⟩ := List.mem_map.mp (List.mem_toFinset.mp hp)
    obtain ⟨hmem, hown⟩ := List.mem_filter.mp hletter
    obtain ⟨k, hk, hkdomain, hcount⟩ := hfiles letter hmem
    have hsame := Except.ok.inj ((of_decide_eq_true hown).symm.trans hkdomain)
    obtain rfl := ht'.distinct i hi' k hk (hdomain.trans hsame)
    exact List.mem_toFinset.mpr (List.count_pos_iff.mp (by omega))

/-- A scan keeps an exact table exact, and files every letter in it, exactly if
all letters are for domains that have an entry, with room for them. -/
theorem scansExactly_iff {mailDir : CStr} {dirs : List (CStr × List CStr)} (ht : t.Exact)
    (hparse : ∀ letter ∈ listedLetters mailDir dirs, ∃ domain, emailDomain letter.2 = .ok domain) :
    t.ScansExactly mailDir dirs ↔ t.KnowsAll (listedLetters mailDir dirs) ∧
      t.HoldsAll (listedLetters mailDir dirs) := by
  constructor
  · intro hscans
    refine ⟨fun letter hletter => ?_, ?_⟩
    · by_contra hunknown
      obtain ⟨domain, hdomain⟩ := hparse letter hletter
      have hnew : ∀ k < t.domainsCount, (t.domainsMails k).domain ≠ domain := fun k hk hk' =>
        hunknown ⟨k, hk, by rw [hk', hdomain]⟩
      -- the reset is seen in a table with another count in front of it
      have hfront : ∀ k : ℕ, (k : ℤ) ≠ -1 := fun k => by omega
      obtain ⟨u', hrun, hwrites, -⟩ := hscans
        (t.setEntry (-1) { t.domainsMails (-1) with mailsCount := 1 })
        ⟨rfl, fun k _ => by simp [setEntry, hfront k]⟩
      have hreset := reset_of_new hrun hletter hdomain fun k hk => by
        simpa [setEntry, hfront k] using hnew k hk
      rw [hwrites (-1) (.inl (by omega))] at hreset
      simp [setEntry] at hreset
    · obtain ⟨u', -, -, hexact, hkeeps, hfiles⟩ := hscans t ⟨rfl, fun _ _ => rfl⟩
      exact holdsAll_of_files hexact hkeeps hfiles
  · rintro ⟨hknows, hholds⟩ u hu
    obtain ⟨u', hrun, -, hexact, hkeeps, hwrites, hfiles⟩ :=
      (hu.exact ht).addLetters (hu.knowsAll hknows) (hu.holdsAll hholds)
    exact ⟨u', hrun, hwrites, hexact, hkeeps, hfiles⟩

/-! ### One letter -/

def sampleTable (domains : List String) : MailTable where
  domainsMails i := ⟨(domains.getD i.toNat "").toList, fun _ => none, 0⟩
  domainsCount := domains.length

def sampleDirs : List (CStr × List CStr) := [("u".toList, ["1.2.a.b".toList])]

theorem sampleTable_scansExactly :
    (sampleTable ["a.b"]).ScansExactly "m/".toList sampleDirs ↔
      (sampleTable ["a.b"]).KnowsAll (listedLetters "m/".toList sampleDirs) ∧
        (sampleTable ["a.b"]).HoldsAll (listedLetters "m/".toList sampleDirs) := by
  refine scansExactly_iff ⟨fun i hi k hk _ => ?_, fun i hi => ⟨[], ?_⟩⟩ fun letter hletter => ?_
  · have hlen : (sampleTable ["a.b"]).domainsCount = 1 := rfl
    omega
  · exact ⟨rfl, rfl, List.nodup_nil, Nat.zero_le _⟩
  · obtain rfl : letter = ("m/u/new/1.2.a.b".toList, "1.2.a.b".toList) := by
      simpa [listedLetters, sampleDirs, isDots, getUserNewDirFullPath] using hletter
    exact ⟨"a.b".toList, by decide +kernel⟩

/-- The first letter of all is for a new domain. -/
theorem sampleTable_not_scansExactly : (sampleTable []).Exact ∧
    (∀ letter ∈ listedLetters "m/".toList sampleDirs, ∃ domain,
      emailDomain letter.2 = .ok domain) ∧
    ¬(sampleTable []).ScansExactly "m/".toList sampleDirs := by
  refine ⟨⟨fun i hi => absurd hi (Nat.not_lt_zero i), fun i hi => absurd hi (Nat.not_lt_zero i)⟩,
    fun letter hletter => ?_, fun hscans => ?_⟩
  · obtain rfl : letter = ("m/u/new/1.2.a.b".toList, "1.2.a.b".toList) := by
      simpa [listedLetters, sampleDirs, isDots, getUserNewDirFullPath] using hletter
    exact ⟨"a.b".toList, by decide +kernel⟩
  · obtain ⟨u', hrun, hwrites, -⟩ := hscans ⟨fun _ => ⟨[], fun _ => none, 1⟩, 0⟩
      ⟨rfl, fun i hi => absurd hi (Nat.not_lt_zero i)⟩
    have hreset : (getDomainsMails "m/".toList sampleDirs ⟨fun _ => ⟨[], fun _ => none, 1⟩, 0⟩).map
        (fun t => (t.domainsMails (-1)).mailsCount) = .ok 0 := by decide +kernel
    rw [hrun] at hreset
    have hzero : (u'.domainsMails (-1)).mailsCount = 0 := Except.ok.inj hreset
    rw [hwrites (-1) (.inl (by omega))] at hzero
    cases hzero

end MailTable

end SmtpProj.Client
