import Mathlib.Algebra.BigOperators.Group.Finset.Piecewise
import Mathlib.Algebra.Order.BigOperators.Group.Finset
import Mathlib.Data.Finset.Card
import SmtpProj.Client.Affinity

/-!
How the domains are spread over the processes.

A domain that no process has goes to the first of those with the fewest. So the
counts stay within one of each other, whatever is asked for and in whatever
order; and since a domain that some process has is never stored again, the
counts add up to the number of different domains.
-/

namespace SmtpProj.Client

open Lib

variable {procNum : ℕ} {procs procs' : ℕ → List CStr} {domain : CStr} {i : ℕ}
  {names seen : List CStr}

/-! ### The search for the fewest -/

/-- What `get_mail_proc_idx` does: the domain is known, or one of the processes
with the fewest domains is given it. -/
theorem getMailProcIdx_ok (h : getMailProcIdx procNum domain procs = .ok (i, procs')) :
    i < procNum ∧ ((domain ∈ procs i ∧ procs' = procs) ∨
      ((∀ j < procNum, domain ∉ procs j) ∧ (∀ j < procNum, (procs i).length ≤ (procs j).length) ∧
        (procs i).length < maxProcDomains ∧
        procs' = Function.update procs i (procs i ++ [domain]))) := by
  unfold getMailProcIdx at h
  split at h
  next k hfind =>
    cases h
    exact ⟨List.mem_range.mp (List.mem_of_find?_eq_some hfind),
      .inl ⟨by simpa using List.find?_some hfind, rfl⟩⟩
  next hfind =>
    dsimp only at h
    split_ifs at h with hroom
    cases h
    have hnew : ∀ j < procNum, domain ∉ procs j := fun j hj => by
      simpa using List.find?_eq_none.mp hfind j (List.mem_range.mpr hj)
    exact ⟨hroom.1, .inr ⟨hnew, foldl_least_le (fun j => (procs j).length) procNum,
      hroom.2, rfl⟩⟩

/-! ### Calls one after another -/

def placeDomain (procNum : ℕ) (procs : ℕ → List CStr) (domain : CStr) :
    Except Halt (ℕ → List CStr) :=
  (getMailProcIdx procNum domain procs).map (·.2)

/-- The processes after the domains in `seen` were asked for. -/
structure Balanced (procNum : ℕ) (procs : ℕ → List CStr) (seen : List CStr) : Prop where
  spread : ∀ i < procNum, ∀ j < procNum, (procs i).length ≤ (procs j).length + 1
  members : ∀ domain, domain ∈ seen ↔ ∃ j < procNum, domain ∈ procs j
  total : ∑ j ∈ Finset.range procNum, (procs j).length = seen.toFinset.card
  capped : ∀ j < procNum, (procs j).length ≤ maxProcDomains

theorem balanced_nil (procNum : ℕ) : Balanced procNum (fun _ => []) [] where
  spread := by simp
  members := by simp
  total := by simp
  capped := by simp

theorem card_concat_of_notMem (h : domain ∉ seen) :
    (seen ++ [domain]).toFinset.card = seen.toFinset.card + 1 := by
  rw [List.toFinset_append, List.toFinset_cons, List.toFinset_nil, Finset.union_insert,
    Finset.union_empty, Finset.card_insert_of_notMem (by simpa using h)]

theorem Balanced.known (h : Balanced procNum procs seen) (hi : i < procNum)
    (hmem : domain ∈ procs i) : Balanced procNum procs (seen ++ [domain]) := by
  have hseen : domain ∈ seen := (h.members domain).mpr ⟨i, hi, hmem⟩
  refine ⟨h.spread, fun other => ?_, ?_, h.capped⟩
  · rw [← h.members other, List.mem_append, List.mem_singleton, or_iff_left_iff_imp]
    rintro rfl
    exact hseen
  · rw [h.total, List.toFinset_append, List.toFinset_cons, List.toFinset_nil,
      Finset.union_insert, Finset.union_empty,
      Finset.insert_eq_of_mem (List.mem_toFinset.mpr hseen)]

theorem length_update_concat (procs : ℕ → List CStr) (i : ℕ) (domain : CStr) (j : ℕ) :
    (Function.update procs i (procs i ++ [domain]) j).length =
      Function.update (fun j => (procs j).length) i ((procs i).length + 1) j := by
  by_cases hji : j = i
  · subst hji
    simp
  · simp [Function.update_of_ne hji]

theorem exists_mem_update_concat (hi : i < procNum) (other : CStr) :
    (∃ j < procNum, other ∈ Function.update procs i (procs i ++ [domain]) j) ↔
      (∃ j < procNum, other ∈ procs j) ∨ other = domain := by
  constructor
  · rintro ⟨j, hj, hmem⟩
    by_cases hji : j = i
    · subst hji
      rw [Function.update_self, List.mem_append, List.mem_singleton] at hmem
      exact hmem.imp_left fun hold => ⟨j, hj, hold⟩
    · rw [Function.update_of_ne hji] at hmem
      exact .inl ⟨j, hj, hmem⟩
  · rintro (⟨j, hj, hmem⟩ | rfl)
    · refine ⟨j, hj, ?_⟩
      by_cases hji : j = i
      · subst hji
        simp [hmem]
      · rwa [Function.update_of_ne hji]
    · exact ⟨i, hi, by simp⟩

/-- A new one goes where there are the fewest. -/
theorem Balanced.placed (h : Balanced procNum procs seen) (hi : i < procNum)
    (hnew : ∀ j < procNum, domain ∉ procs j)
    (hleast : ∀ j < procNum, (procs i).length ≤ (procs j).length)
    (hroom : (procs i).length < maxProcDomains) :
    Balanced procNum (Function.update procs i (procs i ++ [domain])) (seen ++ [domain]) := by
  have hseen : domain ∉ seen := fun hmem => by
    obtain ⟨j, hj, hmem⟩ := (h.members domain).mp hmem
    exact hnew j hj hmem
  refine ⟨fun a ha b hb => ?_, fun other => ?_, ?_, fun j hj => ?_⟩
  · -- the least is raised, so nothing is now more than one above another
    have hab := h.spread a ha b hb
    have hb' := hleast b hb
    rw [length_update_concat, length_update_concat]
    by_cases hai : a = i <;> by_cases hbi : b = i <;> simp [hai, hbi] at hab ⊢ <;> omega
  · rw [exists_mem_update_concat hi, List.mem_append, List.mem_singleton, h.members other]
  · rw [card_concat_of_notMem hseen, ← h.total,
      Finset.sum_congr rfl fun j _ => length_update_concat procs i domain j,
      Finset.sum_update_of_mem (Finset.mem_range.mpr hi),
      ← Finset.add_sum_erase _ _ (Finset.mem_range.mpr hi), Finset.sdiff_singleton_eq_erase]
    omega
  · rw [length_update_concat]
    by_cases hji : j = i
    · subst hji
      rw [Function.update_self]
      exact hroom
    · rw [Function.update_of_ne hji]
      exact h.capped j hj

theorem Balanced.place (h : Balanced procNum procs seen)
    (hplace : placeDomain procNum procs domain = .ok procs') :
    Balanced procNum procs' (seen ++ [domain]) := by
  unfold placeDomain at hplace
  cases hidx : getMailProcIdx procNum domain procs with
  | error e =>
      rw [hidx] at hplace
      cases hplace
  | ok answer =>
      rw [hidx] at hplace
      obtain rfl : answer.2 = procs' := Except.ok.inj hplace
      obtain ⟨hi, ⟨hmem, hkept⟩ | ⟨hnew, hleast, hroom, hgiven⟩⟩ := getMailProcIdx_ok hidx
      · rw [hkept]
        exact h.known hi hmem
      · rw [hgiven]
        exact h.placed hi hnew hleast hroom

theorem Balanced.run (h : Balanced procNum procs seen)
    (hrun : Lib.run (placeDomain procNum) procs names = .ok procs') :
    Balanced procNum procs' (seen ++ names) := by
  induction names generalizing procs seen with
  | nil =>
      cases hrun
      rwa [List.append_nil]
  | cons name names ih =>
      rw [run_cons] at hrun
      obtain ⟨procs₁, hplace, hrun⟩ := bind_eq_ok.mp hrun
      rw [List.append_cons]
      exact ih (h.place hplace) hrun

/-- After each call, whatever was asked for: the counts differ by one at most,
and their sum is the number of different domains. -/
theorem domainsCount_balanced
    (h : run (placeDomain procNum) (fun _ => []) names = .ok procs) :
    (∀ i < procNum, ∀ j < procNum, (procs i).length ≤ (procs j).length + 1) ∧
      ∑ j ∈ Finset.range procNum, (procs j).length = names.toFinset.card := by
  have hbalanced : Balanced procNum procs names := by
    simpa using (balanced_nil procNum).run h
  exact ⟨hbalanced.spread, hbalanced.total⟩

/-- Four domains over three processes, one of them asked for twice. -/
theorem four_domains_balanced : ∃ procs : ℕ → List CStr,
    run (placeDomain 3) (fun _ => [])
        ["a.b".toList, "c.d".toList, "a.b".toList, "e.f".toList, "g.h".toList] = .ok procs ∧
      (∀ i < 3, ∀ j < 3, (procs i).length ≤ (procs j).length + 1) ∧
      ∑ j ∈ Finset.range 3, (procs j).length = 4 := by
  obtain ⟨procs, h⟩ : ∃ procs : ℕ → List CStr, run (placeDomain 3) (fun _ => [])
      ["a.b".toList, "c.d".toList, "a.b".toList, "e.f".toList, "g.h".toList] = .ok procs :=
    ⟨_, rfl⟩
  obtain ⟨hspread, htotal⟩ := domainsCount_balanced h
  exact ⟨procs, h, hspread, htotal⟩

/-! ### The room in the tables -/

/-- Some process has room while there are fewer domains than places. -/
theorem Balanced.exists_room (h : Balanced procNum procs seen)
    (hroom : seen.toFinset.card < maxProcDomains * procNum) :
    ∃ j < procNum, (procs j).length < maxProcDomains := by
  by_contra hfull
  push Not at hfull
  have hle := Finset.card_nsmul_le_sum (Finset.range procNum) (fun j => (procs j).length)
    maxProcDomains fun j hj => hfull j (Finset.mem_range.mp hj)
  rw [h.total, Finset.card_range, Nat.nsmul_eq_mul, Nat.mul_comm] at hle
  omega

theorem Balanced.card_le (h : Balanced procNum procs seen) :
    seen.toFinset.card ≤ maxProcDomains * procNum := by
  have hle := Finset.sum_le_card_nsmul (Finset.range procNum) (fun j => (procs j).length)
    maxProcDomains fun j hj => h.capped j (Finset.mem_range.mp hj)
  rwa [h.total, Finset.card_range, Nat.nsmul_eq_mul, Nat.mul_comm] at hle

/-- A call completes if there are places for the domains asked for so far and
for this one. -/
theorem Balanced.place_ok (h : Balanced procNum procs seen)
    (hroom : (seen ++ [domain]).toFinset.card ≤ maxProcDomains * procNum) :
    ∃ procs', placeDomain procNum procs domain = .ok procs' := by
  unfold placeDomain getMailProcIdx
  cases hfind : (List.range procNum).find? fun j => domain ∈ procs j with
  | some j => exact ⟨procs, rfl⟩
  | none =>
      have hnew : domain ∉ seen := fun hmem => by
        obtain ⟨j, hj, hmem⟩ := (h.members domain).mp hmem
        exact absurd hmem (by simpa using List.find?_eq_none.mp hfind j (List.mem_range.mpr hj))
      rw [card_concat_of_notMem hnew] at hroom
      obtain ⟨j, hj, hlt⟩ := h.exists_room (by omega)
      have hleast := foldl_least_le (fun j => (procs j).length) procNum j hj
      have hidx := foldl_least_lt (fun j => (procs j).length) procNum (by omega)
      dsimp only at hleast ⊢
      rw [if_pos ⟨hidx, by omega⟩]
      exact ⟨_, rfl⟩

/-- All calls complete exactly if there are not more domains than places. -/
theorem placeDomain_ok_iff : (∃ procs, run (placeDomain procNum) (fun _ => []) names = .ok procs) ↔
    names.toFinset.card ≤ maxProcDomains * procNum := by
  constructor
  · rintro ⟨procs, h⟩
    have hbalanced : Balanced procNum procs names := by
      simpa using (balanced_nil procNum).run h
    exact hbalanced.card_le
  · intro hcard
    induction names using List.reverseRecOn with
    | nil => exact ⟨_, rfl⟩
    | append_singleton names name ih =>
        have hsub : names.toFinset ⊆ (names ++ [name]).toFinset := by
          rw [List.toFinset_append]
          exact Finset.subset_union_left
        obtain ⟨procs, hrun⟩ := ih ((Finset.card_le_card hsub).trans hcard)
        have hbalanced : Balanced procNum procs names := by
          simpa using (balanced_nil procNum).run hrun
        obtain ⟨procs', hplace⟩ := hbalanced.place_ok hcard
        refine ⟨procs', ?_⟩
        rw [run_append_ok hrun, run_cons_ok hplace]
        rfl

end SmtpProj.Client
