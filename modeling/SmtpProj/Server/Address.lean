import SmtpProj.Server.Recipient

/-!
Where an address is split.

Both halves of the address pattern are lazy and may hold an `@` themselves, so a
text with several of them can be split in several ways. Of these the matcher
takes the one whose first half is shortest: shorter halves are tried before
longer ones, and what was tried before led nowhere. The second half reaches to
the end in any case. So the directory of a recipient is a function of the text,
and the `@` that counts is the first behind the first character.
-/

namespace SmtpProj.Server

open Lib Lib.Regex

structure Splits (s username domain : CStr) : Prop where
  joined : username ++ '@' :: domain = s
  username_ne : username ≠ []
  domain_ne : domain ≠ []

/-- The way with the shortest first half. -/
structure SplitsFirst (s username domain : CStr) : Prop extends Splits s username domain where
  shortest : ∀ username' domain', Splits s username' domain' →
    username.length ≤ username'.length

variable {s username domain username' domain' : CStr}

/-! ### Splits -/

theorem Splits.unique (h : Splits s username domain) (h' : Splits s username' domain')
    (hlen : username.length = username'.length) : username = username' ∧ domain = domain' := by
  obtain ⟨rfl, htail⟩ := List.append_inj (h.joined.trans h'.joined.symm) hlen
  exact ⟨rfl, (List.cons.inj htail).2⟩

theorem SplitsFirst.unique (h : SplitsFirst s username domain)
    (h' : SplitsFirst s username' domain') : username = username' ∧ domain = domain' :=
  h.toSplits.unique h'.toSplits
    (Nat.le_antisymm (h.shortest _ _ h'.toSplits) (h'.shortest _ _ h.toSplits))

theorem Splits.exists_first (h : Splits s username domain) :
    ∃ username domain, SplitsFirst s username domain := by
  induction hn : username.length using Nat.strong_induction_on generalizing username domain with
  | _ n ih =>
      by_cases hfirst : ∀ username' domain', Splits s username' domain' →
          username.length ≤ username'.length
      · exact ⟨username, domain, h, hfirst⟩
      · push Not at hfirst
        obtain ⟨username', domain', h', hlt⟩ := hfirst
        exact ih _ (hn ▸ hlt) h' rfl

/-- A way to split is an `@` with a character on both sides. -/
theorem exists_splits_iff : (∃ username domain, Splits s username domain) ↔
    ∃ i, 1 ≤ i ∧ i + 2 ≤ s.length ∧ s[i]? = some '@' := by
  constructor
  · rintro ⟨username, domain, rfl, huser, hdom⟩
    have hu := List.length_pos_iff.mpr huser
    have hd := List.length_pos_iff.mpr hdom
    refine ⟨username.length, hu, ?_, by simp⟩
    rw [List.length_append, List.length_cons]
    omega
  · rintro ⟨i, hfront, hbehind, hat⟩
    obtain ⟨hi, hget⟩ := List.getElem?_eq_some_iff.mp hat
    refine ⟨s.take i, s.drop (i + 1), ?_, ?_, ?_⟩
    · rw [← hget, ← List.drop_eq_getElem_cons hi, List.take_append_drop]
    · intro hnil
      have hlen := congrArg List.length hnil
      rw [List.length_take, List.length_nil] at hlen
      omega
    · intro hnil
      have hlen := congrArg List.length hnil
      rw [List.length_drop, List.length_nil] at hlen
      omega

/-! ### The match -/

theorem results_shorter_eq_nil {a b rest : CStr} {i : ℕ} {caps : List (ℕ × CStr)}
    (ha : a ≠ []) (hb : b ≠ []) (h : SplitsFirst s (a ++ b) domain) (hs : a ++ rest = s) :
    (seqs [cls "@", argument 2, eol '\n']).results ⟨i, rest, caps⟩ = [] := by
  by_contra hmatch
  obtain ⟨c, cs, rfl, hc, hcs⟩ := results_seqs_one_ne_nil.mp hmatch
  obtain ⟨arg, tail, rfl, harg, -, -⟩ := results_seqs_argument_ne_nil.mp hcs
  obtain rfl : c = '@' := by simpa using hc
  have hle := h.shortest a (arg ++ tail) ⟨hs, ha, by simp [harg]⟩
  have hpos := List.length_pos_iff.mpr hb
  rw [List.length_append] at hle
  omega

/-- The first way is the one that is preferred. -/
theorem patternEmail_of_splitsFirst (hline : '\n' ∉ s) (h : SplitsFirst s username domain) :
    patternEmail s = some (username, domain) := by
  have huser : '\n' ∉ username := fun hmem => hline (h.joined ▸ List.mem_append_left _ hmem)
  have hdom : '\n' ∉ domain := fun hmem =>
    hline (h.joined ▸ List.mem_append_right _ (List.mem_cons_of_mem _ hmem))
  have hdomain : ∀ (i : ℕ) (caps : List (ℕ × CStr)),
      ((seqs [argument 2, eol '\n']).results ⟨i, domain ++ [], caps⟩).head? =
        some ⟨i + domain.length, [], (2, domain) :: caps⟩ := fun i caps => by
    refine head_results_seqs_argument h.domain_ne (forall_dot_iff.mpr hdom) ?_ ?_
    · intro a b hab _ hb
      have hend : b ≠ ['\n'] := by
        rintro rfl
        exact hdom (by simp [hab])
      simp [eol, hb, hend]
    · simp [eol]
  have hmatch : ((seqs [argument 1, cls "@", argument 2, eol '\n']).results
      ⟨0, username ++ '@' :: domain, []⟩).head? =
        some ⟨0 + username.length + 1 + domain.length, [], [(2, domain), (1, username)]⟩ := by
    refine head_results_seqs_argument h.username_ne (forall_dot_iff.mpr huser) ?_ ?_
    · rintro a b rfl ha hb
      exact results_shorter_eq_nil ha hb h (by rw [← h.joined, List.append_assoc])
    · rw [cls, results_seqs_one_pos (by decide)]
      simpa using hdomain (0 + username.length + 1) [(1, username)]
  rw [← h.joined]
  simp only [patternEmail, patternInit, Option.bind_some, exec_bol, hmatch]
  simp [Cursor.capture]

/-- The address pattern splits a text at the first `@` that it can be split at,
and a text without one not at all. -/
theorem patternEmail_splits (hline : '\n' ∉ s) :
    (patternEmail s = none ↔ ∀ i, 1 ≤ i → i + 2 ≤ s.length → s[i]? ≠ some '@') ∧
      ∀ username domain, patternEmail s = some (username, domain) ↔
        SplitsFirst s username domain := by
  have hsome : ∀ username domain, patternEmail s = some (username, domain) ↔
      SplitsFirst s username domain := by
    refine fun username domain => ⟨fun h => ?_, patternEmail_of_splitsFirst hline⟩
    obtain ⟨hjoined, huser, hdom⟩ := patternEmail_eq_some hline h
    obtain ⟨username', domain', hfirst⟩ :=
      Splits.exists_first ⟨hjoined.symm, huser, hdom⟩
    have hemail := patternEmail_of_splitsFirst hline hfirst
    rw [h] at hemail
    cases hemail
    exact hfirst
  refine ⟨?_, hsome⟩
  constructor
  · intro hnone i hfront hbehind hat
    obtain ⟨username, domain, hsplits⟩ := exists_splits_iff.mpr ⟨i, hfront, hbehind, hat⟩
    obtain ⟨username', domain', hfirst⟩ := hsplits.exists_first
    rw [patternEmail_of_splitsFirst hline hfirst] at hnone
    cases hnone
  · intro hat
    cases hemail : patternEmail s with
    | none => rfl
    | some halves =>
        obtain ⟨username, domain⟩ := halves
        obtain ⟨i, hfront, hbehind, hi⟩ :=
          exists_splits_iff.mp ⟨username, domain, ((hsome username domain).mp hemail).toSplits⟩
        exact absurd hi (hat i hfront hbehind)

/-- A doubled `@`: the first cannot be split at, as nothing stands in front. -/
theorem doubled_at_splits : SplitsFirst "@@b@c".toList "@".toList "b@c".toList ∧
    patternEmail "@b".toList = none := by
  have hline : '\n' ∉ "@@b@c".toList := by decide
  have hline' : '\n' ∉ "@b".toList := by decide
  refine ⟨((patternEmail_splits hline).2 _ _).mp (by decide),
    (patternEmail_splits hline').1.mpr fun i hfront hbehind => ?_⟩
  have hlen : "@b".toList.length = 2 := rfl
  omega

end SmtpProj.Server
