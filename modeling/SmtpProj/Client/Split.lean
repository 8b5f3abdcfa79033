import SmtpProj.Client.Names

/-!
What `str_split` accepts.

The function goes over the string twice: it counts the delimiters, corrected by
whether the last of them is the last character, and then it has `strtok` cut the
string up. The two need not agree, as `strtok` passes over an empty piece, and
the assertions compare them. The names of letters are split by `strSplit`, which
compares the two counts and no more; here is the array that is allocated and
filled, and that it comes to the same.
-/

namespace SmtpProj.Client

open Lib

/-! ### The two passes -/

/-- The loop that counts: the number of delimiters, and where the last one is,
null before the first; `i` is the place of `tmp`. -/
def countDelims (delim : Char) : ℕ → CStr → ℕ × Option ℕ → ℕ × Option ℕ
  | _, [], found => found
  | i, c :: cs, found =>
      countDelims delim (i + 1) cs (if delim = c then (found.1 + 1, some i) else found)

/-- `last_comma < a_str + strlen(a_str) - 1`, where null is below every pointer
into the string, and below the one in front of it. -/
def beforeLast (lastComma : Option ℕ) (len : ℕ) : Bool :=
  match lastComma with
  | none => true
  | some i => (i : ℤ) < (len : ℤ) - 1

def splitCount (delim : Char) (str : CStr) : ℕ :=
  let found := countDelims delim 0 str (0, none)
  found.1 + (if beforeLast found.2 str.length then 1 else 0) + 1

/-- The loop that fills the array, with what `strtok` returned last and the
entries that are written; `left` is `count - idx`. A null entry is `none`. -/
def fillTokens (delim : Char) :
    ℕ → Option (CStr × CStr) → List (Option CStr) → Except Halt (List (Option CStr))
  -- assert(idx == count - 1)
  | left, none, entries => if left = 1 then .ok (entries ++ [none]) else .error .assertFailed
  -- assert(idx < count)
  | 0, some _, _ => .error .assertFailed
  | left + 1, some (token, place), entries =>
      fillTokens delim left (nextToken delim place) (entries ++ [some token])

def strSplitArray (delim : Char) (str : CStr) : Except Halt (List (Option CStr)) :=
  fillTokens delim (splitCount delim str) (nextToken delim str) []

variable {delim : Char} {str stem : CStr} {entries : List (Option CStr)} {c : Char}

/-! ### Counting -/

theorem countDelims_append (delim : Char) (a b : CStr) (i : ℕ) (found : ℕ × Option ℕ) :
    countDelims delim i (a ++ b) found =
      countDelims delim (i + a.length) b (countDelims delim i a found) := by
  induction a generalizing i found with
  | nil => rfl
  | cons c cs ih =>
      rw [List.cons_append, countDelims, ih, List.length_cons, Nat.add_right_comm, Nat.add_assoc]
      rfl

theorem countDelims_fst (delim : Char) (a : CStr) (i : ℕ) (found : ℕ × Option ℕ) :
    (countDelims delim i a found).1 = found.1 + a.count delim := by
  induction a generalizing i found with
  | nil => rfl
  | cons c cs ih =>
      rw [countDelims, ih, List.count_cons]
      by_cases hc : delim = c
      · simp only [hc, if_true, beq_self_eq_true]
        omega
      · simp [hc, Ne.symm hc]

theorem countDelims_snd_lt {a : CStr} {i k : ℕ} {found : ℕ × Option ℕ}
    (hfound : ∀ k ∈ found.2, k < i) (h : (countDelims delim i a found).2 = some k) :
    k < i + a.length := by
  induction a generalizing i found with
  | nil => exact hfound k h
  | cons c cs ih =>
      rw [countDelims] at h
      rw [List.length_cons, ← Nat.add_assoc, Nat.add_right_comm]
      refine ih ?_ h
      split_ifs with hc
      · rintro k ⟨⟩
        exact Nat.lt_succ_self i
      · exact fun k hk => Nat.lt_succ_of_lt (hfound k hk)

theorem beforeLast_iff : beforeLast (countDelims delim 0 str (0, none)).2 str.length = true ↔
    str.getLast? ≠ some delim := by
  cases str using List.reverseRecOn with
  | nil => simp [countDelims, beforeLast]
  | append_singleton stem c =>
      rw [countDelims_append, countDelims, countDelims, List.getLast?_concat, List.length_append]
      by_cases hc : delim = c
      · simp [hc, beforeLast]
      · rw [if_neg hc]
        cases hlast : (countDelims delim 0 stem (0, none)).2 with
        | none => simp [beforeLast, Ne.symm hc]
        | some k =>
            have hk := countDelims_snd_lt (by simp) hlast
            simp [beforeLast, Ne.symm hc]
            omega

/-- There is an entry for each piece, and one for the null. -/
theorem splitCount_eq (delim : Char) (str : CStr) : splitCount delim str =
    str.count delim + (if str.getLast? = some delim then 0 else 1) + 1 := by
  simp only [splitCount, countDelims_fst, beforeLast_iff, Nat.zero_add]
  split_ifs <;> simp_all

/-! ### Filling -/

theorem tokens_of_nextToken_none {text : CStr} (h : nextToken delim text = none) :
    tokens delim text = [] := by
  cases htokens : tokens delim text with
  | nil => rfl
  | cons token rest =>
      obtain ⟨place, hnext, -⟩ := nextToken_of_tokens htokens
      rw [h] at hnext
      cases hnext

/-- The array is filled exactly if there is one entry more than tokens. -/
theorem fillTokens_eq (delim : Char) (left : ℕ) (text : CStr) (entries : List (Option CStr)) :
    fillTokens delim left (nextToken delim text) entries =
      if (tokens delim text).length + 1 = left then
        .ok (entries ++ (tokens delim text).map some ++ [none])
      else .error .assertFailed := by
  induction left generalizing text entries with
  | zero =>
      rw [if_neg (Nat.succ_ne_zero _)]
      cases hnext : nextToken delim text with
      | none => rfl
      | some found => rfl
  | succ left ih =>
      cases hnext : nextToken delim text with
      | none =>
          simp only [fillTokens, tokens_of_nextToken_none hnext, List.map_nil, List.append_nil,
            List.length_nil]
          exact if_congr eq_comm rfl rfl
      | some found =>
          obtain ⟨token, place⟩ := found
          rw [fillTokens, ih, tokens_of_nextToken hnext, List.length_cons]
          simp only [Nat.add_right_cancel_iff, List.map_cons, List.append_assoc, List.cons_append,
            List.nil_append]

/-- The array holds what `strSplit` yields. -/
theorem strSplitArray_eq (delim : Char) (str : CStr) :
    strSplitArray delim str = (strSplit delim str).map fun ts => ts.map some ++ [none] := by
  rw [strSplitArray, fillTokens_eq, splitCount_eq]
  unfold strSplit
  simp only [Nat.add_right_cancel_iff, List.nil_append]
  split_ifs <;> rfl

/-! ### The grammar -/

theorem first_piece_eq_nil_iff {cs first : CStr} {rest : List CStr}
    (hsplit : (c :: cs).splitOn delim = first :: rest) : first = [] ↔ c = delim := by
  rw [List.splitOn_cons_eq_if_modifyHead] at hsplit
  split_ifs at hsplit with hc
  · obtain ⟨rfl, -⟩ := List.cons.inj hsplit
    simpa using hc
  · obtain ⟨piece, pieces, hpieces⟩ :=
      List.exists_cons_of_ne_nil (List.splitOn_ne_nil delim cs)
    rw [hpieces, List.modifyHead_cons] at hsplit
    obtain ⟨rfl, -⟩ := List.cons.inj hsplit
    simpa using hc

/-- There is no empty piece behind the first exactly if no delimiter follows
another, or is the last character. -/
theorem nil_notMem_tail_splitOn (delim : Char) (str : CStr) :
    [] ∉ (str.splitOn delim).tail ↔
      str.getLast? ≠ some delim ∧ ¬ [delim, delim] <:+: str := by
  induction str with
  | nil => simp
  | cons c cs ih =>
      have htail : c ≠ delim → ((c :: cs).splitOn delim).tail = (cs.splitOn delim).tail := by
        intro hc
        obtain ⟨piece, pieces, hpieces⟩ :=
          List.exists_cons_of_ne_nil (List.splitOn_ne_nil delim cs)
        rw [List.splitOn_cons_eq_if_modifyHead, if_neg (by simpa using hc), hpieces]
        rfl
      cases cs with
      | nil =>
          by_cases hc : c = delim
          · simp [hc, List.splitOn_cons_eq_if_modifyHead]
          · rw [htail hc]
            simp [hc, List.infix_cons_iff]
      | cons c' cs =>
          have hlast : (c :: c' :: cs).getLast? = (c' :: cs).getLast? := List.getLast?_cons_cons
          rw [hlast, List.infix_cons_iff, List.cons_prefix_cons]
          by_cases hc : c = delim
          · -- the piece between two delimiters is the one that may be empty
            obtain ⟨first, rest, hsplit⟩ :=
              List.exists_cons_of_ne_nil (List.splitOn_ne_nil delim (c' :: cs))
            have hfirst := first_piece_eq_nil_iff hsplit
            rw [hsplit, List.tail_cons] at ih
            rw [List.splitOn_cons_eq_if_modifyHead, if_pos (by simpa using hc), List.tail_cons,
              hsplit, List.mem_cons, not_or, ih, eq_comm, hfirst]
            simp [hc, eq_comm]
            tauto
          · rw [htail hc, ih]
            simp [Ne.symm hc]

theorem nil_notMem_splitOn (delim : Char) (str : CStr) :
    [] ∉ str.splitOn delim ↔ str ≠ [] ∧ str.head? ≠ some delim ∧
      str.getLast? ≠ some delim ∧ ¬ [delim, delim] <:+: str := by
  cases str with
  | nil => simp
  | cons c cs =>
      obtain ⟨first, rest, hsplit⟩ :=
        List.exists_cons_of_ne_nil (List.splitOn_ne_nil delim (c :: cs))
      have hfirst := first_piece_eq_nil_iff hsplit
      rw [← nil_notMem_tail_splitOn, hsplit, List.mem_cons, not_or, eq_comm, hfirst]
      simp

/-- What passes the assertions: a text that does not begin with a delimiter, nor
has two of them side by side. One at the end is allowed for. -/
theorem strSplit_accepts_iff : (∃ ts, strSplit delim str = .ok ts) ↔
    str ≠ [] ∧ str.head? ≠ some delim ∧ ¬ [delim, delim] <:+: str := by
  by_cases hlast : str.getLast? = some delim
  · obtain ⟨stem, rfl⟩ := List.getLast?_eq_some_iff.mp hlast
    have hok : (∃ ts, strSplit delim (stem ++ [delim]) = .ok ts) ↔ [] ∉ stem.splitOn delim := by
      rw [strSplit_concat_delim]
      split_ifs with hnil <;> simp [hnil]
    have hend : [delim, delim] <:+ stem ++ [delim] ↔ stem.getLast? = some delim := by
      rw [List.getLast?_eq_some_iff]
      constructor
      · rintro ⟨front, hfront⟩
        exact ⟨front, List.append_cancel_right
          (hfront.symm.trans (List.append_assoc front [delim] [delim]).symm)⟩
      · rintro ⟨front, rfl⟩
        exact ⟨front, (List.append_assoc front [delim] [delim]).symm⟩
    rw [hok, nil_notMem_splitOn, List.infix_concat_iff, hend]
    cases stem with
    | nil => simp
    | cons c cs =>
        simp only [List.cons_append, List.head?_cons]
        tauto
  · have hok : (∃ ts, strSplit delim str = .ok ts) ↔ [] ∉ str.splitOn delim := by
      rw [strSplit_of_not_delim hlast]
      split_ifs with hnil <;> simp [hnil]
    rw [hok, nil_notMem_splitOn]
    tauto

theorem strSplit_ok_tokens {ts : List CStr} (h : strSplit delim str = .ok ts) :
    tokens delim str = ts ∧
      ts.length = str.count delim + if str.getLast? = some delim then 0 else 1 := by
  rcases ite_eq_iff.mp h with ⟨hcount, hts⟩ | ⟨-, hts⟩
  · cases hts
    exact ⟨rfl, hcount⟩
  · cases hts

/-- Joining the pieces gives the text, without a delimiter at its end. -/
theorem intercalate_strSplit {ts : List CStr} (h : strSplit delim str = .ok ts) :
    [delim].intercalate ts = if str.getLast? = some delim then str.dropLast else str := by
  split_ifs with hlast
  · obtain ⟨stem, rfl⟩ := List.getLast?_eq_some_iff.mp hlast
    rw [strSplit_concat_delim] at h
    split_ifs at h
    cases h
    rw [List.dropLast_concat]
    exact List.intercalate_splitOn delim
  · rw [strSplit_of_not_delim hlast] at h
    split_ifs at h
    cases h
    exact List.intercalate_splitOn delim

/-- `str_split` passes its assertions exactly on such texts, and then returns
their pieces, each without a delimiter, with a null behind them at the end of
the array. -/
theorem strSplitArray_grammar (delim : Char) (str : CStr) :
    ((∃ entries, strSplitArray delim str = .ok entries) ↔
        str ≠ [] ∧ str.head? ≠ some delim ∧ ¬ [delim, delim] <:+: str) ∧
      ∀ entries, strSplitArray delim str = .ok entries →
        entries.length = splitCount delim str ∧
          ∃ pieces : List CStr, entries = pieces.map some ++ [none] ∧
            (∀ piece ∈ pieces, piece ≠ [] ∧ delim ∉ piece) ∧
            [delim].intercalate pieces =
              if str.getLast? = some delim then str.dropLast else str := by
  rw [← strSplit_accepts_iff, strSplitArray_eq]
  constructor
  · cases strSplit delim str <;> simp [Except.map]
  · intro entries hentries
    cases hsplit : strSplit delim str with
    | error e =>
        rw [hsplit] at hentries
        cases hentries
    | ok pieces =>
        rw [hsplit] at hentries
        obtain rfl : pieces.map some ++ [none] = entries := Except.ok.inj hentries
        obtain ⟨rfl, hcount⟩ := strSplit_ok_tokens hsplit
        refine ⟨?_, _, rfl, fun piece => of_mem_tokens, intercalate_strSplit hsplit⟩
        rw [List.length_append, List.length_map, splitCount_eq, hcount]
        rfl

/-- The name of a letter that ends in a dot. -/
theorem split_trailing_dot : ∃ pieces : List CStr,
    [some "7".toList, some "a".toList, some "b".toList, none] = pieces.map some ++ [none] ∧
      ['.'].intercalate pieces = "7.a.b".toList := by
  obtain ⟨-, pieces, hpieces, -, hjoin⟩ :=
    (strSplitArray_grammar '.' "7.a.b.".toList).2
      [some "7".toList, some "a".toList, some "b".toList, none] (by decide)
  exact ⟨pieces, hpieces, hjoin⟩

end SmtpProj.Client
