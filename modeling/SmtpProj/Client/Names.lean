import SmtpProj.Lib.Run
import SmtpProj.Client.Strings

/-!
What the names of letters are taken for.

`str_split` counts the delimiters and then has `strtok` skip them, so it accepts
a text in which every delimiter ends a piece that is not empty. The domain of a
letter is found by its place among the pieces, and the master looks at the name
of the file where the child looks at the whole path: what is in front of the
name must not bring a dot.
-/

namespace SmtpProj.Client

open Lib

variable {delim : Char} {mailDir user path name domain : CStr} {ts : List CStr}

/-! ### `str_split` -/

theorem strSplit_eq {str stem : CStr} (htokens : tokens delim str = tokens delim stem)
    (hcount : str.count delim + (if str.getLast? = some delim then 0 else 1) =
      (stem.splitOn delim).length) :
    strSplit delim str =
      if [] ∈ stem.splitOn delim then .error .assertFailed else .ok (stem.splitOn delim) := by
  unfold strSplit
  dsimp only
  rw [hcount, htokens]
  split_ifs with hlen hnil hnil
  · exact absurd hnil (length_tokens_iff.mp hlen)
  · rw [tokens_eq_splitOn hnil]
  · rfl
  · exact absurd (length_tokens_iff.mpr hnil) hlen

theorem strSplit_of_not_delim {str : CStr} (h : str.getLast? ≠ some delim) :
    strSplit delim str =
      if [] ∈ str.splitOn delim then .error .assertFailed else .ok (str.splitOn delim) :=
  strSplit_eq rfl (by rw [if_neg h, length_splitOn])

theorem strSplit_concat_delim (delim : Char) (str : CStr) :
    strSplit delim (str ++ [delim]) =
      if [] ∈ str.splitOn delim then .error .assertFailed else .ok (str.splitOn delim) :=
  strSplit_eq (tokens_concat_delim delim str) (by simp [length_splitOn])

/-- What `str_split` accepts: pieces that are not empty, with at most one
delimiter behind the last. -/
theorem strSplit_ok_iff {str : CStr} :
    strSplit delim str = .ok ts ↔ ts ≠ [] ∧ [] ∉ ts ∧
      (str.splitOn delim = ts ∨ str.splitOn delim = ts ++ [[]]) := by
  constructor
  · intro h
    by_cases hlast : str.getLast? = some delim
    · obtain ⟨stem, rfl⟩ := List.getLast?_eq_some_iff.mp hlast
      rw [strSplit_concat_delim] at h
      split_ifs at h with hnil
      cases h
      exact ⟨List.splitOn_ne_nil _ _, hnil, .inr (splitOn_concat_delim _ _)⟩
    · rw [strSplit_of_not_delim hlast] at h
      split_ifs at h with hnil
      cases h
      exact ⟨List.splitOn_ne_nil _ _, hnil, .inl rfl⟩
  · rintro ⟨hne, hnil, rfl | hsplit⟩
    · have hlast : str.getLast? ≠ some delim := by
        intro hlast
        obtain ⟨stem, rfl⟩ := List.getLast?_eq_some_iff.mp hlast
        exact hnil (by simp [splitOn_concat_delim])
      rw [strSplit_of_not_delim hlast, if_neg hnil]
    · obtain ⟨stem, rfl⟩ := eq_concat_delim hne hsplit
      obtain rfl : stem.splitOn delim = ts := by
        rw [splitOn_concat_delim] at hsplit
        exact List.append_cancel_right hsplit
      rw [strSplit_concat_delim, if_neg hnil]

theorem strSplit_append {front piece : CStr} (hfront : delim ∉ front)
    (h : strSplit delim path = .ok (piece :: ts)) :
    strSplit delim (front ++ path) = .ok ((front ++ piece) :: ts) := by
  obtain ⟨-, hnil, hsplit⟩ := strSplit_ok_iff.mp h
  obtain ⟨hpiece, hts⟩ := List.ne_and_not_mem_of_not_mem_cons hnil
  refine strSplit_ok_iff.mpr ⟨by simp, by simp [hpiece.symm, hts], ?_⟩
  rcases hsplit with hsplit | hsplit
  · exact .inl (splitOn_append_of_notMem hfront hsplit)
  · exact .inr (splitOn_append_of_notMem hfront hsplit)

theorem strSplit_whole {str : CStr} (hne : str ≠ []) (hstr : delim ∉ str) :
    strSplit delim str = .ok [str] :=
  strSplit_ok_iff.mpr ⟨by simp, by simpa using hne.symm, .inl (List.splitOn_eq_singleton hstr)⟩

theorem strSplit_head {piece : CStr} (h : strSplit delim path = .ok (piece :: ts)) :
    piece = path.takeWhile (· != delim) := by
  obtain ⟨-, -, hsplit⟩ := strSplit_ok_iff.mp h
  have hhead : (path.splitOn delim).head? = some piece := by
    rcases hsplit with hsplit | hsplit <;> simp [hsplit]
  by_cases hmem : delim ∈ path
  · rw [splitOn_eq_takeWhile delim path hmem] at hhead
    simpa using hhead.symm
  · rw [List.splitOn_eq_singleton hmem] at hhead
    obtain rfl : path = piece := by simpa using hhead
    refine (List.takeWhile_eq_self_iff.mpr fun c hc => ?_).symm
    simpa using fun heq : c = delim => hmem (heq ▸ hc)

/-! ### The domain of a letter -/

/-- The domain is cut out of the third and the fourth piece. -/
theorem emailDomain_ok_iff : emailDomain path = .ok domain ↔ ∃ t₀ t₁ t₂ t₃ rest rest',
    strSplit '.' path = .ok (t₀ :: t₁ :: t₂ :: t₃ :: rest) ∧
      strSplit ',' (t₂ ++ '.' :: t₃) = .ok (domain :: rest') := by
  constructor
  · intro h
    obtain ⟨text, htext, h⟩ := bind_eq_ok.mp h
    obtain ⟨ts, hts, htext⟩ := bind_eq_ok.mp htext
    obtain ⟨ts', hts', hhead⟩ := bind_eq_ok.mp h
    split at htext
    next t₀ t₁ t₂ t₃ rest =>
      cases htext
      split at hhead
      next d rest' =>
        cases hhead
        exact ⟨t₀, t₁, t₂, t₃, rest, rest', hts, by simpa using hts'⟩
      next => cases hhead
    next => cases htext
    next => cases htext
  · rintro ⟨t₀, t₁, t₂, t₃, rest, rest', hts, hts'⟩
    have hname : getDomainNameFromEmailFullPath path = .ok (t₂ ++ '.' :: t₃) := by
      simp [getDomainNameFromEmailFullPath, hts, bind, Except.bind]
    simp [emailDomain, hname, hts', bind, Except.bind]

theorem emailDomain_eq {p₀ p₁ p₂ p₃ : CStr} {more : List CStr}
    (hpieces : path.splitOn '.' = p₀ :: p₁ :: p₂ :: p₃ :: more)
    (h : emailDomain path = .ok domain) :
    domain = (p₂ ++ '.' :: p₃).takeWhile (· != ',') := by
  obtain ⟨t₀, t₁, t₂, t₃, rest, rest', hsplit, hdomain⟩ := emailDomain_ok_iff.mp h
  obtain ⟨-, -, hts⟩ := strSplit_ok_iff.mp hsplit
  obtain ⟨rfl, rfl⟩ : t₂ = p₂ ∧ t₃ = p₃ := by
    rcases hts with hts | hts <;> rw [hpieces] at hts <;> simp at hts <;> simp [hts]
  exact strSplit_head hdomain

/-- A directory without a dot only changes the first piece. -/
theorem emailDomain_append (hdir : '.' ∉ mailDir ++ user) (h : emailDomain name = .ok domain) :
    emailDomain (getUserNewDirFullPath mailDir user ++ name) = .ok domain := by
  obtain ⟨t₀, t₁, t₂, t₃, rest, rest', hsplit, hdomain⟩ := emailDomain_ok_iff.mp h
  refine emailDomain_ok_iff.mpr ⟨_, t₁, t₂, t₃, rest, rest', strSplit_append ?_ hsplit, hdomain⟩
  simpa [getUserNewDirFullPath] using hdir

theorem exists_four_of_length {l : List CStr} (h : 4 ≤ l.length) :
    ∃ p₀ p₁ p₂ p₃ more, l = p₀ :: p₁ :: p₂ :: p₃ :: more := by
  obtain ⟨p₀, l, rfl⟩ := List.exists_cons_of_length_pos (show 0 < l.length by omega)
  obtain ⟨p₁, l, rfl⟩ := List.exists_cons_of_length_pos (show 0 < l.length by simp at h; omega)
  obtain ⟨p₂, l, rfl⟩ := List.exists_cons_of_length_pos (show 0 < l.length by simp at h; omega)
  obtain ⟨p₃, l, rfl⟩ := List.exists_cons_of_length_pos (show 0 < l.length by simp at h; omega)
  exact ⟨p₀, p₁, p₂, p₃, l, rfl⟩

/-- What stands behind the fourth dot does not matter. -/
theorem emailDomain_tail {front tail tail' domain' : CStr} (hfront : 3 ≤ front.count '.')
    (h : emailDomain (front ++ '.' :: tail) = .ok domain)
    (h' : emailDomain (front ++ '.' :: tail') = .ok domain') : domain = domain' := by
  obtain ⟨p₀, p₁, p₂, p₃, more, hpieces⟩ := exists_four_of_length
    (show 4 ≤ (front.splitOn '.').length by rw [length_splitOn]; omega)
  have hsplit : ∀ t : CStr, (front ++ '.' :: t).splitOn '.' =
      p₀ :: p₁ :: p₂ :: p₃ :: (more ++ t.splitOn '.') := fun t => by
    rw [List.splitOn_append_cons_self, hpieces]
    rfl
  rw [emailDomain_eq (hsplit tail) h, emailDomain_eq (hsplit tail') h']

/-- The master and the child file every letter of a user under the same domain
exactly if there is no dot in the directories. -/
theorem same_domain_iff (mailDir user : CStr) :
    (∀ name domain, emailDomain name = .ok domain →
      emailDomain (getUserNewDirFullPath mailDir user ++ name) = .ok domain) ↔
        '.' ∉ mailDir ++ user := by
  refine ⟨fun h hdot => ?_, fun hdir name domain => emailDomain_append hdir⟩
  have hfront : 3 ≤ (getUserNewDirFullPath mailDir user ++ "1.2.x".toList).count '.' := by
    have hpos : 0 < (mailDir ++ user).count '.' := List.count_pos_iff.mpr hdot
    have hname : ("1.2.x".toList).count '.' = 2 := by decide
    simp only [getUserNewDirFullPath, List.count_append] at hpos ⊢
    omega
  have hb : emailDomain (getUserNewDirFullPath mailDir user ++ "1.2.x".toList ++ ".b".toList) =
      .ok "x.b".toList := by
    rw [List.append_assoc]
    exact h "1.2.x.b".toList "x.b".toList (by decide)
  have hc : emailDomain (getUserNewDirFullPath mailDir user ++ "1.2.x".toList ++ ".c".toList) =
      .ok "x.c".toList := by
    rw [List.append_assoc]
    exact h "1.2.x.c".toList "x.c".toList (by decide)
  exact absurd (emailDomain_tail hfront hb hc) (by decide)

/-- The letters of a user with a dotted name: the master takes the domain from
the name of the file, and the child from behind the user's dot. -/
theorem dotted_user_misfiled :
    emailDomain "7.1.example.com.mbox".toList = .ok "example.com".toList ∧
      emailDomain (getUserNewDirFullPath "/tmp/mail/local/".toList "john.doe".toList ++
        "7.1.example.com.mbox".toList) = .ok "1.example".toList := by
  decide

end SmtpProj.Client
