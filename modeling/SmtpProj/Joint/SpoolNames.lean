import SmtpProj.Client.Names
import SmtpProj.Server.Maildir

/-!
The name of a letter, as the server makes it and as the client reads it.

The server puts the domain behind two numbers, with dots between them, and the
client counts the pieces between dots. It takes two of them for the domain, so
the domain comes back if it has two labels, and only then.
-/

namespace SmtpProj.Joint

open Lib

variable {e : Server.Env} {domain : CStr}

/-- The pieces of a name: the process, the time, the labels of the domain, and
the extension. -/
theorem letterName_pieces (e : Server.Env) (domain : CStr) :
    (Server.letterName e domain).splitOn '.' =
      decimal e.pid :: decimal e.timestamp :: (domain.splitOn '.' ++ ["mbox".toList]) := by
  have hname : Server.letterName e domain =
      decimal e.pid ++ '.' :: (decimal e.timestamp ++ '.' :: (domain ++ '.' :: "mbox".toList)) := by
    simp [Server.letterName]
  have hext : "mbox".toList.splitOn '.' = ["mbox".toList] := by decide
  have hnumber : ∀ n : ℤ, '.' ∉ decimal n := notMem_decimal (by decide) (by decide)
  rw [hname, List.splitOn_append_cons_self_of_not_mem (hnumber _),
    List.splitOn_append_cons_self_of_not_mem (hnumber _), List.splitOn_append_cons_self, hext]

theorem strSplit_letterName (e : Server.Env) (domain : CStr) :
    Client.strSplit '.' (Server.letterName e domain) =
      if [] ∈ domain.splitOn '.' then .error .assertFailed
      else .ok
        (decimal e.pid :: decimal e.timestamp :: (domain.splitOn '.' ++ ["mbox".toList])) := by
  have hlast : (Server.letterName e domain).getLast? ≠ some '.' := by
    rw [Server.letterName, List.getLast?_append_of_ne_nil _ (by decide)]
    decide
  have hnil : [] ∈ (Server.letterName e domain).splitOn '.' ↔ [] ∈ domain.splitOn '.' := by
    simp [letterName_pieces, (decimal_ne_nil _).symm]
  rw [Client.strSplit_of_not_delim hlast, letterName_pieces]
  simp only [← letterName_pieces e domain, hnil]

theorem comma_notMem_takeWhile {text : CStr} (h : domain = text.takeWhile (· != ',')) :
    ',' ∉ domain := by
  rw [h]
  exact fun hmem => by simpa using List.mem_takeWhile_imp hmem

/-- The client reads off a name the domain that the server put there exactly
if it is two labels, without a comma. -/
theorem emailDomain_letterName_iff (e : Server.Env) (domain : CStr) :
    Client.emailDomain (Server.letterName e domain) = .ok domain ↔
      ∃ l₁ l₂, domain = l₁ ++ '.' :: l₂ ∧ l₁ ≠ [] ∧ l₂ ≠ [] ∧ '.' ∉ l₁ ∧ '.' ∉ l₂ ∧
        ',' ∉ domain := by
  constructor
  · intro h
    have hlabels : [] ∉ domain.splitOn '.' := by
      intro hnil
      obtain ⟨_, _, _, _, _, _, hsplit, -⟩ := Client.emailDomain_ok_iff.mp h
      rw [strSplit_letterName, if_pos hnil] at hsplit
      cases hsplit
    have hpieces := letterName_pieces e domain
    have hjoin : ['.'].intercalate (domain.splitOn '.') = domain := List.intercalate_splitOn '.'
    have hdot : ∀ l ∈ domain.splitOn '.', '.' ∉ l := fun l => delim_notMem_splitOn
    obtain ⟨l₁, rest, hsplit⟩ := List.exists_cons_of_ne_nil (List.splitOn_ne_nil '.' domain)
    rw [hsplit] at hlabels hpieces hjoin hdot
    cases rest with
    | nil =>
        -- a single label is taken together with the extension
        have hdomain := Client.emailDomain_eq hpieces h
        have hcomma := comma_notMem_takeWhile hdomain
        obtain rfl : l₁ = domain := by simpa using hjoin
        have hfree : ∀ c ∈ l₁, (c != ',') = true := fun c hc => by
          simpa using fun heq : c = ',' => hcomma (heq ▸ hc)
        rw [List.takeWhile_append_of_pos hfree] at hdomain
        simp at hdomain
    | cons l₂ rest =>
        have hdomain := Client.emailDomain_eq hpieces h
        have hcomma := comma_notMem_takeWhile hdomain
        rw [List.intercalate_cons_of_ne_nil (by simp)] at hjoin
        cases rest with
        | nil =>
            obtain ⟨hne₁, hne₂⟩ := List.ne_and_not_mem_of_not_mem_cons hlabels
            exact ⟨l₁, l₂, by simpa using hjoin.symm, hne₁.symm, by simpa [eq_comm] using hne₂,
              hdot l₁ (by simp), hdot l₂ (by simp), hcomma⟩
        | cons l₃ rest =>
            -- of three labels one is lost
            have hle : domain.length ≤ (l₁ ++ '.' :: l₂).length := by
              conv_lhs => rw [hdomain]
              exact (List.takeWhile_prefix _).length_le
            rw [List.intercalate_cons_of_ne_nil (by simp)] at hjoin
            rw [← hjoin] at hle
            simp only [List.length_append, List.length_cons, List.length_nil] at hle
            omega
  · rintro ⟨l₁, l₂, rfl, hne₁, hne₂, hdot₁, hdot₂, hcomma⟩
    have hsplit : (l₁ ++ '.' :: l₂).splitOn '.' = [l₁, l₂] := by
      rw [List.splitOn_append_cons_self_of_not_mem hdot₁, List.splitOn_eq_singleton hdot₂]
    refine Client.emailDomain_ok_iff.mpr ⟨decimal e.pid, decimal e.timestamp, l₁, l₂,
      ["mbox".toList], [], ?_,
      Client.strSplit_whole (by simp) hcomma⟩
    rw [strSplit_letterName, hsplit, if_neg (by simp [hne₁.symm, hne₂.symm])]
    rfl

/-- A subdomain loses its last label, and a host without a domain is filed
under the extension. -/
theorem domains_misread :
    Server.patternEmail "a@mail.example.com".toList =
        some ("a".toList, "mail.example.com".toList) ∧
      Client.emailDomain (Server.letterName Server.sampleEnv "mail.example.com".toList) =
        .ok "mail.example".toList ∧
      Server.patternEmail "a@localhost".toList = some ("a".toList, "localhost".toList) ∧
      Client.emailDomain (Server.letterName Server.sampleEnv "localhost".toList) =
        .ok "localhost.mbox".toList ∧
      Server.patternEmail "a@b..c".toList = some ("a".toList, "b..c".toList) ∧
      Client.emailDomain (Server.letterName Server.sampleEnv "b..c".toList) =
        .error .assertFailed := by
  decide +kernel

end SmtpProj.Joint
