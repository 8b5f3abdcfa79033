import SmtpProj.Lib.Path
import SmtpProj.Server.Content

/-!
Where `process_data_end` puts a letter (`maildir.c`).

The user's directory and the letter's file are named by what the address
pattern captured, and the pattern captures anything but a newline. The mail
directory keeps a letter only as far as the username and the domain are names
and not paths.
-/

namespace SmtpProj.Server

open Lib Lib.Place

variable {e : Env} {maildir username domain : CStr}

def maildirLocal (maildir : CStr) : CStr := maildir ++ ['/'] ++ "local".toList

def Env.timestamp (e : Env) : ℤ := toInt (e.now.sec * 1000 + e.now.usec.tdiv 1000)

def letterName (e : Env) (domain : CStr) : CStr :=
  decimal e.pid ++ ['.'] ++ decimal e.timestamp ++ ['.'] ++ domain ++ ".mbox".toList

theorem maildirGetFname_eq (e : Env) (username domain : CStr) :
    maildirGetFname e username domain =
      e.usrLocal ++ '/' :: (username ++ '/' :: ("new".toList ++ '/' :: letterName e domain)) := by
  simp [maildirGetFname, letterName, Env.timestamp]

/-- The directories that are made for a letter are below the mail directory,
and so is its file, under a user and a directory. -/
structure Confined (e : Env) (username domain : CStr) : Prop where
  dirs : ∀ dir ∈ maildirEnsureUser e username, ∃ n, Under (n + 1) (resolve e.usrLocal) (resolve dir)
  file : Under 3 (resolve e.usrLocal) (resolve (maildirGetFname e username domain))

@[simp] theorem isName_letterName (e : Env) (domain : CStr) :
    isName (letterName e domain) = true := by
  have hlen : 5 ≤ (letterName e domain).length := by
    simp [letterName]
    omega
  simp only [isName, decide_eq_true_eq]
  refine ⟨?_, ?_, ?_⟩ <;> intro h <;> rw [h] at hlen <;> simp at hlen

theorem slash_notMem_letterName (hdomain : '/' ∉ domain) : '/' ∉ letterName e domain := by
  have hnumber : ∀ n : ℤ, '/' ∉ decimal n := notMem_decimal (by decide) (by decide)
  simp [letterName, hnumber, hdomain]

/-- All the directories are below the mail directory if the user's is. -/
theorem dirs_iff (hbase : e.usrLocal ≠ []) (username : CStr) :
    (∀ dir ∈ maildirEnsureUser e username,
      ∃ n, Under (n + 1) (resolve e.usrLocal) (resolve dir)) ↔
        ∃ n, Under (n + 1) (resolve e.usrLocal) ((resolve e.usrLocal).walk username) := by
  have huser : resolve (e.usrLocal ++ ['/'] ++ username) =
      (resolve e.usrLocal).walk username := by
    rw [List.append_assoc, List.singleton_append, resolve_append hbase]
  have hsub : ∀ sub : CStr, '/' ∉ sub →
      resolve (e.usrLocal ++ ['/'] ++ username ++ '/' :: sub) =
        ((resolve e.usrLocal).walk username).enter sub := fun sub hslash => by
    rw [resolve_append (by simp), huser, walk_component _ hslash]
  constructor
  · intro h
    rw [← huser]
    exact h _ List.mem_cons_self
  · rintro ⟨n, hn⟩ dir hdir
    have hmem : dir = e.usrLocal ++ ['/'] ++ username ∨ ∃ sub, '/' ∉ sub ∧ isName sub = true ∧
        dir = e.usrLocal ++ ['/'] ++ username ++ '/' :: sub := by
      simp only [maildirEnsureUser, List.mem_cons, List.not_mem_nil, or_false] at hdir
      rcases hdir with rfl | rfl | rfl | rfl
      · exact .inl rfl
      · exact .inr ⟨"new".toList, by decide, by decide, rfl⟩
      · exact .inr ⟨"cur".toList, by decide, by decide, rfl⟩
      · exact .inr ⟨"tmp".toList, by decide, by decide, rfl⟩
    rcases hmem with rfl | ⟨sub, hslash, hname, rfl⟩
    · exact ⟨n, huser ▸ hn⟩
    · exact ⟨n + 1, by rw [hsub sub hslash, under_enter_iff hname]; exact hn⟩

theorem resolve_file (hbase : e.usrLocal ≠ []) (username domain : CStr) :
    resolve (maildirGetFname e username domain) =
      (((resolve e.usrLocal).walk username).enter "new".toList).walk (letterName e domain) := by
  rw [maildirGetFname_eq, resolve_append hbase, walk_append, walk_append,
    walk_component _ (show '/' ∉ "new".toList by decide)]

def sampleMaildir : Env := { sampleEnv with usrLocal := maildirLocal "/tmp/mail/".toList }

end SmtpProj.Server
