import SmtpProj.Lib.Buffer
import SmtpProj.Lib.Run
import SmtpProj.Client.Strings

/-!
Where a letter is renamed to.

The new name is the path with the first `new` in it turned into `cur`, put
together in a static buffer. The directory that is meant is the last but one,
between two slashes; the `new` that is found is in it only if there is none in
front, in the mail directory or in the name of the user.
-/

namespace SmtpProj.Client

open Lib

def replaceBufferSize : ℕ := 4096

/-- `str_replace`: the part in front of `orig` is copied into the buffer, then
`rep` and the part behind are printed behind it. A text without `orig` is
returned as it is. -/
def strReplace (str orig rep : CStr) : Except Halt CStr :=
  match strstr orig str with
  | none => .ok str
  | some i => do
      let buffer := (Buffer.malloc replaceBufferSize).strcpy (str.take i)
      let buffer ← (buffer.strcat (rep ++ str.drop (i + orig.length))).checked .outOfBounds
      .ok buffer.text

variable {str orig rep mailDir user name : CStr}

/-- The text is that of `replaceFirst`, if it fits the buffer. -/
theorem strReplace_eq (hlen : orig.length = rep.length) (h : strstr orig str ≠ none) :
    strReplace str orig rep =
      if str.length < replaceBufferSize then .ok (replaceFirst orig rep str)
      else .error .outOfBounds := by
  obtain ⟨i, hi⟩ := Option.ne_none_iff_exists'.mp h
  have hlength := length_replaceFirst hlen str
  simp only [replaceFirst, hi, List.append_assoc] at hlength
  simp only [strReplace, replaceFirst, hi, Buffer.strcpy_malloc, Buffer.strcat_holding,
    Buffer.checked, Buffer.fits_holding, hlength, List.append_assoc]
  split_ifs <;> rfl

theorem strReplace_new {path : CStr} (h : strstr "new".toList path ≠ none) :
    strReplace path "new".toList "cur".toList =
      if path.length < replaceBufferSize then .ok (renameTarget path) else .error .outOfBounds :=
  have hlen : "new".toList.length = "cur".toList.length := rfl
  strReplace_eq hlen h

/-- What `send_msg_to_server` computes is the name in the model, for every path
that the buffer has room for. -/
theorem strReplace_eq_renameTarget {path : CStr} (h : path.length < replaceBufferSize) :
    strReplace path "new".toList "cur".toList = .ok (renameTarget path) := by
  cases hfind : strstr "new".toList path with
  | none => simp only [strReplace, renameTarget, replaceFirst, hfind]
  | some i =>
      have hnew : strstr "new".toList path ≠ none := by rw [hfind]; exact Option.some_ne_none i
      rw [strReplace_new hnew, if_pos h]

theorem path_eq (mailDir user name : CStr) : getUserNewDirFullPath mailDir user ++ name =
    mailDir ++ user ++ "/".toList ++ "new".toList ++ ('/' :: name) := by
  simp [getUserNewDirFullPath]

/-- The directory of a letter is found, and is what is renamed. -/
theorem renameTarget_of_no_new (h : ¬ "new".toList <:+: mailDir ++ user) (name : CStr) :
    renameTarget (getUserNewDirFullPath mailDir user ++ name) =
      mailDir ++ user ++ "/cur/".toList ++ name := by
  have hfind : strstr "new".toList
      (mailDir ++ user ++ "/".toList ++ "new".toList ++ ('/' :: name)) =
        some (mailDir ++ user ++ "/".toList).length := by
    have hsep : '/' ∉ "new".toList := by decide
    have hslash := strstr_append_cons hsep (by decide) (strstr_eq_none_iff.mpr h)
      ("new/".toList ++ name)
    simpa [strstr, Nat.add_assoc] using hslash
  rw [path_eq, renameTarget, replaceFirst_append _ hfind]
  simp

/-- A `new` in front of it is what is renamed instead. -/
theorem renameTarget_ne_of_new (h : "new".toList <:+: mailDir ++ user) (name : CStr) :
    renameTarget (getUserNewDirFullPath mailDir user ++ name) ≠
      mailDir ++ user ++ "/cur/".toList ++ name := by
  obtain ⟨i, hi⟩ : ∃ i, strstr "new".toList (mailDir ++ user) = some i :=
    Option.ne_none_iff_exists'.mp fun hnone => strstr_eq_none_iff.mp hnone h
  obtain ⟨front, rest, hsplit, rfl⟩ := eq_append_of_strstr hi
  have hpath : getUserNewDirFullPath mailDir user ++ name =
      front ++ "new".toList ++ (rest ++ "/new/".toList ++ name) := by
    rw [path_eq, hsplit]
    simp
  have hfind : strstr "new".toList (front ++ "new".toList ++ (rest ++ "/new/".toList ++ name)) =
      some front.length := by
    rw [hsplit] at hi
    simpa only [List.append_assoc] using strstr_append hi ("/new/".toList ++ name)
  rw [hpath, renameTarget, replaceFirst_append _ hfind, hsplit]
  simp

/-- A letter is renamed from `new` to `cur` of its user exactly if there is no
`new` in front of the directory, and the static buffer has room for the path. -/
theorem renamed_iff (mailDir user name : CStr) :
    strReplace (getUserNewDirFullPath mailDir user ++ name) "new".toList "cur".toList =
        .ok (mailDir ++ user ++ "/cur/".toList ++ name) ↔
      ¬ "new".toList <:+: mailDir ++ user ∧
        (getUserNewDirFullPath mailDir user ++ name).length < replaceBufferSize := by
  have hnew : strstr "new".toList (getUserNewDirFullPath mailDir user ++ name) ≠ none := by
    rw [Ne, strstr_eq_none_iff, not_not, path_eq]
    exact List.infix_append _ _ _
  rw [strReplace_new hnew]
  constructor
  · intro h
    split_ifs at h with hroom
    refine ⟨fun hfound => renameTarget_ne_of_new hfound name ?_, hroom⟩
    exact Except.ok.inj h
  · rintro ⟨hfound, hroom⟩
    rw [if_pos hroom]
    exact congrArg Except.ok (renameTarget_of_no_new hfound name)

/-- A remote sender chose the name of the user. -/
theorem newton_renamed_elsewhere :
    strReplace (getUserNewDirFullPath "/tmp/mail/local/".toList "newton".toList ++
        "7.1.example.com".toList) "new".toList "cur".toList =
      .ok "/tmp/mail/local/curton/new/7.1.example.com".toList ∧
    "/tmp/mail/local/curton/new/7.1.example.com".toList ≠
      "/tmp/mail/local/".toList ++ "newton".toList ++ "/cur/".toList ++
        "7.1.example.com".toList := by
  decide

end SmtpProj.Client
