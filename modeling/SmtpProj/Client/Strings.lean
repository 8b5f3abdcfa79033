import SmtpProj.Lib.CString
import SmtpProj.Client.Fsm

/-!
Paths, letter files and lists: `string_utils.c`, `dir_utils.c`, `msg.c` and
`list.c`.

A letter lies in `<mail_dir><user>/new/<name>`, and the domain it is for is
read out of its path: the third and fourth of the pieces between dots, up to
the first comma.

The list of a domain's letters is built over a node that is allocated and
linked but never given a value. A list here is the list of the values of its
nodes, and the value that was never set is `none`.
-/

namespace SmtpProj.Client

open Lib

/-! ### `strtok` -/

/-- One call `strtok(str, "\n")` with the place that the last call left; a
null `str` goes on from there. The result is the token, if there is one, and
the new place. -/
def strtok (place str : Option CStr) : Except Halt (Option CStr × CStr) :=
  match str.or place with
  | none => .error .nullRead
  | some text =>
      match nextToken '\n' text with
      | none => .ok (none, [])
      | some (token, rest) => .ok (some token, rest)

theorem strtok_ok {place str : Option CStr} {token rest : CStr}
    (h : strtok place str = .ok (some token, rest)) :
    ∃ text, str.or place = some text ∧ tokens '\n' text = token :: tokens '\n' rest := by
  unfold strtok at h
  split at h
  next => cases h
  next text htext =>
    split at h
    next => cases h
    next token' rest' hnext =>
      cases h
      exact ⟨text, htext, tokens_of_nextToken hnext⟩

/-- `str_split`. The tokens are stored in an array that was sized by counting
delimiters; a different number of them fails an assertion. -/
def strSplit (delim : Char) (str : CStr) : Except Halt (List CStr) :=
  let count := str.count delim + if str.getLast? = some delim then 0 else 1
  if (tokens delim str).length = count then .ok (tokens delim str) else .error .assertFailed

/-! ### Paths -/

def getUserNewDirFullPath (mailDir userDirName : CStr) : CStr :=
  mailDir ++ userDirName ++ "/".toList ++ "new/".toList

def getDomainNameFromEmailFullPath (emailPath : CStr) : Except Halt CStr := do
  match ← strSplit '.' emailPath with
  | _ :: _ :: firstPart :: secondPart :: _ => .ok (firstPart ++ ".".toList ++ secondPart)
  | [_] => .error .badPointer
  | _ => .error .nullRead

/-- The domain a letter is filed under: `tokens[0]` of the split at commas. -/
def emailDomain (emailPath : CStr) : Except Halt CStr := do
  match ← strSplit ',' (← getDomainNameFromEmailFullPath emailPath) with
  | domain :: _ => .ok domain
  | [] => .error .nullRead

/-- The name a letter is given when it is taken up:
`str_replace(path, "new", "cur")`. -/
def renameTarget (emailPath : CStr) : CStr :=
  replaceFirst "new".toList "cur".toList emailPath

/-! ### Letter files -/

/-- `read_msg_file`: a null pointer if the file does not open. The length of
an empty file passes for a failed read. -/
def readMsgFile (file : Option (List Char)) : Except Halt (Option CStr) :=
  match file with
  | none => .ok none
  | some [] => .error .readFailed
  | some content => .ok (some (upToNul content))

@[simp] theorem readMsgFile_eq_none {file : Option (List Char)} :
    readMsgFile file = .ok none ↔ file = none := by
  unfold readMsgFile
  split <;> simp_all

def bodyLines (text : CStr) : List CStr := (tokens '\n' text).drop 2

/-! ### Lists -/

/-- A loop that keeps the last index with a property finds one, if there is
one. -/
theorem foldl_found_cases (p : ℕ → Prop) [DecidablePred p] (n : ℕ) :
    ((List.range n).foldl (fun found i => if p i then some i else found) none = none ∧
        ∀ i < n, ¬ p i) ∨
      ∃ j < n, (List.range n).foldl (fun found i => if p i then some i else found) none = some j ∧
        p j := by
  induction n with
  | zero => simp
  | succ n ih =>
      rw [List.range_succ, List.foldl_append]
      simp only [List.foldl_cons, List.foldl_nil]
      by_cases hn : p n
      · exact .inr ⟨n, by omega, if_pos hn, hn⟩
      · rw [if_neg hn]
        rcases ih with ⟨hnone, hne⟩ | ⟨j, hj, hsome, hp⟩
        · refine .inl ⟨hnone, fun i hi => ?_⟩
          rcases Nat.lt_succ_iff_lt_or_eq.mp hi with hi | rfl
          · exact hne i hi
          · exact hn
        · exact .inr ⟨j, by omega, hsome, hp⟩

def addFirst (val : CStr) (mails : List (Option CStr)) : List (Option CStr) := some val :: mails

/-- `remove_first`: the value is freed with the node. -/
def removeFirst : List (Option CStr) → Except Halt (List (Option CStr))
  | [] => .ok []
  | none :: _ => .error .badPointer
  | some _ :: mails => .ok mails

/-- `count`: the node without a value is not counted. -/
def count (mails : List (Option CStr)) : ℤ := (mails.length : ℤ) - 1

end SmtpProj.Client
