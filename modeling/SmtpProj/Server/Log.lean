import SmtpProj.Lib.CString

/-!
The log of the server.

A line is cut by `LOG` to what `mtext` of a queue message has room for, and the log
process appends it to its file, with the time before it and a NUL behind it. What a
long line loses is its end, and with that the line feed; the NUL is always there.
So the file is read back record by record (`splitOn_saved`).
-/

namespace SmtpProj.Server

open Lib

inductive LogLevel
  | info | warn | error | debug
  deriving DecidableEq

def LogLevel.tag : LogLevel → CStr
  | .info => "INFO:".toList
  | .warn => "WARN:".toList
  | .error => "ERROR:".toList
  | .debug => "DEBUG:".toList

def logLineSize : ℕ := 1024

/-- What `snprintf` leaves of a line. `main` sets `cur_level` to `DEBUG` before it logs
anything, so lines of all levels are logged. -/
def logLine (lvl : LogLevel) (message : CStr) : CStr :=
  upToNul ((lvl.tag ++ " ".toList ++ message ++ "\n".toList).take (logLineSize - 1))

structure Tm where
  year : ℕ
  month : ℕ
  day : ℕ
  hour : ℕ
  minute : ℕ
  second : ℕ
  year_digits : 1000 ≤ year ∧ year < 10000
  month_le : month ≤ 12
  day_le : day ≤ 31
  hour_lt : hour < 24
  minute_lt : minute < 60
  second_le : second ≤ 60

def twoDigits (n : ℕ) : CStr := if n < 10 then '0' :: decimal n else decimal n

def Tm.timestr (now : Tm) : CStr :=
  decimal now.year ++ '-' :: twoDigits now.month ++ '-' :: twoDigits now.day ++
    'T' :: twoDigits now.hour ++ ':' :: twoDigits now.minute ++ ':' :: twoDigits now.second

/-- What `save_message` writes: `log_msg_size` bytes of `log_msg`, and nothing for an
empty message. -/
def saveMessage (now : Tm) (message : CStr) : List Char :=
  if message = [] then []
  else (now.timestr ++ ' ' :: message ++ [nul]).take (20 + 1 + message.length)

variable {now : Tm} {message : CStr} {lvl : LogLevel} {n : ℕ}

theorem logLine_ne_nil : logLine lvl message ≠ [] := by
  have hfirst : ∀ (c : Char) (rest : CStr), c ≠ nul →
      upToNul ((c :: rest).take (logLineSize - 1)) ≠ [] := by
    intro c rest hc
    rw [show logLineSize - 1 = 1022 + 1 from rfl, List.take_succ_cons, upToNul]
    simp [hc]
  cases lvl <;> exact hfirst _ _ (by decide)

@[simp] theorem nul_notMem_logLine : nul ∉ logLine lvl message := nul_notMem_upToNul _

theorem length_logLine_lt : (logLine lvl message).length < logLineSize := by
  have hcut := ((List.takeWhile_prefix (· ≠ nul)).length_le).trans
    (List.length_take_le (logLineSize - 1) (lvl.tag ++ " ".toList ++ message ++ "\n".toList))
  exact hcut.trans_lt (by decide)

theorem decimal_natCast (n : ℕ) : decimal n = Nat.toDigits 10 n := by
  have hnot : ¬((n : ℤ) < 0) := by omega
  rw [decimal, if_neg hnot, Int.natAbs_natCast]

theorem length_decimal_year (hlow : 1000 ≤ n) (hhigh : n < 10000) : (decimal n).length = 4 := by
  have hle : (Nat.toDigits 10 n).length ≤ 4 :=
    (Nat.length_toDigits_le_iff (by decide) (by decide)).mpr hhigh
  have hnot : ¬(Nat.toDigits 10 n).length ≤ 3 := fun hle =>
    hlow.not_gt ((Nat.length_toDigits_le_iff (by decide) (by decide)).mp hle)
  rw [decimal_natCast]
  omega

theorem length_twoDigits (hn : n < 100) : (twoDigits n).length = 2 := by
  have hle : (Nat.toDigits 10 n).length ≤ 2 :=
    (Nat.length_toDigits_le_iff (by decide) (by decide)).mpr hn
  unfold twoDigits
  rw [decimal_natCast]
  split_ifs with h
  · rw [Nat.toDigits_of_lt_base h]
    rfl
  · have hnot : ¬(Nat.toDigits 10 n).length ≤ 1 := fun hle =>
      h ((Nat.length_toDigits_le_iff (by decide) (by decide)).mp hle)
    omega

/-- `timestr` has the nineteen bytes that `save_message` reckons with. -/
theorem length_timestr (now : Tm) : now.timestr.length = 19 := by
  have hyear := length_decimal_year now.year_digits.1 now.year_digits.2
  have hmonth := length_twoDigits (show now.month < 100 by have := now.month_le; omega)
  have hday := length_twoDigits (show now.day < 100 by have := now.day_le; omega)
  have hhour := length_twoDigits (show now.hour < 100 by have := now.hour_lt; omega)
  have hminute := length_twoDigits (show now.minute < 100 by have := now.minute_lt; omega)
  have hsecond := length_twoDigits (show now.second < 100 by have := now.second_le; omega)
  simp only [Tm.timestr, List.length_append, List.length_cons]
  omega

@[simp] theorem nul_notMem_twoDigits : nul ∉ twoDigits n := by
  have hnot : nul ∉ decimal n := notMem_decimal (by decide) (by decide) n
  unfold twoDigits
  split_ifs <;> simp [hnot, show nul ≠ '0' by decide]

@[simp] theorem nul_notMem_timestr : nul ∉ now.timestr := by
  have hnot : nul ∉ decimal now.year := notMem_decimal (by decide) (by decide) _
  simp [Tm.timestr, hnot, nul_notMem_twoDigits, show nul ≠ '-' by decide,
    show nul ≠ 'T' by decide, show nul ≠ ':' by decide]

/-- All of the record is written, and its NUL. -/
theorem saveMessage_eq (hne : message ≠ []) :
    saveMessage now message = (now.timestr ++ ' ' :: message) ++ [nul] := by
  rw [saveMessage, if_neg hne, List.take_of_length_le]
  simp only [List.length_append, length_timestr, List.length_cons, List.length_nil]
  omega

/-- The file is its records. -/
theorem splitOn_saved {entries : List (Tm × CStr)}
    (h : ∀ e ∈ entries, e.2 ≠ [] ∧ nul ∉ e.2) :
    (entries.flatMap fun e => saveMessage e.1 e.2).splitOn nul =
      (entries.map fun e => e.1.timestr ++ ' ' :: e.2) ++ [[]] := by
  induction entries with
  | nil => rfl
  | cons e entries ih =>
      obtain ⟨hne, hnul⟩ := h e (by simp)
      have hrecord : nul ∉ e.1.timestr ++ ' ' :: e.2 := by
        simp [nul_notMem_timestr, hnul, show nul ≠ ' ' by decide]
      rw [List.flatMap_cons, saveMessage_eq hne, List.append_assoc, List.singleton_append,
        List.splitOn_append_cons_self, ih fun e he => h e (by simp [he])]
      rw [List.splitOn_eq_singleton hrecord, List.map_cons, List.singleton_append, List.cons_append]

end SmtpProj.Server
