import SmtpProj.Lib.CString

/-!
Blocks of memory that strings are written into.

A block has the size it was asked for with, and nothing keeps a string from
being longer: what is written is remembered, and whether it `Fits` is asked
afterwards. The string of a block is that at its start; `holding` is a block
into which it was copied piece by piece, so that its bytes and the terminator
are all that was ever written.
-/

namespace SmtpProj.Lib

/-- A block of memory: its size, the string at its start, and the number of
bytes from its start on that were written. -/
structure Buffer where
  size : ℕ
  text : CStr
  written : ℕ
  deriving DecidableEq

namespace Buffer

/-- Nothing was written behind the end of the block. -/
def Fits (b : Buffer) : Prop := b.written ≤ b.size

instance (b : Buffer) : Decidable b.Fits := inferInstanceAs (Decidable (b.written ≤ b.size))

def malloc (size : ℕ) : Buffer := ⟨size, [], 0⟩

def realloc (size : ℕ) (b : Buffer) : Buffer := { b with size := size }

def strcpy (s : CStr) (b : Buffer) : Buffer :=
  { b with text := s, written := max b.written (s.length + 1) }

def strcat (s : CStr) (b : Buffer) : Buffer := b.strcpy (b.text ++ s)

def assign (n : ℕ) (b : Buffer) : Buffer := { b with written := max b.written n }

def holding (size : ℕ) (s : CStr) : Buffer := ⟨size, s, s.length + 1⟩

@[simp] theorem strcpy_malloc (size : ℕ) (s : CStr) : (malloc size).strcpy s = holding size s := by
  simp [strcpy, malloc, holding]

/-- What is put behind a string is written behind it. -/
@[simp] theorem strcat_holding (size : ℕ) (s t : CStr) :
    (holding size s).strcat t = holding size (s ++ t) := by
  simp only [strcat, strcpy, holding, List.length_append]
  congr 1
  omega

@[simp] theorem text_holding (size : ℕ) (s : CStr) : (holding size s).text = s := rfl

@[simp] theorem size_holding (size : ℕ) (s : CStr) : (holding size s).size = size := rfl

@[simp] theorem written_holding (size : ℕ) (s : CStr) :
    (holding size s).written = s.length + 1 := rfl

@[simp] theorem fits_holding {size : ℕ} {s : CStr} : (holding size s).Fits ↔ s.length < size :=
  Nat.succ_le_iff

@[simp] theorem fits_assign_malloc (n : ℕ) : ((malloc n).assign n).Fits := by
  simp [Fits, assign, malloc]

@[simp] theorem fits_strcat_iff {b : Buffer} {s : CStr} :
    (b.strcat s).Fits ↔ b.Fits ∧ (b.text ++ s).length < b.size :=
  Nat.max_le.trans (and_congr_right fun _ => Nat.succ_le_iff)

theorem fits_realloc {b : Buffer} {size : ℕ} (h : b.Fits) (hsize : b.size ≤ size) :
    (b.realloc size).Fits :=
  Nat.le_trans h hsize

def checked {ε : Type} (e : ε) (b : Buffer) : Except ε Buffer := if b.Fits then .ok b else .error e

theorem checked_ok {ε : Type} {e : ε} {b : Buffer} (h : b.Fits) : b.checked e = .ok b := if_pos h

end Buffer

end SmtpProj.Lib
