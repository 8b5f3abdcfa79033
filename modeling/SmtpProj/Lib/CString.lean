import Mathlib.Data.List.TakeWhile
import Mathlib.Data.List.Infix

/-!
C strings and the `string.h` functions on them.

A C string is the list of its characters, the terminating NUL left out, so the
operations that copy and concatenate are those of lists. Where the bytes of a
buffer matter, the buffer is a list of characters that may hold NULs, and
`cstr` reads the string that starts at its first byte; it is undefined when
the buffer has no NUL, as reading on would leave the buffer.

`strtok` keeps its place between calls. Here the place is the text that is
still to be split: `nextToken` takes one token off it, and `tokens` is what
repeated calls yield.
-/

namespace SmtpProj.Lib

/-- A C string, without its terminator. -/
abbrev CStr := List Char

def nul : Char := '\x00'

/-! ### Buffers -/

def cstr (mem : List Char) : Option CStr :=
  if nul ∈ mem then some (mem.takeWhile (· ≠ nul)) else none

def upToNul (bytes : List Char) : CStr := bytes.takeWhile (· ≠ nul)

def overlay (bytes mem : List Char) : List Char := bytes ++ mem.drop bytes.length

def wipe (n : ℕ) (mem : List Char) : List Char := overlay (List.replicate n nul) mem

@[simp] theorem nul_mem_replicate (n : ℕ) : nul ∈ List.replicate (n + 1) nul := by
  simp [List.replicate_succ]

@[simp] theorem nul_notMem_upToNul (bytes : List Char) : nul ∉ upToNul bytes := by
  intro h
  simpa using List.mem_takeWhile_imp h

theorem upToNul_eq_self {text : List Char} (h : nul ∉ text) : upToNul text = text :=
  List.takeWhile_eq_self_iff.mpr fun c hc => by
    simpa using fun hcn : c = nul => h (hcn ▸ hc)

theorem upToNul_append_of_mem {bytes rest : List Char} (h : nul ∈ bytes) :
    upToNul (bytes ++ rest) = upToNul bytes := by
  induction bytes with
  | nil => simp at h
  | cons c cs ih =>
      by_cases hc : c = nul
      · simp [upToNul, hc]
      · have hcs : nul ∈ cs := by
          rcases List.mem_cons.mp h with h | h
          · exact absurd h.symm hc
          · exact h
        have ih' := ih hcs
        simp only [upToNul, List.cons_append] at ih' ⊢
        rw [List.takeWhile_cons_of_pos (by simpa using hc),
          List.takeWhile_cons_of_pos (by simpa using hc), ih']

theorem upToNul_append_of_notMem {bytes rest : List Char} (h : nul ∉ bytes) :
    upToNul (bytes ++ rest) = bytes ++ upToNul rest := by
  have hall : ∀ c ∈ bytes, decide (c ≠ nul) = true := fun c hc => by
    simpa using fun hcn : c = nul => h (hcn ▸ hc)
  simpa [upToNul] using List.takeWhile_append_of_pos hall

theorem cstr_of_mem {mem : List Char} (h : nul ∈ mem) : cstr mem = some (upToNul mem) :=
  if_pos h

@[simp] theorem cstr_eq_none_iff {mem : List Char} : cstr mem = none ↔ nul ∉ mem := by
  simp [cstr]

/-- Bytes written at the start of a buffer are read back as the string they
hold exactly when they bring a NUL or the byte behind them is one. -/
theorem cstr_append_eq_iff {bytes rest : List Char} :
    cstr (bytes ++ rest) = some (upToNul bytes) ↔ nul ∈ bytes ∨ rest.head? = some nul := by
  by_cases hb : nul ∈ bytes
  · simp [cstr_of_mem (List.mem_append_left rest hb), upToNul_append_of_mem hb, hb]
  · by_cases hr : nul ∈ rest
    · rw [cstr_of_mem (List.mem_append_right bytes hr), upToNul_append_of_notMem hb,
        upToNul_eq_self hb]
      cases rest with
      | nil => simp at hr
      | cons c cs => by_cases hc : c = nul <;> simp [upToNul, hc, hb]
    · have hnone : cstr (bytes ++ rest) = none := by simp [cstr_eq_none_iff, hb, hr]
      have hhead : rest.head? ≠ some nul := fun h => hr (List.mem_of_head? h)
      simp [hnone, hb, hhead]

@[simp] theorem cstr_nul_cons (rest : List Char) : cstr (nul :: rest) = some [] := by
  simp [cstr]

theorem cstr_cons {c : Char} {rest : List Char} (hc : c ≠ nul) (h : nul ∈ rest) :
    cstr (c :: rest) = some (c :: upToNul rest) := by
  rw [cstr_of_mem (List.mem_cons_of_mem _ h), upToNul,
    List.takeWhile_cons_of_pos (by simpa using hc)]
  rfl

theorem getElem?_overlay {bytes mem : List Char} {n : ℕ} (h : bytes.length ≤ n) :
    (overlay bytes mem)[n]? = mem[n]? := by
  rw [overlay, List.getElem?_append_right h, List.getElem?_drop]
  congr 1
  omega

def clear (n : ℕ) : List Char := List.replicate n nul

@[simp] theorem overlay_clear (bytes : List Char) (n : ℕ) :
    overlay bytes (clear n) = bytes ++ clear (n - bytes.length) := by
  simp [overlay, clear]

/-- A text that leaves room for the terminator is read back from a clear
buffer. -/
theorem cstr_overlay_clear {text : List Char} {n : ℕ} (hlen : text.length < n) :
    cstr (overlay text (clear n)) = some (upToNul text) := by
  rw [overlay_clear, cstr_append_eq_iff]
  obtain ⟨m, hm⟩ : ∃ m, n - text.length = m + 1 := ⟨n - text.length - 1, by omega⟩
  exact .inr (by simp [clear, hm, List.replicate_succ])

theorem wipe_overlay_clear {text : List Char} {n : ℕ} (hlen : text.length ≤ n) :
    wipe text.length (overlay text (clear n)) = clear n := by
  rw [overlay_clear, wipe, overlay, List.length_replicate, List.drop_left]
  simp only [clear, List.replicate_append_replicate]
  congr 1
  omega

theorem wipe_eq_clear {mem : List Char} {n : ℕ} (h : mem.length ≤ n) : wipe n mem = clear n := by
  rw [wipe, overlay, List.length_replicate, List.drop_eq_nil_of_le h, List.append_nil]
  rfl

theorem length_overlay_clear {bytes : List Char} {n : ℕ} (h : bytes.length ≤ n) :
    (overlay bytes (clear n)).length = n := by
  rw [overlay_clear, List.length_append, clear, List.length_replicate]
  omega

/-! ### Searching and replacing -/

/-- `strstr`: where `pat` first occurs. -/
def strstr (pat : CStr) : CStr → Option ℕ
  | [] => if pat = [] then some 0 else none
  | c :: cs => if pat.isPrefixOf (c :: cs) then some 0 else (strstr pat cs).map (· + 1)

theorem length_le_of_strstr {pat text : CStr} {i : ℕ} (h : strstr pat text = some i) :
    i + pat.length ≤ text.length := by
  induction text generalizing i with
  | nil =>
      simp only [strstr] at h
      split at h
      next hpat =>
        cases h
        simp [hpat]
      next => cases h
  | cons c cs ih =>
      simp only [strstr] at h
      split at h
      next hpat =>
        cases h
        simpa using (List.isPrefixOf_iff_prefix.mp hpat).length_le
      next =>
        obtain ⟨i', hi', rfl⟩ := Option.map_eq_some_iff.mp h
        have hle := ih hi'
        simp only [List.length_cons]
        omega

/-- What is found is found in a longer text, at the same place. -/
theorem strstr_append {pat text : CStr} {i : ℕ} (h : strstr pat text = some i) (rest : CStr) :
    strstr pat (text ++ rest) = some i := by
  induction text generalizing i with
  | nil =>
      simp only [strstr] at h
      split at h
      next hpat =>
        cases h
        cases rest <;> simp [strstr, hpat]
      next => cases h
  | cons c cs ih =>
      simp only [strstr] at h
      rw [List.cons_append, strstr]
      split at h
      next hpat =>
        have hpat' : pat <+: c :: (cs ++ rest) :=
          (List.isPrefixOf_iff_prefix.mp hpat).trans (List.prefix_append _ rest)
        rw [if_pos (List.isPrefixOf_iff_prefix.mpr hpat')]
        exact h
      next hpat =>
        obtain ⟨i', hi', rfl⟩ := Option.map_eq_some_iff.mp h
        have hlen := length_le_of_strstr hi'
        have hpat' : ¬pat.isPrefixOf (c :: (cs ++ rest)) = true := fun hpre =>
          hpat <| List.isPrefixOf_iff_prefix.mpr <|
            List.prefix_of_prefix_length_le (List.isPrefixOf_iff_prefix.mp hpre)
              (List.prefix_append (c :: cs) rest) (by simp only [List.length_cons]; omega)
        rw [if_neg hpat', ih hi']
        rfl

/-- What is found stands there. -/
theorem prefix_drop_of_strstr {pat text : CStr} {i : ℕ} (h : strstr pat text = some i) :
    pat <+: text.drop i := by
  induction text generalizing i with
  | nil =>
      simp only [strstr] at h
      split at h
      next hpat => simp [hpat]
      next => cases h
  | cons c cs ih =>
      simp only [strstr] at h
      split at h
      next hpat =>
        cases h
        exact List.isPrefixOf_iff_prefix.mp hpat
      next =>
        obtain ⟨i', hi', rfl⟩ := Option.map_eq_some_iff.mp h
        exact ih hi'

theorem strstr_eq_none_iff {pat text : CStr} : strstr pat text = none ↔ ¬ pat <:+: text := by
  induction text with
  | nil => simp [strstr]
  | cons c cs ih =>
      simp only [strstr, List.infix_cons_iff]
      split
      next hpat => simp [List.isPrefixOf_iff_prefix.mp hpat]
      next hpat =>
        have hpre : ¬ pat <+: c :: cs := fun hpre => hpat (List.isPrefixOf_iff_prefix.mpr hpre)
        simp [hpre, ih]

theorem prefix_of_prefix_append_cons {sep : Char} {pat front rest : CStr} (hpat : sep ∉ pat)
    (h : pat <+: front ++ sep :: rest) : pat <+: front := by
  rcases List.prefix_or_prefix_of_prefix h (List.prefix_append front (sep :: rest)) with h' | h'
  · exact h'
  · obtain ⟨behind, rfl⟩ := h'
    cases behind with
    | nil => simp
    | cons c behind =>
        obtain ⟨rfl, -⟩ := List.cons_prefix_cons.mp ((List.prefix_append_right_inj front).mp h)
        simp at hpat

/-- What does not occur in front of a separator is found behind it. -/
theorem strstr_append_cons {sep : Char} {pat front : CStr} (hpat : sep ∉ pat) (hne : pat ≠ [])
    (hfront : strstr pat front = none) (rest : CStr) :
    strstr pat (front ++ sep :: rest) = (strstr pat rest).map (· + (front.length + 1)) := by
  induction front with
  | nil =>
      have hpre : ¬pat.isPrefixOf (sep :: rest) = true := fun hpre =>
        hne (List.prefix_nil.mp (prefix_of_prefix_append_cons hpat
          ((List.isPrefixOf_iff_prefix.mp hpre : pat <+: [] ++ sep :: rest))))
      simp only [List.nil_append, strstr, if_neg hpre]
      rfl
  | cons c cs ih =>
      simp only [strstr] at hfront
      split at hfront
      next => cases hfront
      next hpre =>
        have hpre' : ¬pat.isPrefixOf (c :: (cs ++ sep :: rest)) = true := fun hpre' =>
          hpre (List.isPrefixOf_iff_prefix.mpr (prefix_of_prefix_append_cons hpat
            (List.isPrefixOf_iff_prefix.mp hpre' : pat <+: (c :: cs) ++ sep :: rest)))
        rw [List.cons_append, strstr, if_neg hpre', ih (Option.map_eq_none_iff.mp hfront),
          Option.map_map]
        congr 1

def replaceFirst (orig rep s : CStr) : CStr :=
  match strstr orig s with
  | none => s
  | some i => s.take i ++ rep ++ s.drop (i + orig.length)

theorem eq_append_of_strstr {pat text : CStr} {i : ℕ} (h : strstr pat text = some i) :
    ∃ front rest, text = front ++ pat ++ rest ∧ front.length = i := by
  have hle := length_le_of_strstr h
  obtain ⟨rest, hrest⟩ := prefix_drop_of_strstr h
  refine ⟨text.take i, rest, ?_, List.length_take_of_le (by omega)⟩
  rw [List.append_assoc, hrest, List.take_append_drop]

theorem replaceFirst_append {orig front rest : CStr} (rep : CStr)
    (h : strstr orig (front ++ orig ++ rest) = some front.length) :
    replaceFirst orig rep (front ++ orig ++ rest) = front ++ rep ++ rest := by
  simp only [replaceFirst, h]
  rw [← List.length_append, List.drop_left, List.append_assoc front orig, List.take_left]

theorem length_replaceFirst {orig rep : CStr} (h : orig.length = rep.length) (s : CStr) :
    (replaceFirst orig rep s).length = s.length := by
  unfold replaceFirst
  cases hfind : strstr orig s with
  | none => rfl
  | some i =>
      have hle := length_le_of_strstr hfind
      simp only [List.length_append, List.length_take, List.length_drop]
      omega

/-! ### Numbers -/

def isSpace (c : Char) : Bool :=
  c == ' ' || c == '\t' || c == '\n' || c == '\x0b' || c == '\x0c' || c == '\r'

def digitsValue (s : CStr) : ℕ :=
  (s.takeWhile Char.isDigit).foldl (fun n c => 10 * n + (c.toNat - '0'.toNat)) 0

/-- `atoi`: leading white space, an optional sign, then digits. -/
def atoi (s : CStr) : ℤ :=
  match s.dropWhile isSpace with
  | '-' :: cs => -(digitsValue cs : ℤ)
  | '+' :: cs => digitsValue cs
  | cs => digitsValue cs

def decimal (n : ℤ) : CStr :=
  if n < 0 then '-' :: Nat.toDigits 10 n.natAbs else Nat.toDigits 10 n.natAbs

@[simp] theorem decimal_ne_nil (n : ℤ) : decimal n ≠ [] := by
  unfold decimal
  split_ifs <;> simp [Nat.toDigits_ne_nil]

theorem of_mem_decimal {n : ℤ} {c : Char} (h : c ∈ decimal n) : c = '-' ∨ c.isDigit = true := by
  unfold decimal at h
  split_ifs at h
  · rcases List.mem_cons.mp h with h | h
    · exact .inl h
    · exact .inr (Nat.isDigit_of_mem_toDigits (by decide) (by decide) h)
  · exact .inr (Nat.isDigit_of_mem_toDigits (by decide) (by decide) h)

theorem notMem_decimal {c : Char} (hsign : c ≠ '-') (hdigit : c.isDigit = false) (n : ℤ) :
    c ∉ decimal n := by
  intro h
  rcases of_mem_decimal h with h | h
  · exact hsign h
  · simp [hdigit] at h

/-- The number is read off its digits. -/
theorem decimal_injective : Function.Injective decimal := by
  intro m n h
  have hdigit : ∀ (a b : ℕ), '-' :: Nat.toDigits 10 a ≠ Nat.toDigits 10 b := fun a b heq => by
    have hsign : '-' ∈ Nat.toDigits 10 b := heq ▸ List.mem_cons_self
    exact absurd (Nat.isDigit_of_mem_toDigits (by decide) (by decide) hsign) (by decide)
  have habs : Nat.toDigits 10 m.natAbs = Nat.toDigits 10 n.natAbs → m.natAbs = n.natAbs := by
    intro heq
    rw [← Nat.ofDigitChars_ten_toDigits (n := m.natAbs), heq, Nat.ofDigitChars_ten_toDigits]
  unfold decimal at h
  split_ifs at h with hm hn hn
  · have := habs (List.cons.inj h).2
    omega
  · exact absurd h (hdigit _ _)
  · exact absurd h.symm (hdigit _ _)
  · have := habs h
    omega

/-! ### Splitting -/

/-- One call of `strtok`: delimiters are skipped, the token runs up to the next
one, and that one is consumed. `none` is the null pointer. -/
def nextToken (delim : Char) (text : CStr) : Option (CStr × CStr) :=
  match text.dropWhile (· == delim) with
  | [] => none
  | c :: cs =>
      some ((c :: cs).takeWhile (· != delim), ((c :: cs).dropWhile (· != delim)).drop 1)

def tokens (delim : Char) (text : CStr) : List CStr :=
  (text.splitOn delim).filter (· ≠ [])

@[simp] theorem tokens_nil (delim : Char) : tokens delim [] = [] := by
  simp [tokens]

@[simp] theorem tokens_cons_delim (delim : Char) (text : CStr) :
    tokens delim (delim :: text) = tokens delim text := by
  simp [tokens, List.splitOn_cons_eq_if_modifyHead]

theorem tokens_dropWhile (delim : Char) (text : CStr) :
    tokens delim (text.dropWhile (· == delim)) = tokens delim text := by
  induction text with
  | nil => rfl
  | cons c cs ih =>
      by_cases hc : c = delim
      · subst hc
        simpa [tokens_cons_delim] using ih
      · simp [hc]

theorem splitOn_eq_takeWhile (delim : Char) (text : CStr) (h : delim ∈ text) :
    text.splitOn delim =
      text.takeWhile (· != delim) :: ((text.dropWhile (· != delim)).drop 1).splitOn delim := by
  induction text with
  | nil => simp at h
  | cons c cs ih =>
      by_cases hc : c = delim
      · subst hc
        simp [List.splitOn_cons_eq_if_modifyHead]
      · have hcs : delim ∈ cs := by
          rcases List.mem_cons.mp h with h | h
          · exact absurd h.symm hc
          · exact h
        rw [List.splitOn_cons_eq_if_modifyHead, ih hcs]
        simp [hc]

theorem delim_notMem_splitOn {delim : Char} {text piece : CStr}
    (h : piece ∈ text.splitOn delim) : delim ∉ piece := by
  induction text generalizing piece with
  | nil => simp_all
  | cons c cs ih =>
      rw [List.splitOn_cons_eq_if_modifyHead] at h
      split at h
      · rcases List.mem_cons.mp h with rfl | h
        · simp
        · exact ih h
      next hc =>
        obtain ⟨first, rest, hsplit⟩ := List.exists_cons_of_ne_nil (List.splitOn_ne_nil delim cs)
        rw [hsplit] at h ih
        rcases List.mem_cons.mp h with rfl | h
        · have hfirst : delim ∉ first := ih (by simp)
          have hne : delim ≠ c := fun heq => hc (by simp [heq])
          simp [hfirst, hne]
        · exact ih (List.mem_cons_of_mem first h)

theorem of_mem_tokens {delim : Char} {text token : CStr} (h : token ∈ tokens delim text) :
    token ≠ [] ∧ delim ∉ token := by
  obtain ⟨hmem, hne⟩ := List.mem_filter.mp h
  exact ⟨by simpa using hne, delim_notMem_splitOn hmem⟩

theorem nextToken_line {delim : Char} {line rest : CStr} (hne : line ≠ [])
    (hline : delim ∉ line) : nextToken delim (line ++ delim :: rest) = some (line, rest) := by
  have htake : ∀ c ∈ line, (c != delim) = true := fun c hc => by
    simpa using fun h : c = delim => hline (h ▸ hc)
  obtain ⟨c, cs, rfl⟩ := List.exists_cons_of_ne_nil hne
  have hhead : (c == delim) = false := by simpa using htake c (by simp)
  have hdrop : (c :: cs ++ delim :: rest).dropWhile (· == delim) = c :: cs ++ delim :: rest := by
    rw [List.cons_append, List.dropWhile_cons_of_neg (by simp [hhead])]
  unfold nextToken
  rw [hdrop, List.cons_append]
  dsimp only
  rw [← List.cons_append, List.takeWhile_append_of_pos htake, List.dropWhile_append_of_pos htake]
  simp

/-- `nextToken` takes the tokens off one by one. -/
theorem tokens_of_nextToken {delim : Char} {text tok rest : CStr}
    (h : nextToken delim text = some (tok, rest)) :
    tokens delim text = tok :: tokens delim rest := by
  rw [← tokens_dropWhile]
  unfold nextToken at h
  cases hd : text.dropWhile (· == delim) with
  | nil => simp [hd] at h
  | cons c cs =>
      have hc : (c == delim) = false := by
        have := List.head?_dropWhile_not (· == delim) text
        simpa [hd] using this
      simp only [hd, Option.some.injEq, Prod.mk.injEq] at h
      obtain ⟨rfl, rfl⟩ := h
      by_cases hmem : delim ∈ c :: cs
      · rw [tokens, splitOn_eq_takeWhile delim _ hmem]
        simp_all [tokens]
      · have htake : (c :: cs).takeWhile (· != delim) = c :: cs :=
          List.takeWhile_eq_self_iff.mpr fun d hdm => by
            simpa using fun hdd : d = delim => hmem (hdd ▸ hdm)
        have hdrop : (c :: cs).dropWhile (· != delim) = [] :=
          List.dropWhile_eq_nil_iff.mpr fun d hdm => by
            simpa using fun hdd : d = delim => hmem (hdd ▸ hdm)
        rw [htake, hdrop, tokens, List.splitOn_eq_singleton hmem]
        simp

theorem nextToken_of_tokens {delim : Char} {text token : CStr} {rest : List CStr}
    (h : tokens delim text = token :: rest) :
    ∃ place, nextToken delim text = some (token, place) ∧ tokens delim place = rest := by
  cases hnext : nextToken delim text with
  | none =>
      have hempty : text.dropWhile (· == delim) = [] := by
        unfold nextToken at hnext
        split at hnext
        · assumption
        · cases hnext
      rw [← tokens_dropWhile, hempty] at h
      simp at h
  | some found =>
      obtain ⟨token', place⟩ := found
      rw [tokens_of_nextToken hnext] at h
      obtain ⟨rfl, rfl⟩ := List.cons.inj h
      exact ⟨place, rfl, rfl⟩

/-! ### Pieces -/

@[simp] theorem length_splitOn (delim : Char) (text : CStr) :
    (text.splitOn delim).length = text.count delim + 1 := by
  induction text with
  | nil => rfl
  | cons c cs ih =>
      rw [List.splitOn_cons_eq_if_modifyHead, List.count_cons]
      split_ifs with hc <;> simp [ih]

@[simp] theorem splitOn_concat_delim (delim : Char) (text : CStr) :
    (text ++ [delim]).splitOn delim = text.splitOn delim ++ [[]] := by
  rw [List.splitOn_append_cons_self, List.splitOn_nil]

theorem eq_concat_delim {delim : Char} {text : CStr} {pieces : List CStr} (hne : pieces ≠ [])
    (h : text.splitOn delim = pieces ++ [[]]) : ∃ stem, text = stem ++ [delim] := by
  have htext : [delim].intercalate (text.splitOn delim) = text := List.intercalate_splitOn delim
  rw [← htext, h]
  clear h htext
  induction pieces with
  | nil => exact absurd rfl hne
  | cons piece rest ih =>
      rw [List.cons_append, List.intercalate_cons_of_ne_nil (by simp)]
      cases rest with
      | nil => exact ⟨piece, by simp⟩
      | cons piece' rest' =>
          obtain ⟨stem, hstem⟩ := ih (by simp)
          exact ⟨piece ++ [delim] ++ stem, by rw [hstem]; simp only [List.append_assoc]⟩

/-- Two texts with one first piece go on alike. -/
theorem append_delim_inj {delim : Char} {piece piece' rest rest' : CStr} (hpiece : delim ∉ piece)
    (hpiece' : delim ∉ piece') (h : piece ++ delim :: rest = piece' ++ delim :: rest') :
    piece = piece' ∧ rest = rest' := by
  have hsplit := congrArg (List.splitOn delim) h
  rw [List.splitOn_append_cons_self_of_not_mem hpiece,
    List.splitOn_append_cons_self_of_not_mem hpiece'] at hsplit
  obtain rfl := (List.cons.inj hsplit).1
  exact ⟨rfl, by simpa using h⟩

theorem length_tokens_iff {delim : Char} {text : CStr} :
    (tokens delim text).length = (text.splitOn delim).length ↔ [] ∉ text.splitOn delim := by
  rw [tokens, List.length_filter_eq_length_iff]
  constructor
  · exact fun h hmem => by simpa using h _ hmem
  · rintro h piece hpiece
    simpa using fun heq : piece = [] => h (heq ▸ hpiece)

theorem tokens_eq_splitOn {delim : Char} {text : CStr} (h : [] ∉ text.splitOn delim) :
    tokens delim text = text.splitOn delim :=
  List.filter_eq_self.mpr fun piece hpiece => by
    simpa using fun heq : piece = [] => h (heq ▸ hpiece)

@[simp] theorem tokens_concat_delim (delim : Char) (text : CStr) :
    tokens delim (text ++ [delim]) = tokens delim text := by
  simp [tokens, splitOn_concat_delim]

theorem splitOn_append_of_notMem {delim : Char} {front piece text : CStr} {ts : List CStr}
    (hfront : delim ∉ front) (h : text.splitOn delim = piece :: ts) :
    (front ++ text).splitOn delim = (front ++ piece) :: ts := by
  induction front with
  | nil => exact h
  | cons c cs ih =>
      obtain ⟨hc, hcs⟩ := List.ne_and_not_mem_of_not_mem_cons hfront
      rw [List.cons_append, List.splitOn_cons_eq_if_modifyHead, ih hcs]
      simp [hc.symm]

/-! ### Lines -/

/-- The pieces of a text that a delimiter ends, and what is left behind the last
one, if there is anything. -/
def linesOf (delim : Char) (text : CStr) : List CStr :=
  let pieces := text.splitOn delim
  if pieces.getLast? = some [] then pieces.dropLast else pieces

theorem flatten_splitOn (delim : Char) (text : CStr) :
    (text.splitOn delim).flatten = text.filter (· ≠ delim) := by
  induction text with
  | nil => rfl
  | cons c cs ih =>
      obtain ⟨first, rest, hsplit⟩ := List.exists_cons_of_ne_nil (List.splitOn_ne_nil delim cs)
      rw [hsplit] at ih
      rw [List.splitOn_cons_eq_if_modifyHead, hsplit]
      by_cases hc : c = delim
      · simpa [hc] using ih
      · simpa [hc] using ih

theorem linesOf_cases (delim : Char) (text : CStr) :
    text.splitOn delim = linesOf delim text ++ [[]] ∨ text.splitOn delim = linesOf delim text := by
  unfold linesOf
  dsimp only
  split_ifs with hlast
  · exact .inl (List.dropLast_append_getLast? [] hlast).symm
  · exact .inr rfl

@[simp] theorem flatten_linesOf (delim : Char) (text : CStr) :
    (linesOf delim text).flatten = text.filter (· ≠ delim) := by
  rw [← flatten_splitOn]
  rcases linesOf_cases delim text with h | h <;> simp [h]

theorem linesOf_eq_nil_iff {delim : Char} {text : CStr} : linesOf delim text = [] ↔ text = [] := by
  constructor
  · intro h
    have htext : [delim].intercalate (text.splitOn delim) = text := List.intercalate_splitOn delim
    rcases linesOf_cases delim text with hsplit | hsplit
    · rw [← htext, hsplit, h]
      rfl
    · exact absurd (hsplit.trans h) (List.splitOn_ne_nil delim text)
  · rintro rfl
    rfl

/-- The tokens are the lines that are not empty. -/
theorem tokens_eq_filter_linesOf (delim : Char) (text : CStr) :
    tokens delim text = (linesOf delim text).filter (· ≠ []) := by
  rw [tokens]
  rcases linesOf_cases delim text with h | h <;> simp [h]

theorem tokens_eq_linesOf_iff {delim : Char} {text : CStr} :
    tokens delim text = linesOf delim text ↔ [] ∉ linesOf delim text := by
  rw [tokens_eq_filter_linesOf, List.filter_eq_self]
  constructor
  · exact fun h hmem => by simpa using h _ hmem
  · rintro h line hline
    simpa using fun heq : line = [] => h (heq ▸ hline)

theorem tokens_of_notMem {delim : Char} {text : CStr} (h : delim ∉ text) :
    tokens delim text = if text = [] then [] else [text] := by
  rw [tokens, List.splitOn_eq_singleton h]
  split_ifs with hnil <;> simp [hnil]

@[simp] theorem flatten_tokens (delim : Char) (text : CStr) :
    (tokens delim text).flatten = text.filter (· ≠ delim) := by
  rw [tokens, ← flatten_splitOn, List.flatten_filter_ne_nil]

end SmtpProj.Lib
