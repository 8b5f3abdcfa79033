import Mathlib.Data.List.Forall2
import SmtpProj.Lib.CString
import SmtpProj.Lib.Regex

/-!
The line patterns of the server (`pattern.c`) and the scan that classifies a
received chunk with them.

The patterns are the expressions of `pattern_init`, written in the syntax of
`Lib.Regex`. Compilation of a constant expression is taken to succeed, so
`patterns.re` holds them all; the entry of `PT_START` is never set, and the
match on it fails.
-/

namespace SmtpProj.Server

open Lib Lib.Regex

inductive PatternType
  | ptStart
  | ptQuit | ptRset | ptVrfy | ptHelo | ptEhlo | ptMail | ptRcpt | ptData | ptDataEnd | ptDataRecv
  | ptEmail
  | ptEnd
  deriving DecidableEq, Repr

def cls (chars : String) : Regex Char := .one fun c => chars.toList.contains c

def optCls (chars : String) : Regex Char := .opt fun c => chars.toList.contains c

def dot (c : Char) : Bool := c != '\n'

/-- `(.+?)`, the group every argument is captured by. -/
def argument (n : ℕ) : Regex Char := .group n (.lazyPlus dot)

/-- The end every line pattern shares: `[\r\n]?$`. -/
abbrev lineEnd : List (Regex Char) := [optCls "\r\n", eol '\n']

def patternInit : PatternType → Option (Regex Char)
  | .ptQuit => some <| seqs <|
      [bol, cls "Qq", cls "Uu", cls "Ii", cls "Tt"] ++ lineEnd
  | .ptRset => some <| seqs <|
      [bol, cls "Rr", cls "Ss", cls "Ee", cls "Tt"] ++ lineEnd
  | .ptVrfy => some <| seqs <|
      [bol, cls "Vv", cls "Rr", cls "Ff", cls "Yy", cls " ", argument 1] ++ lineEnd
  | .ptHelo => some <| seqs <|
      [bol, cls "Hh", cls "Ee", cls "Ll", cls "Oo", cls " ", argument 1] ++ lineEnd
  | .ptEhlo => some <| seqs <|
      [bol, cls "Ee", cls "Hh", cls "Ll", cls "Oo", cls " ", argument 1] ++ lineEnd
  | .ptMail => some <| seqs <|
      [bol, cls "Mm", cls "Aa", cls "Ii", cls "Ll", .one isSpace,
        cls "Ff", cls "Rr", cls "Oo", cls "Mm", cls ":", .opt isSpace,
        optCls "<", argument 1, optCls ">"] ++ lineEnd
  | .ptRcpt => some <| seqs <|
      [bol, cls "Rr", cls "Cc", cls "Pp", cls "Tt", .one isSpace,
        cls "Tt", cls "Oo", cls ":", .opt isSpace,
        optCls "<", argument 1, optCls ">"] ++ lineEnd
  | .ptData => some <| seqs <|
      [bol, cls "Dd", cls "Aa", cls "Tt", cls "Aa"] ++ lineEnd
  | .ptDataEnd => some <| seqs <|
      [bol, optCls "\r\n", cls "."] ++ lineEnd
  | .ptDataRecv => some <| .group 1 (.star dot)
  | .ptEmail => some <| seqs
      [bol, argument 1, cls "@", argument 2, eol '\n']
  | .ptStart | .ptEnd => none

/-- `pattern_compute`: `none` is the return value -1, and the inner option is
what `pcre_get_substring` leaves for the first group, which not every pattern
has. -/
def patternCompute (type : PatternType) (buf : CStr) : Option (Option CStr) :=
  (patternInit type).bind fun re => (re.exec buf).map fun cur => cur.capture 1

def patternEmail (buf : CStr) : Option (CStr × CStr) :=
  (patternInit .ptEmail).bind fun re => (re.exec buf).bind fun cur =>
    match cur.capture 1, cur.capture 2 with
    | some username, some domain => some (username, domain)
    | _, _ => none

def scanOrder : List PatternType :=
  [.ptStart, .ptQuit, .ptRset, .ptVrfy, .ptHelo, .ptEhlo, .ptMail, .ptRcpt, .ptData, .ptDataEnd,
    .ptDataRecv, .ptEmail]

/-- The scan: the first type that matches and what it captured. -/
def patternScan (buf : CStr) : PatternType × Option CStr :=
  (scanOrder.findSome? fun type => (patternCompute type buf).map (type, ·)).getD (.ptEnd, none)

/-- The command line patterns, which all begin with a keyword. -/
def PatternType.isKeyword : PatternType → Bool
  | .ptQuit | .ptRset | .ptVrfy | .ptHelo | .ptEhlo | .ptMail | .ptRcpt | .ptData => true
  | _ => false

def PatternType.keyword : PatternType → List String
  | .ptQuit => ["Qq", "Uu", "Ii", "Tt"]
  | .ptRset => ["Rr", "Ss", "Ee", "Tt"]
  | .ptVrfy => ["Vv", "Rr", "Ff", "Yy"]
  | .ptHelo => ["Hh", "Ee", "Ll", "Oo"]
  | .ptEhlo => ["Ee", "Hh", "Ll", "Oo"]
  | .ptMail => ["Mm", "Aa", "Ii", "Ll"]
  | .ptRcpt => ["Rr", "Cc", "Pp", "Tt"]
  | .ptData => ["Dd", "Aa", "Tt", "Aa"]
  | _ => []

def Spells (word : List String) (text : CStr) : Prop :=
  List.Forall₂ (fun chars c => c ∈ chars.toList) word text

def lineTails : List CStr := [[], ['\n'], ['\r'], ['\r', '\n'], ['\n', '\n']]

/-- A line that holds a single dot: at most one line end character before it,
and a line end behind it. -/
def LoneDot (buf : CStr) : Prop :=
  ∃ before ∈ ([[], ['\r'], ['\n']] : List CStr), ∃ tail ∈ lineTails, buf = before ++ '.' :: tail

instance : DecidablePred LoneDot := fun _ => by
  unfold LoneDot
  infer_instance

theorem length_of_mem_lineTails {tail : CStr} (h : tail ∈ lineTails) : tail.length ≤ 2 := by
  simp only [lineTails, List.mem_cons, List.not_mem_nil, or_false] at h
  rcases h with rfl | rfl | rfl | rfl | rfl <;> simp

/-! ### What each pattern can match -/

theorem patternCompute_eq_none_iff {type : PatternType} {re : Regex Char} {buf : CStr}
    (h : patternInit type = some re) : patternCompute type buf = none ↔ re.exec buf = none := by
  simp [patternCompute, h]

theorem results_lineEnd_ne_nil {i : ℕ} {s : CStr} {caps : List (ℕ × CStr)} :
    (seqs lineEnd).results ⟨i, s, caps⟩ ≠ [] ↔ s ∈ lineTails := by
  rw [lineEnd, optCls, results_seqs_opt_ne_nil]
  rcases s with _ | ⟨c, _ | ⟨d, _ | ⟨e, s⟩⟩⟩ <;> simp [lineTails, eol] <;>
    grind

theorem patternCompute_dataEnd_ne_none {buf : CStr} :
    patternCompute .ptDataEnd buf ≠ none ↔ LoneDot buf := by
  rw [Ne, patternCompute_eq_none_iff rfl]
  simp only [List.cons_append, List.nil_append, optCls, cls, exec_bol_eq_none_iff]
  rw [← Ne, results_seqs_opt_ne_nil]
  simp only [results_seqs_one_ne_nil, results_lineEnd_ne_nil]
  constructor
  · rintro (⟨c, cs, rfl, hc, d, ds, rfl, hd, hds⟩ | ⟨d, ds, rfl, hd, hds⟩)
    · have hd : d = '.' := by simpa using hd
      subst hd
      exact ⟨[c], by simpa using hc, ds, hds, rfl⟩
    · have hd : d = '.' := by simpa using hd
      subst hd
      exact ⟨[], by simp, ds, hds, rfl⟩
  · rintro ⟨before, hbefore, tail, htail, rfl⟩
    rcases before with _ | ⟨c, _ | ⟨c', cs⟩⟩
    · exact .inr ⟨'.', tail, rfl, by simp, htail⟩
    · exact .inl ⟨c, '.' :: tail, rfl, by simpa using hbefore, '.', tail, rfl, by simp, htail⟩
    · simp at hbefore

theorem results_word_ne_nil {word : List String} {r : Regex Char} {rs : List (Regex Char)} {i : ℕ}
    {s : CStr} {caps : List (ℕ × CStr)} :
    (seqs (word.map cls ++ r :: rs)).results ⟨i, s, caps⟩ ≠ [] ↔
      ∃ text rest, s = text ++ rest ∧ Spells word text ∧
        (seqs (r :: rs)).results ⟨i + word.length, rest, caps⟩ ≠ [] := by
  induction word generalizing i s with
  | nil => simp [Spells, List.forall₂_nil_left_iff]
  | cons chars word ih =>
      have hcons : (chars :: word).map cls ++ r :: rs = cls chars :: (word.map cls ++ r :: rs) :=
        rfl
      obtain ⟨r', rs', hrest⟩ : ∃ r' rs', word.map cls ++ r :: rs = r' :: rs' := by
        cases word <;> exact ⟨_, _, rfl⟩
      rw [hcons, hrest, cls, results_seqs_one_ne_nil]
      simp only [← hrest, ih, List.contains_iff_mem]
      constructor
      · rintro ⟨c, cs, rfl, hc, text, rest, rfl, hspells, hresults⟩
        exact ⟨c :: text, rest, rfl, .cons hc hspells,
          by simpa [Nat.add_assoc, Nat.add_comm 1] using hresults⟩
      · rintro ⟨text, rest, rfl, hspells, hresults⟩
        cases hspells with
        | @cons _ c _ text hc hspells =>
            exact ⟨c, text ++ rest, rfl, hc, text, rest, rfl, hspells,
              by simpa [Nat.add_assoc, Nat.add_comm 1] using hresults⟩

/-- A keyword pattern only matches a line that begins with the keyword. -/
theorem keyword_of_match {type : PatternType} {buf : CStr} (htype : type.isKeyword = true)
    (h : patternCompute type buf ≠ none) :
    ∃ text rest, buf = text ++ rest ∧ Spells type.keyword text := by
  have hword : ∀ chars word r rs,
      patternInit type = some (seqs (bol :: ((chars :: word).map cls ++ r :: rs))) →
      ∃ text rest, buf = text ++ rest ∧ Spells (chars :: word) text := by
    intro chars word r rs hinit
    rw [Ne, patternCompute_eq_none_iff hinit, List.map_cons, List.cons_append,
      exec_bol_eq_none_iff, ← List.cons_append, ← List.map_cons] at h
    obtain ⟨text, rest, hbuf, hspells, -⟩ := results_word_ne_nil.mp h
    exact ⟨text, rest, hbuf, hspells⟩
  cases type <;> simp [PatternType.isKeyword] at htype <;> exact hword _ _ _ _ rfl

theorem length_of_bare_match {type : PatternType} {buf : CStr}
    (htype : type = .ptQuit ∨ type = .ptRset ∨ type = .ptData)
    (h : patternCompute type buf ≠ none) : buf.length ≤ 6 := by
  have hword : ∀ a b c d,
      patternInit type = some (seqs (bol :: ([a, b, c, d].map cls ++ lineEnd))) →
      buf.length ≤ 6 := by
    intro a b c d hinit
    rw [Ne, patternCompute_eq_none_iff hinit, List.map_cons, List.cons_append,
      exec_bol_eq_none_iff, ← List.cons_append, ← List.map_cons] at h
    obtain ⟨text, rest, rfl, hspells, hend⟩ := results_word_ne_nil.mp h
    have htext : text.length = 4 := hspells.length_eq.symm
    have hrest : rest.length ≤ 2 := length_of_mem_lineTails (results_lineEnd_ne_nil.mp hend)
    rw [List.length_append]
    omega
  rcases htype with rfl | rfl | rfl <;> exact hword _ _ _ _ rfl

theorem patternCompute_dataRecv_ne_none (buf : CStr) : patternCompute .ptDataRecv buf ≠ none := by
  rw [Ne, patternCompute_eq_none_iff rfl]
  have hne : (Regex.group 1 (.star dot)).results (Cursor.start 0 buf) ≠ [] := by
    simp [results, greedy_ne_nil]
  obtain ⟨cur, l, hl⟩ := List.exists_cons_of_ne_nil hne
  rw [exec_eq_of_head cur (by rw [hl]; rfl)]
  simp

/-! ### What the scan decides -/

def NoKeyword (buf : CStr) : Prop :=
  ∀ type : PatternType, type.isKeyword = true → patternCompute type buf = none

/-- The scan stops at a keyword pattern that matches, else at the lone dot,
else at the pattern that accepts everything. -/
theorem patternScan_cases (buf : CStr) :
    (∃ type content, type.isKeyword = true ∧ patternScan buf = (type, content) ∧
        patternCompute type buf = some content) ∨
      (NoKeyword buf ∧ LoneDot buf ∧ ∃ content, patternScan buf = (.ptDataEnd, content)) ∨
      (NoKeyword buf ∧ ¬LoneDot buf ∧ ∃ content, patternScan buf = (.ptDataRecv, content)) := by
  let keywords : List PatternType :=
    [.ptQuit, .ptRset, .ptVrfy, .ptHelo, .ptEhlo, .ptMail, .ptRcpt, .ptData]
  let f := fun type => (patternCompute type buf).map (type, ·)
  have horder : scanOrder =
      .ptStart :: (keywords ++ [.ptDataEnd, .ptDataRecv, .ptEmail]) := rfl
  have hstart : f .ptStart = none := rfl
  have hscan : patternScan buf =
      ((keywords.findSome? f).or
        ([.ptDataEnd, .ptDataRecv, .ptEmail].findSome? f)).getD (.ptEnd, none) := by
    rw [patternScan, horder, List.findSome?_cons, show (patternCompute .ptStart buf).map
      (PatternType.ptStart, ·) = none from hstart, List.findSome?_append]
  cases hkey : keywords.findSome? f with
  | some found =>
      left
      obtain ⟨type, hmem, hfound⟩ := List.exists_of_findSome?_eq_some hkey
      obtain ⟨content, hcontent, rfl⟩ := Option.map_eq_some_iff.mp hfound
      refine ⟨type, content, ?_, by simp [hscan, hkey], hcontent⟩
      simp only [keywords, List.mem_cons, List.not_mem_nil, or_false] at hmem
      rcases hmem with rfl | rfl | rfl | rfl | rfl | rfl | rfl | rfl <;> rfl
  | none =>
      right
      have hno : NoKeyword buf := by
        intro type htype
        have hmem : type ∈ keywords := by
          cases type <;> simp [PatternType.isKeyword] at htype <;> simp [keywords]
        simpa [f] using List.findSome?_eq_none_iff.mp hkey type hmem
      by_cases hdot : LoneDot buf
      · left
        obtain ⟨content, hcontent⟩ :=
          Option.ne_none_iff_exists'.mp (patternCompute_dataEnd_ne_none.mpr hdot)
        exact ⟨hno, hdot, content, by simp [hscan, hkey, f, hcontent]⟩
      · right
        have hend : patternCompute .ptDataEnd buf = none := by
          by_contra h
          exact hdot (patternCompute_dataEnd_ne_none.mp h)
        obtain ⟨content, hcontent⟩ :=
          Option.ne_none_iff_exists'.mp (patternCompute_dataRecv_ne_none buf)
        exact ⟨hno, hdot, content, by simp [hscan, hkey, f, hend, hcontent]⟩

/-- The scan never leaves the range from `PT_QUIT` to `PT_DATA_RECV`. -/
theorem patternScan_range (buf : CStr) :
    (patternScan buf).1.isKeyword = true ∨ (patternScan buf).1 = .ptDataEnd ∨
      (patternScan buf).1 = .ptDataRecv := by
  rcases patternScan_cases buf with ⟨type, content, htype, hscan, -⟩ | ⟨-, -, _, hscan⟩ |
    ⟨-, -, _, hscan⟩ <;> simp_all

theorem patternScan_eq_dataRecv_iff {buf : CStr} :
    (patternScan buf).1 = .ptDataRecv ↔ NoKeyword buf ∧ ¬LoneDot buf := by
  rcases patternScan_cases buf with ⟨type, content, htype, hscan, hmatch⟩ |
    ⟨hno, hdot, _, hscan⟩ | ⟨hno, hdot, _, hscan⟩
  · have hno : ¬NoKeyword buf := fun h => by simp [h type htype] at hmatch
    simp only [hscan, hno, false_and, iff_false]
    rintro rfl
    simp [PatternType.isKeyword] at htype
  · simp [hscan, hdot]
  · simp [hscan, hno, hdot]

theorem patternScan_eq_dataEnd_iff {buf : CStr} :
    (patternScan buf).1 = .ptDataEnd ↔ NoKeyword buf ∧ LoneDot buf := by
  rcases patternScan_cases buf with ⟨type, content, htype, hscan, hmatch⟩ |
    ⟨hno, hdot, _, hscan⟩ | ⟨hno, hdot, _, hscan⟩
  · have hno : ¬NoKeyword buf := fun h => by simp [h type htype] at hmatch
    simp only [hscan, hno, false_and, iff_false]
    rintro rfl
    simp [PatternType.isKeyword] at htype
  · simp [hscan, hdot, hno]
  · simp [hscan, hdot]

/-- A line shorter than the keywords matches none of them. -/
theorem noKeyword_of_length {buf : CStr} (h : buf.length < 4) : NoKeyword buf := by
  intro type htype
  by_contra hmatch
  obtain ⟨text, rest, rfl, hspells⟩ := keyword_of_match htype hmatch
  have htext : text.length = 4 := by
    rw [← hspells.length_eq]
    cases type <;> simp [PatternType.isKeyword] at htype <;> rfl
  rw [List.length_append] at h
  omega

theorem noKeyword_of_head {buf : CStr} (h : ∀ c, buf.head? = some c → c ∉ "QqRrVvHhEeMmDd".toList) :
    NoKeyword buf := by
  intro type htype
  by_contra hmatch
  obtain ⟨text, rest, rfl, hspells⟩ := keyword_of_match htype hmatch
  cases type <;> simp [PatternType.isKeyword] at htype <;>
    obtain _ | ⟨hc, -⟩ := hspells <;> have := h _ rfl <;> simp_all

theorem LoneDot.mem {buf : CStr} (h : LoneDot buf) : '.' ∈ buf := by
  obtain ⟨before, -, tail, -, rfl⟩ := h
  simp

theorem LoneDot.length_le {buf : CStr} (h : LoneDot buf) : buf.length ≤ 4 := by
  obtain ⟨before, hbefore, tail, htail, rfl⟩ := h
  have hb : before.length ≤ 1 := by
    simp only [List.mem_cons, List.not_mem_nil, or_false] at hbefore
    rcases hbefore with rfl | rfl | rfl <;> simp
  have ht : tail.length ≤ 2 := length_of_mem_lineTails htail
  rw [List.length_append, List.length_cons]
  omega

theorem LoneDot.head {buf : CStr} (h : LoneDot buf) :
    ∃ c, buf.head? = some c ∧ c ∈ ".\r\n".toList := by
  obtain ⟨before, hbefore, tail, -, rfl⟩ := h
  simp only [List.mem_cons, List.not_mem_nil, or_false] at hbefore
  rcases hbefore with rfl | rfl | rfl <;> exact ⟨_, rfl, by decide⟩

theorem loneDot_cons_iff {tail : CStr} : LoneDot ('.' :: tail) ↔ tail ∈ lineTails := by
  constructor
  · rintro ⟨before, hbefore, tail', htail, htext⟩
    simp only [List.mem_cons, List.not_mem_nil, or_false] at hbefore
    rcases hbefore with rfl | rfl | rfl <;> simp at htext
    rwa [htext]
  · intro h
    exact ⟨[], by simp, tail, h, rfl⟩

/-- The second letter of MAIL and RCPT begins no keyword. -/
theorem second_letter_of_match {type : PatternType} {buf : CStr}
    (htype : type = .ptMail ∨ type = .ptRcpt) (h : patternCompute type buf ≠ none) :
    ∃ c d rest, buf = c :: d :: rest ∧ d ∈ "AaCc".toList := by
  have hkey : type.isKeyword = true := by rcases htype with rfl | rfl <;> rfl
  obtain ⟨text, rest, rfl, hspells⟩ := keyword_of_match hkey h
  rcases htype with rfl | rfl <;>
    obtain _ | ⟨-, _ | ⟨hd, -⟩⟩ := hspells <;>
    exact ⟨_, _, _, rfl, by revert hd; simp; tauto⟩

theorem LoneDot.noKeyword {buf : CStr} (h : LoneDot buf) : NoKeyword buf := by
  obtain ⟨before, hbefore, tail, htail, rfl⟩ := h
  refine noKeyword_of_head fun c hc => ?_
  simp only [List.mem_cons, List.not_mem_nil, or_false] at hbefore
  rcases hbefore with rfl | rfl | rfl <;> cases hc <;> decide

example : patternScan "MAIL FROM: <a@b.c>\r\n".toList = (.ptMail, some "a@b.c".toList) := by decide
example : patternEmail "a@b@c".toList = some ("a".toList, "b@c".toList) := by decide
example : patternScan "\r\n.\r\n".toList = (.ptDataRecv, some "\r".toList) := by decide

end SmtpProj.Server
