import SmtpProj.Server.Pattern

/-!
What the line patterns capture.

An argument is captured by `(.+?)`, between a keyword and the end of the line.
Whatever the lazy repetition and the optional brackets around it do, the
capture is never empty and holds no newline. The address pattern splits a text
without newline at an `@` and loses nothing of it.
-/

namespace SmtpProj.Server

open Lib Lib.Regex

def PatternType.takesArgument : PatternType → Bool
  | .ptVrfy | .ptHelo | .ptEhlo | .ptMail | .ptRcpt => true
  | _ => false

def PatternType.opening (type : PatternType) : List (Regex Char) :=
  type.keyword.map cls ++
    match type with
    | .ptMail => [.one isSpace, cls "Ff", cls "Rr", cls "Oo", cls "Mm", cls ":", .opt isSpace,
        optCls "<"]
    | .ptRcpt => [.one isSpace, cls "Tt", cls "Oo", cls ":", .opt isSpace, optCls "<"]
    | _ => [cls " "]

def PatternType.closing : PatternType → List (Regex Char)
  | .ptMail | .ptRcpt => optCls ">" :: lineEnd
  | _ => lineEnd

theorem patternInit_argument {type : PatternType} (htype : type.takesArgument = true) :
    patternInit type = some (seqs (bol :: (type.opening ++ argument 1 :: type.closing))) := by
  cases type <;> first | rfl | cases htype

theorem opening_plain {type : PatternType} (htype : type.takesArgument = true) :
    ∀ r ∈ type.opening, r.plain = true := by
  cases type <;> first | (cases htype; done) |
    (simp [PatternType.opening, PatternType.keyword, cls, optCls, plain])

theorem closing_plain {type : PatternType} : ∀ r ∈ type.closing, r.plain = true := by
  cases type <;> simp [PatternType.closing, optCls, eol, plain]

theorem mem_results_of_exec {r : Regex Char} {rs : List (Regex Char)} {buf : CStr}
    {cur : Cursor Char} (h : (seqs (bol :: r :: rs)).exec buf = some cur) :
    cur ∈ (seqs (r :: rs)).results ⟨0, buf, []⟩ := by
  rw [exec_bol] at h
  exact List.mem_of_mem_head? h

theorem forall_dot_iff {text : CStr} : (∀ c ∈ text, dot c = true) ↔ '\n' ∉ text := by
  constructor
  · intro h hnl
    exact absurd (h _ hnl) (by decide)
  · rintro h c hc
    have hne : c ≠ '\n' := fun heq => h (heq ▸ hc)
    simp [dot, hne]

/-- An argument is not empty, and is a part of one line. -/
theorem patternCompute_argument {type : PatternType} {buf : CStr} {content : Option CStr}
    (htype : type.takesArgument = true) (h : patternCompute type buf = some content) :
    ∃ arg, content = some arg ∧ arg ≠ [] ∧ '\n' ∉ arg ∧ arg <:+: buf := by
  rw [patternCompute, patternInit_argument htype, Option.bind_some, Option.map_eq_some_iff] at h
  obtain ⟨cur, hexec, rfl⟩ := h
  obtain ⟨r, rs, hrs⟩ := List.exists_cons_of_ne_nil
    (show type.opening ++ argument 1 :: type.closing ≠ [] by simp)
  rw [hrs] at hexec
  have hmem := mem_results_of_exec hexec
  rw [← hrs] at hmem
  obtain ⟨arg, hcaps, harg, hdot, hinfix⟩ :=
    argument_of_mem (opening_plain htype) closing_plain hmem
  exact ⟨arg, by simp [Cursor.capture, hcaps], harg, forall_dot_iff.mp hdot, hinfix⟩

theorem patternScan_argument {type : PatternType} {buf : CStr} {content : Option CStr}
    (htype : type.takesArgument = true) (h : patternScan buf = (type, content)) :
    ∃ arg, content = some arg ∧ arg ≠ [] ∧ '\n' ∉ arg ∧ arg <:+: buf := by
  rcases patternScan_cases buf with ⟨type', content', -, hscan, hmatch⟩ |
    ⟨-, -, _, hscan⟩ | ⟨-, -, _, hscan⟩ <;> rw [h] at hscan <;> cases hscan
  · exact patternCompute_argument htype hmatch
  · cases htype
  · cases htype

/-- What is known of a captured argument. -/
theorem patternScan_some {type : PatternType} {buf arg : CStr}
    (htype : type.takesArgument = true) (h : patternScan buf = (type, some arg)) :
    arg ≠ [] ∧ '\n' ∉ arg ∧ arg <:+: buf := by
  obtain ⟨_, heq, harg⟩ := patternScan_argument htype h
  cases heq
  exact harg

theorem ne_nil_of_patternScan_some {type : PatternType} {buf arg : CStr}
    (htype : type.takesArgument = true) (h : patternScan buf = (type, some arg)) : buf ≠ [] := by
  obtain ⟨hne, -, hinfix⟩ := patternScan_some htype h
  rintro rfl
  exact hne (List.eq_nil_of_infix_nil hinfix)

/-! ### Addresses -/

@[simp] theorem mem_results_eol {newline : Char} {cur cur' : Cursor Char} :
    cur' ∈ (eol newline).results cur ↔
      (cur.rest = [] ∨ cur.rest = [newline]) ∧ cur' = cur := by
  simp [eol, results_look]

theorem mem_results_email {s : CStr} {cur : Cursor Char} :
    cur ∈ (seqs [argument 1, cls "@", argument 2, eol '\n']).results ⟨0, s, []⟩ ↔
      ∃ username domain rest, s = username ++ '@' :: (domain ++ rest) ∧ username ≠ [] ∧
        domain ≠ [] ∧ '\n' ∉ username ∧ '\n' ∉ domain ∧ (rest = [] ∨ rest = ['\n']) ∧
        cur = ⟨username.length + 1 + domain.length, rest, [(2, domain), (1, username)]⟩ := by
  simp only [argument, cls, mem_results_seqs_cons, mem_results_argument, mem_results_one,
    mem_results_eol, forall_dot_iff]
  constructor
  · rintro ⟨_, ⟨username, s₁, rfl, huser, hu, rfl⟩, _, ⟨c, s₂, rfl, hc, rfl⟩,
      _, ⟨domain, rest, rfl, hdom, hd, rfl⟩, _, ⟨hrest, rfl⟩, hend⟩
    obtain rfl : c = '@' := by simpa using hc
    obtain rfl : cur = _ := by simpa [seqs] using hend
    exact ⟨username, domain, rest, rfl, huser, hdom, hu, hd, hrest, by simp⟩
  · rintro ⟨username, domain, rest, rfl, huser, hdom, hu, hd, hrest, rfl⟩
    refine ⟨_, ⟨username, _, rfl, huser, hu, rfl⟩, _, ⟨'@', _, rfl, rfl, rfl⟩,
      _, ⟨domain, rest, rfl, hdom, hd, rfl⟩, _, ⟨hrest, rfl⟩, ?_⟩
    simp [seqs]

/-- The two halves of an address make it up. -/
theorem patternEmail_eq_some {buf username domain : CStr} (hbuf : '\n' ∉ buf)
    (h : patternEmail buf = some (username, domain)) :
    buf = username ++ '@' :: domain ∧ username ≠ [] ∧ domain ≠ [] := by
  simp only [patternEmail, patternInit, Option.bind_some, Option.bind_eq_some_iff] at h
  obtain ⟨cur, hexec, h⟩ := h
  obtain ⟨username', domain', rest, hs, huser, hdom, -, -, hrest, rfl⟩ :=
    mem_results_email.mp (mem_results_of_exec hexec)
  simp [Cursor.capture] at h
  obtain ⟨rfl, rfl⟩ := h
  have hrest : rest = [] := by
    rcases hrest with h | rfl
    · exact h
    · exact absurd (by simp [hs]) hbuf
  exact ⟨by simpa [hrest] using hs, huser, hdom⟩

theorem patternEmail_isSome {username domain : CStr} (huser : username ≠ []) (hdom : domain ≠ [])
    (hu : '\n' ∉ username) (hd : '\n' ∉ domain) :
    (patternEmail (username ++ '@' :: domain)).isSome = true := by
  have hmem : (⟨username.length + 1 + domain.length, [], [(2, domain), (1, username)]⟩ :
      Cursor Char) ∈ (seqs [argument 1, cls "@", argument 2, eol '\n']).results
        ⟨0, username ++ '@' :: domain, []⟩ :=
    mem_results_email.mpr ⟨username, domain, [], by simp, huser, hdom, hu, hd, .inl rfl, rfl⟩
  have hne : (seqs [bol, argument 1, cls "@", argument 2, eol '\n']).exec
      (username ++ '@' :: domain) ≠ none := by
    rw [Ne, exec_bol_eq_none_iff]
    exact List.ne_nil_of_mem hmem
  obtain ⟨cur, hexec⟩ := Option.ne_none_iff_exists'.mp hne
  obtain ⟨username', domain', rest, -, -, -, -, -, -, rfl⟩ :=
    mem_results_email.mp (mem_results_of_exec hexec)
  simp [patternEmail, patternInit, hexec, Cursor.capture]

end SmtpProj.Server
