import SmtpProj.Server.Lines

/-!
What the scan captures of a command line.

Around the argument a pattern has optional parts and a line end that can be
matched in several ways, and the argument itself is lazy. None of them can take
a character of an argument that begins with neither space nor bracket and does
not end with one: the optional parts in front of it are taken if they are
there, and the repetition stops only where the argument does.

Which pattern matches does not depend on the order they are tried in, as no
buffer is matched by two of them before the pattern of the message text.
-/

namespace SmtpProj.Server

open Lib Lib.Regex

/-! ### Which pattern matches -/

def lineTypes : List PatternType :=
  [.ptQuit, .ptRset, .ptVrfy, .ptHelo, .ptEhlo, .ptMail, .ptRcpt, .ptData, .ptDataEnd]

/-- The scan of `protocol_update` with these patterns tried in another order. -/
def scanInOrder (order : List PatternType) (buf : CStr) : PatternType × Option CStr :=
  ((PatternType.ptStart :: (order ++ [.ptDataRecv, .ptEmail])).findSome? fun type =>
    (patternCompute type buf).map (type, ·)).getD (.ptEnd, none)

@[simp] theorem scanInOrder_lineTypes (buf : CStr) :
    scanInOrder lineTypes buf = patternScan buf := by
  have horder : scanOrder = .ptStart :: (lineTypes ++ [.ptDataRecv, .ptEmail]) := rfl
  rw [scanInOrder, patternScan, horder]

theorem mem_lineTypes {type : PatternType} (h : type ∈ lineTypes) :
    type.isKeyword = true ∨ type = .ptDataEnd := by
  cases type <;> simp [lineTypes] at h <;> simp [PatternType.isKeyword]

/-- No buffer is matched by two of the patterns. -/
theorem lineTypes_unique {type type' : PatternType} {buf : CStr} (htype : type ∈ lineTypes)
    (htype' : type' ∈ lineTypes) (h : patternCompute type buf ≠ none)
    (h' : patternCompute type' buf ≠ none) : type' = type := by
  rcases mem_lineTypes htype with hkey | rfl <;> rcases mem_lineTypes htype' with hkey' | rfl
  · exact keyword_unique hkey hkey' h h'
  · exact absurd ((patternCompute_dataEnd_ne_none.mp h').noKeyword type hkey) h
  · exact absurd ((patternCompute_dataEnd_ne_none.mp h).noKeyword type' hkey') h'
  · rfl

/-- The first result of a search does not depend on the order when there is one
result at most. -/
theorem findSome?_perm {α β : Type} {f : α → Option β} {as bs : List α} (hperm : as.Perm bs)
    (huniq : ∀ a ∈ as, ∀ b ∈ as, f a ≠ none → f b ≠ none → b = a) :
    as.findSome? f = bs.findSome? f := by
  cases has : as.findSome? f with
  | none =>
      have hnone := List.findSome?_eq_none_iff.mp has
      exact (List.findSome?_eq_none_iff.mpr fun b hb => hnone b (hperm.mem_iff.mpr hb)).symm
  | some x =>
      obtain ⟨a, ha, hx⟩ := List.exists_of_findSome?_eq_some has
      cases hbs : bs.findSome? f with
      | none =>
          have hnone := List.findSome?_eq_none_iff.mp hbs a (hperm.mem_iff.mp ha)
          rw [hx] at hnone
          cases hnone
      | some y =>
          obtain ⟨b, hb, hy⟩ := List.exists_of_findSome?_eq_some hbs
          obtain rfl := huniq a ha b (hperm.mem_iff.mpr hb) (by simp [hx]) (by simp [hy])
          exact hx.symm.trans hy

theorem scanInOrder_perm {order : List PatternType} (horder : order.Perm lineTypes)
    (buf : CStr) : scanInOrder order buf = patternScan buf := by
  have hsearch := findSome?_perm (f := fun type => (patternCompute type buf).map (type, ·)) horder
    fun type htype type' htype' h h' => lineTypes_unique (horder.mem_iff.mp htype)
      (horder.mem_iff.mp htype') (by simpa using h) (by simpa using h')
  rw [← scanInOrder_lineTypes]
  simp only [scanInOrder, List.findSome?_cons, List.findSome?_append, hsearch]

/-! ### What it captures -/

/-- In front of the text, the preferred match of the parts captures the
argument. -/
def Captures (rs : List (Regex Char)) (text arg : CStr) : Prop :=
  ∀ i, ∃ cur, ((seqs rs).results ⟨i, text, []⟩).head? = some cur ∧ cur.capture 1 = some arg

/-- An argument of which no part of a pattern around it can take a character. -/
structure PlainArgument (arg : CStr) : Prop where
  ne_nil : arg ≠ []
  chars : ∀ c ∈ arg, c ≠ '\r' ∧ c ≠ '\n' ∧ c ≠ nul
  first : ∀ c, arg.head? = some c → isSpace c = false ∧ c ≠ '<'
  last : arg.getLast? ≠ some '>'

def lineEndings : List CStr := [[], ['\n'], ['\r'], ['\r', '\n']]

variable {r : Regex Char} {rs : List (Regex Char)} {p : Char → Bool} {c : Char}
  {arg text rest : CStr}

theorem captures_one (hc : p c = true) (h : Captures (r :: rs) text arg) :
    Captures (.one p :: r :: rs) (c :: text) arg := fun i => by
  rw [results_seqs_one_pos hc]
  exact h (i + 1)

theorem captures_opt_take (hc : p c = true) (h : Captures (r :: rs) text arg) :
    Captures (.opt p :: r :: rs) (c :: text) arg := fun i => by
  obtain ⟨cur, hcur, hcapture⟩ := h (i + 1)
  exact ⟨cur, head_results_seqs_opt hc hcur, hcapture⟩

theorem captures_opt_skip (hc : p c = false) (h : Captures (r :: rs) (c :: text) arg) :
    Captures (.opt p :: r :: rs) (c :: text) arg := fun i => by
  rw [results_seqs_opt_neg hc]
  exact h i

/-- The argument is captured if what is behind it matches there and nowhere
before. -/
theorem captures_argument (hne : arg ≠ []) (hline : '\n' ∉ arg)
    (hplain : ∀ t ∈ r :: rs, t.plain = true)
    (hfirst : ∀ i a b caps, arg = a ++ b → b ≠ [] →
      (seqs (r :: rs)).results ⟨i, b ++ rest, caps⟩ = [])
    (hlast : ∀ i caps, (seqs (r :: rs)).results ⟨i, rest, caps⟩ ≠ []) :
    Captures (argument 1 :: r :: rs) (arg ++ rest) arg := fun i => by
  obtain ⟨cur, ends, hends⟩ := List.exists_cons_of_ne_nil (hlast (i + arg.length) [(1, arg)])
  have hmem : cur ∈ (seqs (r :: rs)).results ⟨i + arg.length, rest, [(1, arg)]⟩ := by
    rw [hends]
    exact List.mem_cons_self
  have hcaps := (plain_results (plain_seqs hplain) hmem).1
  refine ⟨cur, head_results_seqs_argument hne (forall_dot_iff.mpr hline)
    (fun a b hab _ hb => hfirst _ a b _ hab hb) (by rw [hends]; rfl), ?_⟩
  simp [Cursor.capture, hcaps]

theorem lineEndings_subset {ending : CStr} (h : ending ∈ lineEndings) : ending ∈ lineTails := by
  revert ending
  decide

theorem mem_of_mem_lineTails {tail : CStr} (h : tail ∈ lineTails) (hc : c ∈ tail) :
    c = '\r' ∨ c = '\n' := by
  simp only [lineTails, List.mem_cons, List.not_mem_nil, or_false] at h
  rcases h with rfl | rfl | rfl | rfl | rfl <;> simp at hc <;> simp [hc]

theorem PlainArgument.results_lineEnd {a b : CStr} (h : PlainArgument arg) (harg : arg = a ++ b)
    (hb : b ≠ []) (i : ℕ) (caps : List (ℕ × CStr)) :
    (seqs lineEnd).results ⟨i, b ++ rest, caps⟩ = [] := by
  by_contra hmatch
  obtain ⟨c, cs, rfl⟩ := List.exists_cons_of_ne_nil hb
  have hc := mem_of_mem_lineTails (results_lineEnd_ne_nil.mp hmatch) (c := c) (by simp)
  have hplain := h.chars c (by simp [harg])
  exact hc.elim hplain.1 hplain.2.1

theorem PlainArgument.results_closing {a b : CStr} (h : PlainArgument arg) (harg : arg = a ++ b)
    (hb : b ≠ []) (i : ℕ) (caps : List (ℕ × CStr)) :
    (seqs (optCls ">" :: lineEnd)).results ⟨i, b ++ rest, caps⟩ = [] := by
  by_contra hmatch
  rcases results_seqs_opt_ne_nil.mp hmatch with ⟨c, cs, heq, hc, hend⟩ | hend
  · obtain ⟨d, ds, rfl⟩ := List.exists_cons_of_ne_nil hb
    obtain ⟨rfl, rfl⟩ := List.cons.inj heq
    obtain rfl : d = '>' := by simpa using hc
    cases ds with
    | nil => exact h.last (by simp [harg])
    | cons d ds =>
        exact hend (h.results_lineEnd (a := a ++ ['>']) (by simp [harg]) (by simp) _ _)
  · exact hend (h.results_lineEnd harg hb _ _)

/-- The argument of HELO, EHLO and VRFY. -/
theorem PlainArgument.captures_line {ending : CStr} (h : PlainArgument arg)
    (hending : ending ∈ lineEndings) :
    Captures (argument 1 :: lineEnd) (arg ++ ending) arg :=
  captures_argument h.ne_nil (fun hnl => (h.chars _ hnl).2.1 rfl) (by simp [optCls, eol, plain])
    (fun i _ _ caps harg hb => h.results_lineEnd harg hb i caps)
    fun _ _ => results_lineEnd_ne_nil.mpr (lineEndings_subset hending)

theorem PlainArgument.captures_closing {after ending : CStr} (h : PlainArgument arg)
    (hafter : after = [] ∨ after = ['>']) (hending : ending ∈ lineEndings) :
    Captures (argument 1 :: optCls ">" :: lineEnd) (arg ++ (after ++ ending)) arg := by
  have hend : ∀ i caps, (seqs lineEnd).results ⟨i, ending, caps⟩ ≠ [] := fun _ _ =>
    results_lineEnd_ne_nil.mpr (lineEndings_subset hending)
  refine captures_argument h.ne_nil (fun hnl => (h.chars _ hnl).2.1 rfl)
    (by simp [optCls, eol, plain]) (fun i _ _ caps harg hb => h.results_closing harg hb i caps)
    fun i caps => results_seqs_opt_ne_nil.mpr ?_
  rcases hafter with rfl | rfl
  · exact .inr (hend i caps)
  · exact .inl ⟨'>', ending, rfl, by decide, hend _ _⟩

/-- The argument of MAIL and RCPT, behind the colon. -/
theorem PlainArgument.captures_address {space before after ending : CStr} (h : PlainArgument arg)
    (hspace : space = [] ∨ space = [' '])
    (hbrackets : before = [] ∧ after = [] ∨ before = ['<'] ∧ after = ['>'])
    (hending : ending ∈ lineEndings) :
    Captures (.opt isSpace :: optCls "<" :: argument 1 :: optCls ">" :: lineEnd)
      (space ++ (before ++ (arg ++ (after ++ ending)))) arg := by
  have hafter : after = [] ∨ after = ['>'] := hbrackets.imp And.right And.right
  have hclosing := h.captures_closing hafter hending
  obtain ⟨c, cs, harg⟩ := List.exists_cons_of_ne_nil h.ne_nil
  obtain ⟨hspace_c, hbracket_c⟩ := h.first c (by rw [harg]; rfl)
  have hopening : Captures (optCls "<" :: argument 1 :: optCls ">" :: lineEnd)
      (before ++ (arg ++ (after ++ ending))) arg := by
    rcases hbrackets with ⟨rfl, -⟩ | ⟨rfl, -⟩
    · rw [harg] at hclosing ⊢
      exact captures_opt_skip (by simpa using hbracket_c) hclosing
    · exact captures_opt_take (by decide) hclosing
  -- neither the bracket nor the argument begins with a space
  obtain ⟨d, ds, hstart, hd⟩ : ∃ d ds, before ++ (arg ++ (after ++ ending)) = d :: ds ∧
      isSpace d = false := by
    rcases hbrackets with ⟨rfl, -⟩ | ⟨rfl, -⟩
    · exact ⟨c, _, by rw [harg]; rfl, hspace_c⟩
    · exact ⟨'<', _, rfl, by decide⟩
  rw [hstart] at hopening ⊢
  rcases hspace with rfl | rfl
  · exact captures_opt_skip hd hopening
  · exact captures_opt_take (by decide) hopening

theorem captures_spaced {word : List String} (hword : Spells word text)
    (h : Captures (r :: rs) rest arg) :
    Captures (.one isSpace :: (word.map cls ++ r :: rs)) (' ' :: (text ++ rest)) arg := fun i => by
  obtain ⟨cur, hcur, hcapture⟩ := h (i + 1 + word.length)
  exact ⟨cur, head_results_spaced hword hcur, hcapture⟩

theorem patternScan_of_captures {type : PatternType} (htype : type.isKeyword = true)
    (hinit : patternInit type = some (seqs (bol :: (type.keyword.map cls ++ r :: rs))))
    (htext : Spells type.keyword text) (h : Captures (r :: rs) rest arg) :
    patternScan (text ++ rest) = (type, some arg) := by
  obtain ⟨cur, hcur, hcapture⟩ := h type.keyword.length
  rw [patternScan_of_keyword htype hinit htext hcur, hcapture]

/-- The lines that carry an argument, in any letter case and with any ending: a
space in front of it, or the colon, a space or none, and brackets or none. -/
inductive ArgumentLine (arg : CStr) : PatternType → CStr → Prop
  | hello {type : PatternType} {word ending : CStr}
      (htype : type = .ptHelo ∨ type = .ptEhlo ∨ type = .ptVrfy)
      (hword : Spells type.keyword word) (hending : ending ∈ lineEndings) :
      ArgumentLine arg type (word ++ ' ' :: (arg ++ ending))
  | mail {word sender space before after ending : CStr}
      (hword : Spells ["Mm", "Aa", "Ii", "Ll"] word)
      (hsender : Spells ["Ff", "Rr", "Oo", "Mm", ":"] sender) (hspace : space = [] ∨ space = [' '])
      (hbrackets : before = [] ∧ after = [] ∨ before = ['<'] ∧ after = ['>'])
      (hending : ending ∈ lineEndings) :
      ArgumentLine arg .ptMail
        (word ++ ' ' :: (sender ++ (space ++ (before ++ (arg ++ (after ++ ending))))))
  | rcpt {word recipient space before after ending : CStr}
      (hword : Spells ["Rr", "Cc", "Pp", "Tt"] word)
      (hrecipient : Spells ["Tt", "Oo", ":"] recipient) (hspace : space = [] ∨ space = [' '])
      (hbrackets : before = [] ∧ after = [] ∨ before = ['<'] ∧ after = ['>'])
      (hending : ending ∈ lineEndings) :
      ArgumentLine arg .ptRcpt
        (word ++ ' ' :: (recipient ++ (space ++ (before ++ (arg ++ (after ++ ending))))))

theorem PlainArgument.patternScan_line {type : PatternType} {line : CStr} (h : PlainArgument arg)
    (hline : ArgumentLine arg type line) : patternScan line = (type, some arg) := by
  cases hline with
  | hello htype hword hending =>
      have hspaced := captures_one (p := fun c => " ".toList.contains c) (c := ' ') (by decide)
        (h.captures_line hending)
      rcases htype with rfl | rfl | rfl <;>
        exact patternScan_of_captures rfl rfl hword hspaced
  | mail hword hsender hspace hbrackets hending =>
      exact patternScan_of_captures rfl rfl hword
        (captures_spaced hsender (h.captures_address hspace hbrackets hending))
  | rcpt hword hrecipient hspace hbrackets hending =>
      exact patternScan_of_captures rfl rfl hword
        (captures_spaced hrecipient (h.captures_address hspace hbrackets hending))

/-- A line with an argument is classified by its keyword and captured without
anything around it; and the order of the patterns does not matter, as no buffer
is matched by two of them. -/
theorem arguments_extracted :
    (∀ arg type line, PlainArgument arg → ArgumentLine arg type line →
      patternScan line = (type, some arg)) ∧
    (∀ buf, ∀ type ∈ lineTypes, ∀ type' ∈ lineTypes, patternCompute type buf ≠ none →
      patternCompute type' buf ≠ none → type' = type) ∧
    ∀ order : List PatternType, order.Perm lineTypes →
      ∀ buf, scanInOrder order buf = patternScan buf :=
  ⟨fun _ _ _ harg hline => harg.patternScan_line hline,
    fun _ _ htype _ htype' h h' => lineTypes_unique htype htype' h h',
    fun _ horder buf => scanInOrder_perm horder buf⟩

theorem arguments_extracted_sender :
    patternScan "mail From:<a@b.c>\r\n".toList = (.ptMail, some "a@b.c".toList) ∧
      (∀ type ∈ lineTypes, patternCompute type "mail From:<a@b.c>\r\n".toList ≠ none →
        type = .ptMail) ∧
      scanInOrder lineTypes.reverse "quit\r\n".toList = patternScan "quit\r\n".toList := by
  have harg : PlainArgument "a@b.c".toList :=
    ⟨by decide, by simp [nul], by simp [isSpace], by decide⟩
  have hbuf : "mail From:<a@b.c>\r\n".toList = "mail".toList ++ ' ' :: ("From:".toList ++
      ([] ++ (['<'] ++ ("a@b.c".toList ++ (['>'] ++ ['\r', '\n']))))) := by simp
  have hline : ArgumentLine "a@b.c".toList .ptMail "mail From:<a@b.c>\r\n".toList := by
    rw [hbuf]
    exact .mail (by decide) (by decide) (.inl rfl) (.inr ⟨rfl, rfl⟩) (by decide)
  obtain ⟨hscan, hunique, horder⟩ := arguments_extracted
  refine ⟨hscan _ _ _ harg hline, fun type htype h => ?_, horder _ lineTypes.reverse_perm _⟩
  exact hunique _ .ptMail (by decide) type htype (by decide +kernel) h

end SmtpProj.Server
