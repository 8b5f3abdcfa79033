import SmtpProj.Server.Commands
import SmtpProj.Server.Replies

/-!
Lines that end in a single newline, and how a connection answers them.

The clients of this project end their lines in a newline alone. What the line
patterns capture of such a line is known exactly: the keyword is spelled, the
optional space and bracket are there and are taken, and the lazy argument stops
where the closing bracket and the newline can follow, which is nowhere inside of
it. A line that is no command is none with the newline behind it either, so the
text of a letter stays text.

A round that delivers a line serves it, and the next round sends the reply.
-/

namespace SmtpProj.Server

open Lib Lib.Regex

/-! ### Words -/

theorem map_cls_append_cons (word : List String) (r : Regex Char) (rs : List (Regex Char)) :
    ∃ r' rs', word.map cls ++ r :: rs = r' :: rs' := by
  cases word <;> exact ⟨_, _, rfl⟩

instance (word : List String) (text : CStr) : Decidable (Spells word text) := by
  unfold Spells
  infer_instance

/-- A text that spells the letters is consumed. -/
theorem results_word {word : List String} {text rest : CStr} {r : Regex Char}
    {rs : List (Regex Char)} {i : ℕ} {caps : List (ℕ × CStr)} (h : Spells word text) :
    (seqs (word.map cls ++ r :: rs)).results ⟨i, text ++ rest, caps⟩ =
      (seqs (r :: rs)).results ⟨i + word.length, rest, caps⟩ := by
  induction h generalizing i with
  | nil => rfl
  | @cons chars c word text hc hspells ih =>
      obtain ⟨r', rs', hrest⟩ := map_cls_append_cons word r rs
      have hcls : chars.toList.contains c = true := by simpa using hc
      rw [hrest] at ih
      rw [List.map_cons, List.cons_append, hrest, cls, List.cons_append,
        results_seqs_one_pos hcls, ih, List.length_cons, Nat.add_assoc, Nat.add_comm 1]

theorem head_results_spaced {word : List String} {text rest : CStr} {r : Regex Char}
    {rs : List (Regex Char)} {i : ℕ} {caps : List (ℕ × CStr)} {cur : Cursor Char}
    (hword : Spells word text)
    (h : ((seqs (r :: rs)).results ⟨i + 1 + word.length, rest, caps⟩).head? = some cur) :
    ((seqs (.one isSpace :: (word.map cls ++ r :: rs))).results
      ⟨i, ' ' :: (text ++ rest), caps⟩).head? = some cur := by
  obtain ⟨r', rs', hrest⟩ := map_cls_append_cons word r rs
  rw [hrest, results_seqs_one_pos rfl, ← hrest, results_word hword, h]

/-- An anchored pattern goes on behind its keyword. -/
theorem exec_word {word : List String} {text rest : CStr} {r : Regex Char}
    {rs : List (Regex Char)} (h : Spells word text) :
    (seqs (bol :: (word.map cls ++ r :: rs))).exec (text ++ rest) =
      ((seqs (r :: rs)).results ⟨word.length, rest, []⟩).head? := by
  obtain ⟨r', rs', hrest⟩ := map_cls_append_cons word r rs
  have hword : (seqs (word.map cls ++ r :: rs)).results ⟨0, text ++ rest, []⟩ =
      (seqs (r :: rs)).results ⟨0 + word.length, rest, []⟩ := results_word h
  rw [hrest] at hword ⊢
  rw [exec_bol, hword, Nat.zero_add]

theorem Spells.shares {word word' : List String} {text : CStr} (h : Spells word text)
    (h' : Spells word' text) :
    List.Forall₂ (fun chars chars' => chars.toList.any chars'.toList.contains = true) word
      word' := by
  induction h generalizing word' with
  | nil =>
      cases h'
      exact .nil
  | cons hc _ ih =>
      cases h' with
      | cons hc' h' => exact .cons (List.any_eq_true.mpr ⟨_, hc, by simpa using hc'⟩) (ih h')

/-- No text spells two of the keywords. -/
theorem keyword_injective {type type' : PatternType} {text : CStr} (htype : type.isKeyword = true)
    (htype' : type'.isKeyword = true) (h : Spells type.keyword text)
    (h' : Spells type'.keyword text) : type' = type := by
  have hshares := h.shares h'
  cases type <;> cases htype <;> cases type' <;> cases htype' <;>
    first | rfl | exact absurd hshares (by decide)

/-- A line begins with one keyword at most, so one keyword pattern matches it at
most. -/
theorem keyword_unique {type type' : PatternType} {buf : CStr} (htype : type.isKeyword = true)
    (htype' : type'.isKeyword = true) (h : patternCompute type buf ≠ none)
    (h' : patternCompute type' buf ≠ none) : type' = type := by
  have hlen : ∀ {type : PatternType}, type.isKeyword = true → type.keyword.length = 4 := by
    intro type h
    cases type <;> first | rfl | cases h
  obtain ⟨text, rest, hbuf, hspells⟩ := keyword_of_match htype h
  obtain ⟨text', rest', hbuf', hspells'⟩ := keyword_of_match htype' h'
  have heqlen : text.length = text'.length := by
    rw [← hspells.length_eq, ← hspells'.length_eq, hlen htype, hlen htype']
  obtain ⟨rfl, rfl⟩ := List.append_inj (hbuf.symm.trans hbuf') heqlen
  exact keyword_injective htype htype' hspells hspells'

/-- The scan stops at the pattern whose keyword the line begins with. -/
theorem patternScan_of_keyword {type : PatternType} {text rest : CStr} {r : Regex Char}
    {rs : List (Regex Char)} {cur : Cursor Char} (htype : type.isKeyword = true)
    (hinit : patternInit type = some (seqs (bol :: (type.keyword.map cls ++ r :: rs))))
    (htext : Spells type.keyword text)
    (h : ((seqs (r :: rs)).results ⟨type.keyword.length, rest, []⟩).head? = some cur) :
    patternScan (text ++ rest) = (type, cur.capture 1) := by
  have hcompute : patternCompute type (text ++ rest) = some (cur.capture 1) := by
    rw [patternCompute, hinit, Option.bind_some, exec_word htext, h]
    rfl
  rcases patternScan_cases (text ++ rest) with ⟨type', content, htype', hscan, hmatch⟩ |
    ⟨hno, -⟩ | ⟨hno, -⟩
  · obtain rfl := keyword_unique htype htype' (Option.ne_none_iff_exists'.mpr ⟨_, hcompute⟩)
      (Option.ne_none_iff_exists'.mpr ⟨_, hmatch⟩)
    rw [hscan, ← Option.some.inj (hmatch.symm.trans hcompute)]
  · rw [hno type htype] at hcompute
    cases hcompute
  · rw [hno type htype] at hcompute
    cases hcompute

/-! ### The lines of a client -/

theorem results_closing_eq_nil {b : CStr} (hb : b ≠ []) (i : ℕ) (caps : List (ℕ × CStr)) :
    (seqs (optCls ">" :: lineEnd)).results ⟨i, b ++ ['>', '\n'], caps⟩ = [] := by
  have htails : ∀ tail ∈ lineTails, '>' ∉ tail := by decide
  obtain ⟨d, b, rfl⟩ := List.exists_cons_of_ne_nil hb
  by_contra hmatch
  rcases results_seqs_opt_ne_nil.mp hmatch with ⟨c, cs, heq, -, hend⟩ | hend
  · obtain ⟨rfl, rfl⟩ := List.cons.inj heq
    exact htails _ (results_lineEnd_ne_nil.mp hend) (by simp)
  · exact htails _ (results_lineEnd_ne_nil.mp hend) (by simp)

theorem head_results_bracket {arg : CStr} (hne : arg ≠ []) (hline : '\n' ∉ arg) (i : ℕ)
    (caps : List (ℕ × CStr)) :
    ((seqs (optCls "<" :: argument 1 :: optCls ">" :: lineEnd)).results
        ⟨i, '<' :: (arg ++ ['>', '\n']), caps⟩).head? =
      some ⟨i + 1 + arg.length + 2, [], (1, arg) :: caps⟩ :=
  head_results_seqs_opt (by decide) (head_results_seqs_argument hne (forall_dot_iff.mpr hline)
    (fun _ _ _ _ hb => results_closing_eq_nil hb _ _) rfl)

theorem patternScan_helo {host : CStr} (hne : host ≠ []) (hline : '\n' ∉ host) :
    (patternScan ("HELO ".toList ++ host ++ "\n".toList)).1 = .ptHelo := by
  have hbuf : "HELO ".toList ++ host ++ "\n".toList =
      "HELO".toList ++ ' ' :: (host ++ ['\n']) := by simp
  have htext : Spells PatternType.ptHelo.keyword "HELO".toList := by decide
  have hresults : (seqs (cls " " :: argument 1 :: lineEnd)).results
      ⟨4, ' ' :: (host ++ ['\n']), []⟩ ≠ [] := by
    refine results_seqs_one_ne_nil.mpr ⟨' ', _, rfl, by decide, ?_⟩
    exact results_seqs_argument_ne_nil.mpr
      ⟨host, ['\n'], rfl, hne, forall_dot_iff.mpr hline, results_lineEnd_ne_nil.mpr (by decide)⟩
  obtain ⟨cur, hcur⟩ := Option.ne_none_iff_exists'.mp
    (mt List.head?_eq_none_iff.mp hresults)
  rw [hbuf, patternScan_of_keyword rfl rfl htext hcur]

theorem patternScan_mail {arg : CStr} (hne : arg ≠ []) (hline : '\n' ∉ arg) :
    patternScan ("MAIL FROM: <".toList ++ arg ++ ">\n".toList) = (.ptMail, some arg) := by
  have hbuf : "MAIL FROM: <".toList ++ arg ++ ">\n".toList =
      "MAIL".toList ++ ' ' :: ("FROM:".toList ++ ' ' :: '<' :: (arg ++ ['>', '\n'])) := by simp
  have htext : Spells PatternType.ptMail.keyword "MAIL".toList := by decide
  have hword : Spells ["Ff", "Rr", "Oo", "Mm", ":"] "FROM:".toList := by decide
  have haddress := head_results_seqs_opt (p := isSpace) (c := ' ') rfl
    (head_results_bracket hne hline 11 [])
  rw [hbuf, patternScan_of_keyword rfl rfl htext (head_results_spaced hword haddress)]
  rfl

theorem patternScan_rcpt {arg : CStr} (hne : arg ≠ []) (hline : '\n' ∉ arg) :
    patternScan ("RCPT TO:<".toList ++ arg ++ ">\n".toList) = (.ptRcpt, some arg) := by
  have hbuf : "RCPT TO:<".toList ++ arg ++ ">\n".toList =
      "RCPT".toList ++ ' ' :: ("TO:".toList ++ '<' :: (arg ++ ['>', '\n'])) := by simp
  have htext : Spells PatternType.ptRcpt.keyword "RCPT".toList := by decide
  have hword : Spells ["Tt", "Oo", ":"] "TO:".toList := by decide
  have haddress := (congrArg List.head? (results_seqs_opt_neg (p := isSpace) (c := '<') rfl)).trans
    (head_results_bracket hne hline 8 [])
  rw [hbuf, patternScan_of_keyword rfl rfl htext (head_results_spaced hword haddress)]
  rfl

/-! ### The text of a letter -/

theorem dropsEnd_lineEnd : DropsEnd '\n' (seqs lineEnd) := by
  intro i s caps _ hmatch
  have htails : ∀ tail ∈ lineTails, tail.dropLast ∈ lineTails := by decide
  have htail := htails _ (results_lineEnd_ne_nil.mp hmatch)
  rw [List.dropLast_concat] at htail
  exact results_lineEnd_ne_nil.mpr htail

theorem dropsEnd_word {word : List String} {r : Regex Char} {rs : List (Regex Char)}
    (hword : ∀ chars ∈ word, '\n' ∉ chars.toList) (h : DropsEnd '\n' (seqs (r :: rs))) :
    DropsEnd '\n' (seqs (word.map cls ++ r :: rs)) := by
  induction word with
  | nil => exact h
  | cons chars word ih =>
      obtain ⟨hchars, hword⟩ := List.forall_mem_cons.mp hword
      obtain ⟨r', rs', hrest⟩ := map_cls_append_cons word r rs
      rw [List.map_cons, List.cons_append, hrest]
      refine dropsEnd_one (hrest ▸ ih hword) fun hmem => ?_
      simp [hchars] at hmem

/-- Behind its keyword a pattern that matches in front of a newline also matches
without it. -/
theorem patternInit_dropsEnd {type : PatternType} (htype : type.isKeyword = true) :
    ∃ r rs, patternInit type = some (seqs (bol :: (type.keyword.map cls ++ r :: rs))) ∧
      DropsEnd '\n' (seqs (r :: rs)) := by
  have harg : DropsEnd '\n' (seqs (argument 1 :: lineEnd)) :=
    dropsEnd_argument dropsEnd_lineEnd rfl
  have hspace : DropsEnd '\n' (seqs (cls " " :: argument 1 :: lineEnd)) :=
    dropsEnd_one harg fun h => absurd h (by decide)
  have hbracket : DropsEnd '\n' (seqs (optCls "<" :: argument 1 :: optCls ">" :: lineEnd)) :=
    dropsEnd_opt (dropsEnd_argument (dropsEnd_opt dropsEnd_lineEnd fun h => absurd h (by decide))
      rfl) fun h => absurd h (by decide)
  have haddress : DropsEnd '\n'
      (seqs (.opt isSpace :: optCls "<" :: argument 1 :: optCls ">" :: lineEnd)) :=
    dropsEnd_opt hbracket (by simp [results, optCls, argument])
  cases type with
  | ptQuit | ptRset | ptData => exact ⟨_, _, rfl, dropsEnd_lineEnd⟩
  | ptVrfy | ptHelo | ptEhlo => exact ⟨_, _, rfl, hspace⟩
  | ptMail =>
      have hword : ∀ chars ∈ ["Ff", "Rr", "Oo", "Mm", ":"], '\n' ∉ chars.toList := by decide
      exact ⟨_, _, rfl, dropsEnd_one (dropsEnd_word hword haddress) (by simp [cls])⟩
  | ptRcpt =>
      have hword : ∀ chars ∈ ["Tt", "Oo", ":"], '\n' ∉ chars.toList := by decide
      exact ⟨_, _, rfl, dropsEnd_one (dropsEnd_word hword haddress) (by simp [cls])⟩
  | ptStart | ptDataEnd | ptDataRecv | ptEmail | ptEnd => cases htype

/-- A line that is no command is none with its newline either. -/
theorem NoKeyword.concat_newline {line : CStr} (hline : '\n' ∉ line) (h : NoKeyword line) :
    NoKeyword (line ++ ['\n']) := by
  intro type htype
  obtain ⟨r, rs, hinit, hdrops⟩ := patternInit_dropsEnd htype
  obtain ⟨chars, word, hword⟩ : ∃ chars word, type.keyword = chars :: word := by
    cases type <;> first | exact ⟨_, _, rfl⟩ | cases htype
  have hchars : ∀ chars ∈ type.keyword, '\n' ∉ chars.toList := by
    cases type <;> decide
  have hnone := h type htype
  rw [hword] at hinit hchars
  rw [patternCompute_eq_none_iff hinit, List.map_cons, List.cons_append, exec_bol_eq_none_iff,
    ← List.cons_append, ← List.map_cons] at hnone ⊢
  by_contra hmatch
  exact dropsEnd_word hchars hdrops _ _ _ hline hmatch hnone

/-! ### Rounds -/

/-- A round in which nothing arrives, and the pending reply goes out whole. -/
def Round.pass (e : Env) : Round := ⟨.idle, .sent bufSize, e⟩

theorem Session.flush_sent (n : ℕ) (s : Session) :
    s.flush (.sent n) = { s with wire := s.wire ++ s.sendBuf.take n, sendBuf := [] } := by
  rcases s with ⟨⟨sendBuf, recvBuf, state, oldState, letter, watch⟩, replies, dirs, files, wire⟩
  cases sendBuf with
  | nil => simp [Session.flush]
  | cons c rest => simp [Session.flush, SendResult.accepted]

namespace Link

theorem connUpdate_chunk {l : Link} {e : Env} {t : CStr} (h : l.inRead = true) :
    l.connUpdate (.chunk e t) =
      { l with session := { l.session with
          recvBuf := t
          wire := l.session.wire ++ l.session.sendBuf.take bufSize
          sendBuf := [] } } := by
  simp [connUpdate, Round.chunk, serve, h, flush, Session.flush_sent, Session.receive]

theorem connUpdate_pass {l : Link} {e : Env} :
    l.connUpdate (.pass e) =
      { l with session := { l.session with
          wire := l.session.wire ++ l.session.sendBuf.take bufSize
          sendBuf := [] } } := by
  simp [connUpdate, Round.pass, serve, flush, Session.flush_sent]

structure Stands (st : ServerState) (letter : LetterPtr) (pending : CStr)
    (files : List (CStr × CStr)) (l : Link) : Prop where
  inRead : l.inRead = true
  recvBuf : l.session.recvBuf = []
  state : l.session.state = st
  letter : l.session.letter = letter
  sendBuf : l.session.sendBuf = pending
  files : l.session.files = files

variable {l : Link} {st : ServerState} {letter : LetterPtr} {pending text : CStr}
  {files : List (CStr × CStr)} {e : Env} {o : Effect}

/-- A chunk that is served is answered. -/
theorem Stands.round_chunk (hl : l.Stands st letter pending files) (htext : text ≠ [])
    (hst : st ≠ .disconnected)
    (hserves : ∀ s : Session, s.state = st → s.letter = letter → s.recvBuf = text →
      Serves e s (patternScan text).1 (patternScan text).2 o) :
    ∃ l', l.round (.chunk e text) = .ok l' ∧
      l'.Stands o.state o.letter (o.reply.getD []) (files ++ o.files) ∧
        l'.session.watch = e.now := by
  have hupdate := connUpdate_chunk (e := e) (t := text) hl.inRead
  have hstate := (connUpdate_state (.chunk e text) l).trans hl.state
  have hrecv : (l.connUpdate (.chunk e text)).session.recvBuf = text := by rw [hupdate]
  have hserves : Serves e (l.connUpdate (.chunk e text)).session
      (patternScan (l.connUpdate (.chunk e text)).session.recvBuf).1
      (patternScan (l.connUpdate (.chunk e text)).session.recvBuf).2 o := by
    rw [hrecv]
    exact hserves _ hstate ((connUpdate_letter _ l).trans hl.letter) hrecv
  obtain ⟨s, hpass, hs, hread, hwatch⟩ := protocolUpdate_of_serves (by rwa [hrecv]) hserves
  have hnclosing : ¬l.Closing (.chunk e text) := fun h => hst (hl.state ▸ h.1)
  rw [round_of_not_closing hnclosing, protocolUpdate, show (Round.chunk e text).env = e from rfl,
    hpass]
  refine ⟨_, rfl, ⟨by rw [hupdate]; exact hl.inRead, hread, hs.state, hs.letter, ?_, ?_⟩, hwatch⟩
  · rw [hs.sendBuf, hupdate]
  · rw [hs.files, connUpdate_files, hl.files]

/-- A round in which nothing arrives sends the reply, and keeps the rest. -/
theorem Stands.round_pass (hl : l.Stands st letter pending files)
    (hst : st ≠ .init ∧ st ≠ .disconnected)
    (htime : stopwatchWatch e.now l.session.watch ≤ connTimeout) :
    l.round (.pass e) = .ok (l.connUpdate (.pass e)) ∧
      (l.connUpdate (.pass e)).Stands st letter [] files := by
  have hstands : (l.connUpdate (.pass e)).Stands st letter [] files := by
    rw [connUpdate_pass]
    exact ⟨hl.inRead, hl.recvBuf, hl.state, hl.letter, rfl, hl.files⟩
  have hwatch : (l.connUpdate (.pass e)).session.watch = l.session.watch := by
    rw [connUpdate_pass]
  have hnclosing : ¬l.Closing (.pass e) := fun h => hst.2 (hl.state ▸ h.1)
  refine ⟨?_, hstands⟩
  rw [round_of_not_closing hnclosing, protocolUpdate, show (Round.pass e).env = e from rfl,
    protocolUpdate_of_idle hstands.recvBuf (by rw [hstands.state]; exact hst.1), hwatch,
    if_neg (not_lt.mpr htime)]

theorem round_pass_accepted {now : Timeval} (htime : stopwatchWatch e.now now ≤ connTimeout) :
    ∃ l, (accepted now).round (.pass e) = .ok l ∧ l.Stands .ready .none response220 [] ∧
      l.session.watch = now := by
  rw [round_of_not_closing (not_closing_accepted _ _), connUpdate_pass, protocolUpdate,
    show (Round.pass e).env = e from rfl, protocolUpdate_of_init rfl rfl]
  have hintime : ¬stopwatchWatch e.now (accepted now).session.watch > connTimeout :=
    not_lt.mpr htime
  dsimp only
  rw [if_neg hintime]
  exact ⟨_, rfl, ⟨rfl, rfl, rfl, rfl, rfl, rfl⟩, rfl⟩

end Link
end SmtpProj.Server
