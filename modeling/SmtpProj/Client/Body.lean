import SmtpProj.Client.Delivery

/-!
What the body of a letter looks like on the wire.

`send_msg_body` sends what `strtok` has left of the letter, a line at a time,
and an end mark behind it. That differs from the text of the letter in one
place and should differ in another. `strtok` reads a run of newlines as one, so
the empty lines are gone, the one behind the headers with them. And the lines
are sent as they stand: one that is a single dot is an end mark like the last.
-/

namespace SmtpProj.Client

open Lib

/-! ### The texts of a body -/

/-- What `send_msg_body` writes for a letter file, when `strtok` is used for
nothing else since the sender was read. -/
def sentBody (place : Option CStr) (file : Option (List Char)) : Except Halt (List CStr) := do
  let buffer ← readMsgFile file
  let (_, place) ← sendMailFrom place buffer
  let (_, place) ← sendRcptTo (some place) buffer
  let (texts, _) ← sendMsgBody (some place)
  .ok texts

def bodyTexts (lines : List CStr) : List CStr := lines.map (· ++ "\n".toList) ++ [endOfBody]

theorem bodyTexts_injective : Function.Injective bodyTexts := by
  intro lines lines' h
  have hmap : lines.map (· ++ "\n".toList) = lines'.map (· ++ "\n".toList) :=
    List.append_cancel_right h
  exact List.map_injective_iff.mpr (List.append_left_injective _) hmap

theorem readMsgFile_of_ne_nil {content : List Char} (h : content ≠ []) :
    readMsgFile (some content) = .ok (some (upToNul content)) := by
  cases content with
  | nil => exact absurd rfl h
  | cons c rest => rfl

theorem sentBody_ok_iff {place : Option CStr} {content : List Char} {texts : List CStr} :
    sentBody place (some content) = .ok texts ↔ ∃ sender rcpt lines,
      tokens '\n' (upToNul content) = sender :: rcpt :: lines ∧ texts = bodyTexts lines := by
  constructor
  · intro h
    obtain ⟨buffer, hbuffer, h⟩ := bind_eq_ok.mp h
    obtain ⟨⟨text₁, place₁⟩, hsender, h⟩ := bind_eq_ok.mp h
    obtain ⟨⟨text₂, place₂⟩, hrcpt, h⟩ := bind_eq_ok.mp h
    obtain ⟨⟨texts', place₃⟩, hbody, h⟩ := bind_eq_ok.mp h
    cases h
    have hcontent : content ≠ [] := by
      rintro rfl
      cases hbuffer
    obtain rfl : some (upToNul content) = buffer :=
      Except.ok.inj ((readMsgFile_of_ne_nil hcontent).symm.trans hbuffer)
    obtain ⟨sender, rcpt, lines, htokens, -, -, hsent⟩ := session_sends_letter hsender hrcpt
    cases hbody.symm.trans hsent
    exact ⟨sender, rcpt, lines, htokens, rfl⟩
  · rintro ⟨sender, rcpt, lines, htokens, rfl⟩
    have hcontent : content ≠ [] := by
      rintro rfl
      simp [upToNul] at htokens
    obtain ⟨place₁, hplace₁, hsender⟩ : ∃ place₁, tokens '\n' place₁ = rcpt :: lines ∧
        sendMailFrom place (some (upToNul content)) =
          .ok ("MAIL FROM: <".toList ++ sender ++ ">\n".toList, place₁) :=
      sendMailFrom_of_tokens htokens
    obtain ⟨place₂, hplace₂, hrcpt⟩ : ∃ place₂, tokens '\n' place₂ = lines ∧
        sendRcptTo (some place₁) (some (upToNul content)) =
          .ok ("RCPT TO:<".toList ++ rcpt ++ ">\n".toList, place₂) :=
      sendRcptTo_of_tokens hplace₁
    simp [sentBody, readMsgFile_of_ne_nil hcontent, hsender, hrcpt, sendMsgBody, hplace₂,
      bodyTexts, bind, Except.bind]

theorem sentBody_eq_bodyTexts_iff {place : Option CStr} {content : List Char}
    {lines : List CStr} : sentBody place (some content) = .ok (bodyTexts lines) ↔
      ∃ sender rcpt, tokens '\n' (upToNul content) = sender :: rcpt :: lines := by
  rw [sentBody_ok_iff]
  constructor
  · rintro ⟨sender, rcpt, lines', htokens, heq⟩
    rw [← bodyTexts_injective heq] at htokens
    exact ⟨sender, rcpt, htokens⟩
  · rintro ⟨sender, rcpt, htokens⟩
    exact ⟨sender, rcpt, lines, htokens, rfl⟩

/-! ### The end mark -/

def LineStart (before : CStr) : Prop := before = [] ∨ ∃ front, before = front ++ ['\n']

def LineEnd (after : CStr) : Prop :=
  (∃ rest, after = '\n' :: rest) ∨ ∃ rest, after = '\r' :: '\n' :: rest

/-- A line that is a single dot is the last line. -/
def EndsOnce (bytes : CStr) : Prop :=
  ∀ before after, bytes = before ++ '.' :: after → LineStart before → LineEnd after →
    after = "\r\n".toList

def IsDot (line : CStr) : Prop := line = ".".toList ∨ line = ".\r".toList

instance : DecidablePred IsDot := fun _ => inferInstanceAs (Decidable (_ ∨ _))

/-- What a dot at the start of a line, and the end of a line behind it, say
about the line. -/
theorem isDot_of_lineEnd {line rest after : CStr} (hline : '\n' ∉ line)
    (heq : line ++ '\n' :: rest = '.' :: after) (hend : LineEnd after) : IsDot line := by
  cases line with
  | nil => cases heq
  | cons c tail =>
      obtain ⟨rfl, rfl⟩ := List.cons.inj heq
      have htail : '\n' ∉ tail := fun hmem => hline (List.mem_cons_of_mem _ hmem)
      rcases hend with ⟨r, hr⟩ | ⟨r, hr⟩
      · have hnil : tail = [] := (append_delim_inj htail (by simp) hr).1
        exact .inl (by rw [hnil]; rfl)
      · have hcr : tail ++ '\n' :: rest = ['\r'] ++ '\n' :: r := hr
        exact .inr (by rw [(append_delim_inj htail (by decide) hcr).1]; rfl)

/-- A line is looked at alone, as long as something comes behind it. -/
theorem endsOnce_cons {line rest : CStr} (hline : '\n' ∉ line) (hrest : rest ≠ []) :
    EndsOnce (line ++ '\n' :: rest) ↔ ¬ IsDot line ∧ EndsOnce rest := by
  constructor
  · intro h
    refine ⟨?_, fun before after heq hstart hend => ?_⟩
    · rintro (rfl | rfl)
      · have hlast := h [] ('\n' :: rest) rfl (.inl rfl) (.inl ⟨rest, rfl⟩)
        simp at hlast
      · have hlast := h [] ('\r' :: '\n' :: rest) rfl (.inl rfl) (.inr ⟨rest, rfl⟩)
        simp [hrest] at hlast
    · refine h (line ++ '\n' :: before) after (by simp [heq]) (.inr ?_) hend
      rcases hstart with rfl | ⟨front, rfl⟩
      · exact ⟨line, rfl⟩
      · exact ⟨line ++ '\n' :: front, by simp⟩
  · rintro ⟨hdot, h⟩ before after heq (rfl | ⟨front, rfl⟩) hend
    · exact absurd (isDot_of_lineEnd hline heq hend) hdot
    · rw [List.append_assoc, List.singleton_append] at heq
      rcases List.append_eq_append_iff.mp heq with ⟨a, rfl, hbehind⟩ | ⟨a, rfl, hbehind⟩
      · cases a with
        | nil => exact h [] after (List.cons.inj hbehind).2 (.inl rfl) hend
        | cons c a =>
            obtain ⟨rfl, hbehind⟩ := List.cons.inj hbehind
            exact h (a ++ ['\n']) after (by simpa using hbehind) (.inr ⟨a, rfl⟩) hend
      · cases a with
        | nil => exact h [] after (List.cons.inj hbehind).2.symm (.inl rfl) hend
        | cons c a =>
            obtain ⟨rfl, -⟩ := List.cons.inj hbehind
            simp at hline

theorem endsOnce_endOfBody : EndsOnce endOfBody := by
  have hmark : EndsOnce ".\r\n".toList := by
    intro before after heq _ _
    cases before with
    | nil => exact (List.cons.inj heq).2.symm
    | cons c before =>
        have hdot : '.' ∈ "\r\n".toList := by
          rw [show "\r\n".toList = before ++ '.' :: after from (List.cons.inj heq).2]
          simp
        exact absurd hdot (by decide)
  have hline : '\n' ∉ "\r".toList := by decide
  exact (endsOnce_cons hline (by decide)).mpr ⟨by decide, hmark⟩

theorem endsOnce_bodyTexts {lines : List CStr} (hlines : ∀ line ∈ lines, '\n' ∉ line) :
    EndsOnce (bodyTexts lines).flatten ↔ ∀ line ∈ lines, ¬ IsDot line := by
  induction lines with
  | nil => simpa [bodyTexts] using endsOnce_endOfBody
  | cons line lines ih =>
      have hne : (bodyTexts lines).flatten ≠ [] := by simp [bodyTexts, endOfBody]
      have hcons : (bodyTexts (line :: lines)).flatten =
          line ++ '\n' :: (bodyTexts lines).flatten := by
        simp [bodyTexts]
      rw [hcons, endsOnce_cons (hlines line (by simp)) hne,
        ih fun l hl => hlines l (List.mem_cons_of_mem _ hl)]
      simp

/-- In the body of a letter the end mark stands at the end only, exactly if no
line of the letter is a single dot. -/
theorem ends_once_iff (place : Option CStr) (content : List Char) :
    (∀ texts, sentBody place (some content) = .ok texts → EndsOnce texts.flatten) ↔
      ∀ line ∈ bodyLines (upToNul content), ¬ IsDot line := by
  have htoken : ∀ line ∈ tokens '\n' (upToNul content), '\n' ∉ line := fun line hl =>
    (of_mem_tokens hl).2
  simp only [sentBody_ok_iff, bodyLines]
  rcases htokens : tokens '\n' (upToNul content) with _ | ⟨sender, _ | ⟨rcpt, lines⟩⟩
  · simp
  · simp
  · rw [htokens] at htoken
    have hlines : ∀ line ∈ lines, '\n' ∉ line := fun line hl => htoken line (by simp [hl])
    rw [List.drop_succ_cons, List.drop_succ_cons, List.drop_zero, ← endsOnce_bodyTexts hlines]
    constructor
    · exact fun h => h _ ⟨sender, rcpt, lines, rfl, rfl⟩
    · rintro h _ ⟨_, _, _, heq, rfl⟩
      cases heq
      exact h

def dottedLetter : List Char := "s@a\nr@a\nhi\n.\nMAIL FROM: <x@y>\n".toList

theorem dot_ends_body : ∃ texts, sentBody none (some dottedLetter) = .ok texts ∧
    ¬ EndsOnce texts.flatten := by
  refine ⟨_, rfl, fun h => ?_⟩
  have hlast := h "hi\n".toList "\nMAIL FROM: <x@y>\n\r\n.\r\n".toList (by decide +kernel)
    (.inr ⟨"hi".toList, rfl⟩) (.inl ⟨_, rfl⟩)
  exact absurd hlast (by decide)

/-! ### The lines of the letter -/

/-- Nothing is cut off by a NUL: there is none, or nothing stands behind it. -/
def Intact (sender rcpt text : CStr) : Prop :=
  nul ∉ sender ∧ ((nul ∉ rcpt ∧ nul ∉ text) ∨ (text = [] ∧ rcpt.head? ≠ some nul))

theorem tokens_upToNul_eq_linesOf_iff {text : CStr} :
    tokens '\n' (upToNul text) = linesOf '\n' text ↔ nul ∉ text ∧ [] ∉ linesOf '\n' text := by
  constructor
  · intro h
    have hnul : nul ∉ text := by
      intro hmem
      have hflatten := congrArg List.flatten h
      rw [flatten_tokens, flatten_linesOf] at hflatten
      have hkept : nul ∈ text.filter (· ≠ '\n') := List.mem_filter.mpr ⟨hmem, by decide⟩
      rw [← hflatten] at hkept
      exact nul_notMem_upToNul text (List.mem_filter.mp hkept).1
    rw [upToNul_eq_self hnul, tokens_eq_linesOf_iff] at h
    exact ⟨hnul, h⟩
  · rintro ⟨hnul, hlines⟩
    rw [upToNul_eq_self hnul, tokens_eq_linesOf_iff]
    exact hlines

theorem upToNul_line {line rest : CStr} (hline : nul ∉ line) :
    upToNul (line ++ '\n' :: rest) = line ++ '\n' :: upToNul rest := by
  rw [upToNul_append_of_notMem hline]
  simp [upToNul, show '\n' ≠ nul by decide]

theorem newline_notMem_upToNul {line : CStr} (h : '\n' ∉ line) : '\n' ∉ upToNul line :=
  fun hmem => h (List.takeWhile_subset _ hmem)

theorem upToNul_eq_nil_iff {line : CStr} (hne : line ≠ []) :
    upToNul line = [] ↔ line.head? = some nul := by
  obtain ⟨c, rest, rfl⟩ := List.exists_cons_of_ne_nil hne
  by_cases hc : c = nul <;> simp [upToNul, hc]

/-- The body that is sent for a letter consists of the lines of its text exactly
if no line of the text is empty and nothing is cut off. -/
theorem body_faithful_iff {sender rcpt : CStr} (hsender : sender ≠ []) (hrcpt : rcpt ≠ [])
    (hsenderLine : '\n' ∉ sender) (hrcptLine : '\n' ∉ rcpt) (place : Option CStr) (text : CStr) :
    sentBody place (some (sender ++ '\n' :: (rcpt ++ '\n' :: text))) =
        .ok (bodyTexts (linesOf '\n' text)) ↔
      Intact sender rcpt text ∧ [] ∉ linesOf '\n' text := by
  rw [sentBody_eq_bodyTexts_iff]
  by_cases hnul : nul ∈ sender
  · -- the recipient is not found
    have hcut : '\n' ∉ upToNul sender := newline_notMem_upToNul hsenderLine
    rw [upToNul_append_of_mem hnul, tokens_of_notMem hcut]
    refine iff_of_false ?_ fun h => h.1.1 hnul
    rintro ⟨_, _, htokens⟩
    split_ifs at htokens
    cases htokens
  rw [upToNul_line hnul, tokens_of_nextToken (nextToken_line hsender hsenderLine)]
  by_cases hnul' : nul ∈ rcpt
  · -- no text is found behind the recipient
    have hcut : '\n' ∉ upToNul rcpt := newline_notMem_upToNul hrcptLine
    rw [upToNul_append_of_mem hnul', tokens_of_notMem hcut]
    have hintact : Intact sender rcpt text ↔ text = [] ∧ upToNul rcpt ≠ [] := by
      rw [ne_eq, upToNul_eq_nil_iff hrcpt]
      simp [Intact, hnul, hnul']
    rw [hintact]
    split_ifs with hempty
    · simp [hempty]
    · constructor
      · rintro ⟨_, _, htokens⟩
        have hlines : linesOf '\n' text = [] :=
          (List.cons.inj (List.cons.inj htokens).2).2.symm
        exact ⟨⟨linesOf_eq_nil_iff.mp hlines, hempty⟩, by simp [hlines]⟩
      · rintro ⟨⟨rfl, -⟩, -⟩
        exact ⟨sender, upToNul rcpt, rfl⟩
  · rw [upToNul_line hnul', tokens_of_nextToken (nextToken_line hrcpt hrcptLine)]
    have hintact : Intact sender rcpt text ↔ nul ∉ text := by
      constructor
      · rintro ⟨-, ⟨-, htext⟩ | ⟨rfl, -⟩⟩
        · exact htext
        · simp
      · exact fun htext => ⟨hnul, .inl ⟨hnul', htext⟩⟩
    rw [hintact, ← tokens_upToNul_eq_linesOf_iff]
    simp

theorem body_faithful_sample :
    sentBody none (some ("s@a".toList ++ '\n' :: ("r@a".toList ++ '\n' :: "hi\nyou".toList))) =
      .ok (bodyTexts (linesOf '\n' "hi\nyou".toList)) :=
  (body_faithful_iff (by decide) (by decide) (by decide) (by decide) none "hi\nyou".toList).mpr
    ⟨by simp [Intact, nul], by decide⟩

def spacedText : CStr := "Subject: x\n\nhi\n".toList

theorem blank_line_lost :
    sentBody none (some ("s@a".toList ++ '\n' :: ("r@a".toList ++ '\n' :: spacedText))) =
        .ok (bodyTexts ["Subject: x".toList, "hi".toList]) ∧
      sentBody none (some ("s@a".toList ++ '\n' :: ("r@a".toList ++ '\n' :: spacedText))) ≠
        .ok (bodyTexts (linesOf '\n' spacedText)) := by
  decide

end SmtpProj.Client
