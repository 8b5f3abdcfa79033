import SmtpProj.Server.Commands

/-!
How message text is ended.

A lone dot is found by its pattern, and the letter is saved as it is. A chunk
with the end mark behind its text is found by its last five bytes; the same
handler then saves the letter, but only after it has put the whole chunk behind
the text, mark and all. And the last five bytes are looked for in chunks that
have fewer.
-/

namespace SmtpProj.Server

open Lib

/-- The pass reads inside the chunk only and ends the message exactly at the end
mark. What it saves then is the text in front of the mark, behind the text so
far; the line end that every other chunk gets may be there or not. -/
structure EndsAtMark (e : Env) (s : Session) : Prop where
  inside : protocolUpdate e s ≠ .error .outOfBounds
  ends : ∀ s', protocolUpdate e s = .ok s' →
    (s'.state ≠ .expectDataRecv ↔ dataMark <:+ s.recvBuf)
  saves : ∀ s' letter data, protocolUpdate e s = .ok s' → s.letter = .live letter →
    s.recvBuf = data ++ dataMark → e.creatable (letter.filename e) = true →
      ∃ tail, (tail = [] ∨ tail = crlf) ∧ s'.files = s.files ++
        [(letter.filename e, Letter.text { letter with body := letter.body ++ data ++ tail })]

/-- There are five bytes to compare, and nothing is saved with the mark. -/
structure Unmarked (e : Env) (s : Session) : Prop where
  length : 5 ≤ s.recvBuf.length
  unsaved : dataMark <:+ s.recvBuf →
    ∀ letter, s.letter = .live letter → e.creatable (letter.filename e) = false

variable {e : Env} {s : Session} {letter : Letter}

/-- What is saved with the end mark keeps it. -/
theorem length_text_add (letter : Letter) (data tail : CStr) (htail : tail = [] ∨ tail = crlf) :
    (Letter.text { letter with body := letter.body ++ data ++ tail }).length <
      ((letter.add (data ++ dataMark)).text).length := by
  rcases htail with rfl | rfl <;> simp [Letter.text, Letter.add, dataMark, crlf]

theorem endsAtMark_of_unmarked (hst : s.state = .expectDataRecv) (hrecv : s.recvBuf ≠ [])
    (hscan : (patternScan s.recvBuf).1 = .ptDataRecv) (hletter : s.letter = .live letter)
    (h : Unmarked e s) : EndsAtMark e s := by
  have hscan : patternScan s.recvBuf = (.ptDataRecv, (patternScan s.recvBuf).2) :=
    Prod.ext hscan rfl
  by_cases hmark : dataMark <:+ s.recvBuf
  · obtain ⟨s', hok, hgives⟩ :=
      protocolUpdate_of_scan (e := e) hrecv hscan (.mark hst hletter hmark)
    have hfile : e.creatable (letter.filename e) = false := h.unsaved hmark letter hletter
    have hstate : s'.state = .ready := by
      rw [hgives.state, endOfData, if_neg (by rw [Bool.not_eq_true]; exact hfile)]
    refine ⟨by simp [hok], fun s₁ hok₁ => ?_, fun s₁ letter₁ data hok₁ hletter₁ _ hfile₁ => ?_⟩
    · obtain rfl := Except.ok.inj (hok.symm.trans hok₁)
      exact iff_of_true (by simp [hstate]) hmark
    · rw [h.unsaved hmark letter₁ hletter₁] at hfile₁
      cases hfile₁
  · obtain ⟨s', hok, hgives⟩ :=
      protocolUpdate_of_scan (e := e) hrecv hscan (.text hst hletter h.length hmark)
    refine ⟨by simp [hok], fun s₁ hok₁ => ?_, fun s₁ letter₁ data _ _ hdata => ?_⟩
    · obtain rfl := Except.ok.inj (hok.symm.trans hok₁)
      exact iff_of_false (not_not.mpr hgives.state) hmark
    · exact absurd ⟨data, hdata.symm⟩ hmark

/-- A chunk that is too short is compared with what lies in front of it. -/
theorem protocolUpdate_of_short (hready : LetterReady s) (hst : s.state = .expectDataRecv)
    (hrecv : s.recvBuf ≠ []) (hscan : (patternScan s.recvBuf).1 = .ptDataRecv)
    (hlen : s.recvBuf.length < 5) : protocolUpdate e s = .error .outOfBounds :=
  protocolUpdate_of_fails hready hrecv (Prod.ext hscan rfl) (.short hst hlen)

theorem endsAtMark_iff (hready : LetterReady s) (hst : s.state = .expectDataRecv)
    (hrecv : s.recvBuf ≠ []) (hscan : (patternScan s.recvBuf).1 = .ptDataRecv) :
    EndsAtMark e s ↔ Unmarked e s := by
  obtain ⟨letter, hletter⟩ := hready (by rw [hst]; rfl)
  refine ⟨fun h => ⟨?_, fun hmark letter₁ hletter₁ => ?_⟩,
    endsAtMark_of_unmarked hst hrecv hscan hletter⟩
  · by_contra hlen
    exact h.inside (protocolUpdate_of_short hready hst hrecv hscan (not_le.mp hlen))
  · obtain rfl := LetterPtr.live.inj (hletter.symm.trans hletter₁)
    by_contra hfile
    rw [Bool.not_eq_false] at hfile
    obtain ⟨s', hok, hgives⟩ := protocolUpdate_of_scan (e := e) hrecv
      (Prod.ext hscan rfl) (.mark hst hletter hmark)
    obtain ⟨data, hdata⟩ := hmark
    obtain ⟨tail, htail, hfiles⟩ := h.saves s' letter data hok hletter hdata.symm hfile
    have hmarked : (endOfData e (letter.add s.recvBuf)).files =
        [(letter.filename e, (letter.add s.recvBuf).text)] := by
      rw [endOfData, if_pos (by exact hfile)]
      rfl
    rw [hgives.files, hmarked, List.append_cancel_left_eq, List.cons.injEq, Prod.mk.injEq,
      ← hdata] at hfiles
    have hlt := length_text_add letter data tail htail
    rw [hfiles.1.2] at hlt
    exact absurd hlt (lt_irrefl _)

namespace Link

def EndsText (l : Link) (r : Round) : Prop :=
  l.session.state = .expectDataRecv → l.received r ≠ [] →
    (patternScan (l.received r)).1 = .ptDataRecv → EndsAtMark r.env (l.connUpdate r).session

/-- Message text that comes in the data state has five bytes, and its mark, if it
has one, is not saved. -/
def BringsUnmarked (l : Link) (r : Round) : Prop :=
  l.session.state = .expectDataRecv → l.received r ≠ [] →
    (patternScan (l.received r)).1 = .ptDataRecv → Unmarked r.env (l.connUpdate r).session

theorem endsText_iff_bringsUnmarked {l : Link} (hl : l.Greeted) (r : Round) :
    l.EndsText r ↔ l.BringsUnmarked r := by
  refine forall_congr' fun hst => forall₂_congr fun hrecv hscan => ?_
  exact endsAtMark_iff (hl.ready r) (by simpa using hst) hrecv hscan

/-- In every run, message text is ended and saved as it should exactly as long as
no chunk is short and no marked one is saved. -/
theorem text_ends_iff (now : Timeval) (e : Env) (rs : List Round) :
    Along round EndsText (accepted now) (.greeting e :: rs) ↔
      Along round BringsUnmarked (accepted now) (.greeting e :: rs) := by
  have hinit : (accepted now).session.state ≠ .expectDataRecv := ServerState.noConfusion
  exact along_greeted_congr (iff_of_true (fun h => absurd h hinit) (fun h => absurd h hinit))
    fun _ hl r => endsText_iff_bringsUnmarked hl r

/-- A marked chunk is saved with its mark, and a chunk of three bytes is read from
before its start. -/
theorem marked_text_saved :
    (∃ l name, run round (accepted ⟨0, 0⟩) (.greeting sampleEnv :: upToData ++
        [.chunk sampleEnv "hi\r\n.\r\n".toList]) = .ok l ∧
      l.session.files = [(name, "a@b.c\nd@e.f\nhi\r\n.\r\n\r\n\n".toList)]) ∧
    run round (accepted ⟨0, 0⟩) (.greeting sampleEnv :: upToData ++
        [.chunk sampleEnv "yes".toList]) = .error (.halted .outOfBounds) ∧
    ¬Along round EndsText (accepted ⟨0, 0⟩) (.greeting sampleEnv :: upToData ++
        [.chunk sampleEnv "hi\r\n.\r\n".toList]) ∧
    ¬Along round EndsText (accepted ⟨0, 0⟩) (.greeting sampleEnv :: upToData ++
        [.chunk sampleEnv "yes".toList]) := by
  have hrun : run round (accepted ⟨0, 0⟩) (.greeting sampleEnv :: upToData) = .ok _ := rfl
  have hgreeted := greeted_of_run hrun
  refine ⟨⟨_, _, rfl, rfl⟩, by decide +kernel, fun h => ?_, fun h => ?_⟩
  · have hunmarked := (endsText_iff_bringsUnmarked hgreeted _).mp (h.of_run hrun) rfl (by decide)
      (by decide +kernel)
    exact absurd (hunmarked.unsaved (by decide) _ rfl) (by decide)
  · have hunmarked := (endsText_iff_bringsUnmarked hgreeted _).mp (h.of_run hrun) rfl (by decide)
      (by decide +kernel)
    exact absurd hunmarked.length (by decide)

end Link

end SmtpProj.Server
