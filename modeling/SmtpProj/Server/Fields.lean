import Mathlib.Data.List.DropRight
import SmtpProj.Server.Lines
import SmtpProj.Server.Maildir
import SmtpProj.Server.Recipient

/-!
Whether what a peer sends fits the fields it is copied to.

The fields of a letter have 255 bytes, the name of its file as well, and the
body 20 MiB; a received chunk has up to 1023. Nothing compares the two. The
recipient is as long as the argument of RCPT, its halves are shorter, and the
name has the domain and two numbers in it. The body is what was received since
DATA, with two more bytes for every chunk, however long that goes on.
-/

namespace SmtpProj.Server

open Lib

def bodySize : ℕ := 1024 * 1024 * 20

def filenameSize : ℕ := 255

def rcptCopies (arg : CStr) : List CStr :=
  match patternEmail arg with
  | none => [arg]
  | some (username, domain) => [arg, username, domain]

def textsOf (h : List Exchange) : List Exchange :=
  h.rtakeWhile fun x => (patternScan x.chunk).1 != .ptData

def textSize : List Exchange → ℕ
  | [] => 0
  | x :: xs => x.chunk.length + 2 + textSize xs

def EndsMessage (chunk : CStr) : Prop :=
  (patternScan chunk).1 = .ptDataEnd ∨
    (patternScan chunk).1 = .ptDataRecv ∧ dataMark <:+ chunk

variable {e : Env} {s : Session} {h : List Exchange}

/-- No half of a recipient is longer than the recipient. -/
theorem length_rcptCopies_le {arg text : CStr} (hline : '\n' ∉ arg)
    (htext : text ∈ rcptCopies arg) : text.length ≤ arg.length := by
  unfold rcptCopies at htext
  cases hemail : patternEmail arg with
  | none =>
      simp only [hemail, List.mem_singleton] at htext
      rw [htext]
  | some halves =>
      obtain ⟨username, domain⟩ := halves
      have harg := (patternEmail_eq_some hline hemail).1
      simp only [hemail, List.mem_cons, List.not_mem_nil, or_false] at htext
      rcases htext with rfl | rfl | rfl
      · exact le_rfl
      · rw [harg, List.length_append]
        omega
      · rw [harg, List.length_append, List.length_cons]
        omega

theorem mem_rcptCopies (arg : CStr) : arg ∈ rcptCopies arg := by
  unfold rcptCopies
  split <;> simp

theorem length_letterName (e : Env) (domain : CStr) :
    (letterName e domain).length =
      (decimal e.pid).length + (decimal e.timestamp).length + domain.length + 7 := by
  simp [letterName]
  omega

theorem length_bodyOf (xs : List Exchange) : (bodyOf xs).length = textSize xs := by
  induction xs with
  | nil => rfl
  | cons x xs ih =>
      have hcons : bodyOf (x :: xs) = x.chunk ++ crlf ++ bodyOf xs := by simp [bodyOf]
      rw [hcons, textSize, List.length_append, ih]
      simp [crlf]

/-! ### The body of the letter -/

/-- In the data state the body is the text since DATA. -/
def Collected (letter : LetterPtr) (h : List Exchange) (st : ServerState) : Prop :=
  st = .expectDataRecv → ∃ l, letter = .live l ∧ l.body = bodyOf (textsOf h)

theorem Collected.add {letter : Letter} {chunk : CStr}
    (hc : Collected (.live letter) h .expectDataRecv) (htype : (patternScan chunk).1 ≠ .ptData)
    (replies : List CStr) :
    Collected (.live (letter.add chunk)) (h ++ [⟨chunk, replies⟩]) .expectDataRecv := by
  intro _
  obtain ⟨l, hl, hbody⟩ := hc rfl
  cases hl
  refine ⟨_, rfl, ?_⟩
  rw [textsOf, List.rtakeWhile_concat_pos _ _ _ (by simp [htype]), bodyOf_concat, ← textsOf,
    ← hbody]
  rfl

theorem Collected.serves {type : PatternType} {content : Option CStr} {o : Effect}
    (hempty : s.state = .expectData → ∃ l, s.letter = .live l ∧ l.body = [])
    (hc : Collected s.letter h s.state) (hscan : (patternScan s.recvBuf).1 = type)
    (ho : Serves e s type content o) :
    Collected o.letter (h ++ [⟨s.recvBuf, o.reply.toList⟩]) o.state := by
  intro hst
  cases ho with
  | data hdata =>
      obtain ⟨l, hl, hbody⟩ := hempty hdata
      refine ⟨l, hl, ?_⟩
      rw [textsOf, List.rtakeWhile_concat_neg _ _ _ (by simp [hscan]), hbody]
      rfl
  | text hdata hletter =>
      rw [hdata, hletter] at hc
      exact hc.add (by simp [hscan]) _ hst
  | mark | dot => simpa using endOfData_state hst
  | vrfy hopen =>
      rw [show s.state = .expectDataRecv from hst] at hopen
      cases hopen
  | helo | ehlo | mail | mailNone | rcpt | rcptNone | rset | quit => cases hst

namespace Link

variable {l l' : Link} {r : Round}

theorem collected_round (hl : l.Greeted) (hempty : Composed l.session.letter h l.session.state)
    (hc : Collected l.session.letter h l.session.state) (hok : l.round r = .ok l') :
    Collected l'.session.letter (h ++ l.exchange r l') l'.session.state := by
  obtain ⟨-, hpassed⟩ := round_passed hl hok
  have hc₀ : Collected (l.connUpdate r).session.letter h (l.connUpdate r).session.state := by
    simpa
  cases hpassed with
  | idle hrecv hs' =>
      rw [exchange_of_idle hrecv, List.append_nil, hs']
      exact hc₀
  | timeout hrecv hs' =>
      rw [hs']
      exact fun hst => by cases hst
  | unknown hrecv hno hs' =>
      rw [hs']
      exact fun hst => absurd hst (noMatch_patternScan_iff.mp hno).2
  | served o hrecv ho hgives =>
      rw [exchange_of_chunk hrecv hgives.replies, hgives.letter, hgives.state]
      exact hc₀.serves (fun hst => by simpa using hempty.empty (.inr (by simpa using hst))) rfl ho

structure Known (c : Link × List Exchange) : Prop where
  greeted : c.1.Greeted
  agrees : Agrees c.1.session.letter c.2 c.1.session.state
  composed : Composed c.1.session.letter c.2 c.1.session.state
  collected : Collected c.1.session.letter c.2 c.1.session.state

theorem Known.talk {c c' : Link × List Exchange} (hc : Known c) (hok : talk c r = .ok c') :
    Known c' := by
  obtain ⟨hround, hlog⟩ := logged_eq_ok.mp hok
  refine ⟨hc.greeted.round hround, ?_, ?_, ?_⟩ <;> rw [hlog]
  · exact agrees_round hc.greeted hc.agrees hround
  · exact composed_round hc.greeted hc.agrees hc.composed hround
  · exact collected_round hc.greeted hc.composed hc.collected hround

theorem known_of_greeting {now : Timeval} {c : Link × List Exchange}
    (hok : Link.talk (accepted now, []) (.greeting e) = .ok c) : Known c := by
  have hrun : run Link.talk (accepted now, []) [.greeting e] = .ok c := run_cons_ok hok
  obtain ⟨hgreeted, hagrees⟩ := agrees_of_run hrun
  refine ⟨hgreeted, hagrees, composed_of_run hrun, fun hst => ?_⟩
  rcases (session_of_greeting (logged_eq_ok.mp hok).1).1 with hst' | hst' <;>
    simp [hst'] at hst

/-! ### What fits -/

/-- What a round copies, formats and appends fits: the recipient and its halves,
the name of the file, and the body. -/
structure Fits (c : Link × List Exchange) (r : Round) : Prop where
  recipient : c.1.session.state = .expectRcpt →
    ∀ arg, patternScan (c.1.received r) = (.ptRcpt, some arg) →
      ∀ text ∈ rcptCopies arg, text.length < fieldSize
  filename : c.1.session.state = .expectDataRecv → EndsMessage (c.1.received r) →
    ∀ letter, c.1.session.letter = .live letter →
      (letterName r.env letter.rcptDomain).length < filenameSize
  body : c.1.session.state = .expectDataRecv →
    (patternScan (c.1.received r)).1 = .ptDataRecv →
      ∀ letter, c.1.session.letter = .live letter →
        (letter.add (c.1.received r)).body.length < bodySize

/-- The round brings a recipient that fits a field, ends a message whose domain
leaves room for the two numbers, the dots and the suffix, and brings text that
fits the body together with the text since DATA. -/
structure Short (c : Link × List Exchange) (r : Round) : Prop where
  recipient : c.1.session.state = .expectRcpt →
    ∀ arg, patternScan (c.1.received r) = (.ptRcpt, some arg) → arg.length < fieldSize
  filename : c.1.session.state = .expectDataRecv → EndsMessage (c.1.received r) →
    ∀ letter, c.1.session.letter = .live letter →
      (decimal r.env.pid).length + (decimal r.env.timestamp).length + letter.rcptDomain.length + 7 <
        filenameSize
  body : c.1.session.state = .expectDataRecv →
    (patternScan (c.1.received r)).1 = .ptDataRecv →
      textSize (textsOf c.2) + ((c.1.received r).length + 2) < bodySize

theorem fits_iff_short {c : Link × List Exchange} (hc : Known c) (r : Round) :
    Fits c r ↔ Short c r := by
  have hadd : ∀ letter : Letter, c.1.session.state = .expectDataRecv →
      c.1.session.letter = .live letter → (letter.add (c.1.received r)).body.length =
        textSize (textsOf c.2) + ((c.1.received r).length + 2) := by
    intro letter hst hletter
    obtain ⟨l, hl, hbody⟩ := hc.collected hst
    obtain rfl := LetterPtr.live.inj (hletter.symm.trans hl)
    rw [← length_bodyOf, ← hbody]
    simp [Letter.add, crlf]
  constructor
  · rintro ⟨hrecipient, hfilename, hbody⟩
    refine ⟨fun hst arg hscan => hrecipient hst arg hscan arg (mem_rcptCopies arg),
      fun hst hend letter hletter => ?_, fun hst hscan => ?_⟩
    · rw [← length_letterName]
      exact hfilename hst hend letter hletter
    · obtain ⟨letter, hletter, -⟩ := hc.collected hst
      rw [← hadd letter hst hletter]
      exact hbody hst hscan letter hletter
  · rintro ⟨hrecipient, hfilename, hbody⟩
    refine ⟨fun hst arg hscan text htext => ?_, fun hst hend letter hletter => ?_,
      fun hst hscan letter hletter => ?_⟩
    · obtain ⟨-, hline, -⟩ := patternScan_some rfl hscan
      exact lt_of_le_of_lt (length_rcptCopies_le hline htext) (hrecipient hst arg hscan)
    · rw [length_letterName]
      exact hfilename hst hend letter hletter
    · rw [hadd letter hst hletter]
      exact hbody hst hscan

/-- In every run, what is received fits where it is copied exactly as long as the
recipients, the domains and the messages are short enough. -/
theorem fields_fit_iff (now : Timeval) (e : Env) (rs : List Round) :
    Along Link.talk Fits (accepted now, []) (.greeting e :: rs) ↔
      Along Link.talk Short (accepted now, []) (.greeting e :: rs) := by
  have hdata : (accepted now).session.state ≠ .expectDataRecv := ServerState.noConfusion
  have hrcpt : (accepted now).session.state ≠ .expectRcpt := ServerState.noConfusion
  refine along_congr_after (iff_of_true ?_ ?_) (fun _ => known_of_greeting)
    (fun _ _ _ hc hok => hc.talk hok) (fun _ r _ hc => fits_iff_short hc r)
  · exact ⟨fun h => absurd h hrcpt, fun h => absurd h hdata, fun h => absurd h hdata⟩
  · exact ⟨fun h => absurd h hrcpt, fun h => absurd h hdata, fun h => absurd h hdata⟩

def longRecipient : CStr := "a@".toList ++ List.replicate 300 'd'

/-- A chunk of less than 1023 bytes brings it, and it does not fit. -/
theorem longRecipient_not_fits :
    let chunk := "RCPT TO:<".toList ++ longRecipient ++ ">\n".toList
    chunk.length ≤ 1023 ∧ patternScan chunk = (.ptRcpt, some longRecipient) ∧
      ¬Along Link.talk Fits (accepted ⟨0, 0⟩, [])
        (.greeting sampleEnv :: upToData.take 2 ++ [.chunk sampleEnv chunk]) := by
  have hline : '\n' ∉ longRecipient := by decide +kernel
  have hscan : patternScan ("RCPT TO:<".toList ++ longRecipient ++ ">\n".toList) =
      (.ptRcpt, some longRecipient) := patternScan_rcpt (by decide) hline
  refine ⟨by decide +kernel, hscan, fun h => ?_⟩
  have hrun : run Link.talk (accepted ⟨0, 0⟩, []) (.greeting sampleEnv :: upToData.take 2) =
      .ok _ := rfl
  have hlen := (h.of_run hrun).recipient rfl longRecipient hscan longRecipient
    (mem_rcptCopies longRecipient)
  exact absurd hlen (by decide +kernel)

end Link

end SmtpProj.Server
