import SmtpProj.Server.Arguments
import SmtpProj.Server.Commands

/-!
How RCPT decides about a recipient.

`process_rcpt` has an answer for a missing argument, but the RCPT pattern never
captures nothing. What can be missing is the address in the argument: the
address pattern needs an `@` with something on both sides, and its result is
copied without asking whether it matched. So an address is accepted, and what
is no address is neither accepted nor rejected.
-/

namespace SmtpProj.Server

open Lib

def fieldSize : ℕ := 255

structure RcptAccepted (s : Session) (arg : CStr) (s' : Session) : Prop where
  state : s'.state = .expectData
  letter : ∃ letter username domain, s.letter = .live letter ∧ username ++ '@' :: domain = arg ∧
    s'.letter = .live
      { letter with rcptTo := arg, rcptUsername := username, rcptDomain := domain }
  replies : s'.replies = s.replies ++ [response250]

structure RcptRejected (s s' : Session) : Prop where
  state : s'.state = .expectRcpt
  letter : s'.letter = s.letter
  replies : s'.replies = s.replies ++ [response501]

/-- The pass accepts the recipient, or rejects what the address pattern does not
split. -/
def RcptDecided (e : Env) (s : Session) (arg : CStr) : Prop :=
  ∃ s', protocolUpdate e s = .ok s' ∧
    (RcptAccepted s arg s' ∨ patternEmail arg = none ∧ RcptRejected s s')

def IsAddress (arg : CStr) : Prop :=
  ∃ username domain, arg = username ++ '@' :: domain ∧ username ≠ [] ∧ domain ≠ []

theorem IsAddress.at_mem {arg : CStr} (h : IsAddress arg) : '@' ∈ arg := by
  obtain ⟨username, domain, rfl, -⟩ := h
  simp

/-- Within a line, the address pattern splits the addresses and nothing else. -/
theorem patternEmail_isSome_iff {arg : CStr} (hline : '\n' ∉ arg) :
    (patternEmail arg).isSome = true ↔ IsAddress arg := by
  constructor
  · intro h
    obtain ⟨⟨username, domain⟩, hemail⟩ := Option.isSome_iff_exists.mp h
    exact ⟨username, domain, patternEmail_eq_some hline hemail⟩
  · rintro ⟨username, domain, rfl, huser, hdom⟩
    simp only [List.mem_append, List.mem_cons, not_or] at hline
    exact patternEmail_isSome huser hdom hline.1 hline.2.2

variable {e : Env} {s : Session} {arg : CStr}

theorem rcptDecided_of_address (hready : LetterReady s) (hst : s.state = .expectRcpt)
    (hscan : patternScan s.recvBuf = (.ptRcpt, some arg)) (harg : IsAddress arg) :
    RcptDecided e s arg := by
  have hrecv : s.recvBuf ≠ [] := ne_nil_of_patternScan_some rfl hscan
  obtain ⟨-, hline, -⟩ := patternScan_some rfl hscan
  obtain ⟨letter, hletter⟩ := hready (by rw [hst]; rfl)
  obtain ⟨⟨username, domain⟩, hemail⟩ :=
    Option.isSome_iff_exists.mp ((patternEmail_isSome_iff hline).mpr harg)
  obtain ⟨s', hok, hgives⟩ := protocolUpdate_of_scan hrecv hscan (.rcpt hst hletter hemail)
  have hhalves := (patternEmail_eq_some hline hemail).1
  exact ⟨s', hok, .inl ⟨hgives.state, ⟨letter, username, domain, hletter, hhalves.symm,
    hgives.letter⟩, hgives.replies⟩⟩

/-- What is no address stops the process, with the connection half way. -/
theorem protocolUpdate_of_not_address (hready : LetterReady s) (hst : s.state = .expectRcpt)
    (hscan : patternScan s.recvBuf = (.ptRcpt, some arg)) (harg : ¬IsAddress arg) :
    protocolUpdate e s = .error .nullRead := by
  have hrecv : s.recvBuf ≠ [] := ne_nil_of_patternScan_some rfl hscan
  obtain ⟨-, hline, -⟩ := patternScan_some rfl hscan
  have hemail : patternEmail arg = none := by
    rw [← Option.not_isSome_iff_eq_none, patternEmail_isSome_iff hline]
    exact harg
  exact protocolUpdate_of_fails hready hrecv hscan (.rcpt hst hemail)

theorem rcptDecided_iff (hready : LetterReady s) (hst : s.state = .expectRcpt)
    (hscan : patternScan s.recvBuf = (.ptRcpt, some arg)) :
    RcptDecided e s arg ↔ IsAddress arg := by
  constructor
  · rintro ⟨s', hok, -⟩
    by_contra harg
    rw [protocolUpdate_of_not_address hready hst hscan harg] at hok
    cases hok
  · exact rcptDecided_of_address hready hst hscan

namespace Link

/-- RCPT is decided about when a recipient is waited for, and its argument fits
the fields of the letter. -/
def Decides (l : Link) (r : Round) : Prop :=
  l.session.state = .expectRcpt → ∀ arg, patternScan (l.received r) = (.ptRcpt, some arg) →
    arg.length < fieldSize → RcptDecided r.env (l.connUpdate r).session arg

/-- A RCPT that comes when a recipient is waited for carries an address. -/
def BringsAddress (l : Link) (r : Round) : Prop :=
  l.session.state = .expectRcpt → ∀ arg, patternScan (l.received r) = (.ptRcpt, some arg) →
    arg.length < fieldSize → IsAddress arg

theorem decides_iff_bringsAddress {l : Link} (hl : l.Greeted) (r : Round) :
    l.Decides r ↔ l.BringsAddress r := by
  refine forall_congr' fun hst => forall₃_congr fun arg hscan _ => ?_
  exact rcptDecided_iff (hl.ready r) (by simpa using hst) hscan

/-- In every run, RCPT accepts or rejects exactly as long as what it is given are
addresses. -/
theorem recipients_decided_iff (now : Timeval) (e : Env) (rs : List Round) :
    Along round Decides (accepted now) (.greeting e :: rs) ↔
      Along round BringsAddress (accepted now) (.greeting e :: rs) := by
  have hinit : (accepted now).session.state ≠ .expectRcpt := ServerState.noConfusion
  exact along_greeted_congr (iff_of_true (fun h => absurd h hinit) (fun h => absurd h hinit))
    fun _ hl r => decides_iff_bringsAddress hl r

/-- A recipient without an `@` stops the process. -/
theorem recipient_without_at :
    let rs := Round.greeting sampleEnv :: upToData.take 2 ++
      [.chunk sampleEnv "RCPT TO:<nobody>\r\n".toList]
    run round (accepted ⟨0, 0⟩) rs = .error (.halted .nullRead) ∧
      ¬Along round Decides (accepted ⟨0, 0⟩) rs := by
  refine ⟨by decide +kernel, fun h => ?_⟩
  have hrun : run round (accepted ⟨0, 0⟩) (.greeting sampleEnv :: upToData.take 2) = .ok _ := rfl
  have hgreeted := greeted_of_run hrun
  have haddress := (decides_iff_bringsAddress hgreeted _).mp (h.of_run hrun) rfl "nobody".toList
    (by decide +kernel) (by decide)
  exact absurd haddress.at_mem (by decide)

end Link

end SmtpProj.Server
