import SmtpProj.Server.Commands

/-!
Whether VRFY leaves a trace.

The automaton has no way out of `process_vrfy`. The handler puts the state back
by hand, from `old_state`, which every pass writes before it steps the
automaton, so the state that comes back is the one the line was received in,
however many of these lines there are.

A session is compared with the same session with VRFY lines put in between.
The two differ in `old_state`, in the watch and in what is still to be sent, and
in nothing that a later chunk is answered from.
-/

namespace SmtpProj.Server

open Lib

/-! ### Two sessions -/

structure Status where
  state : ServerState
  letter : LetterPtr
  files : List (CStr × CStr)
  deriving DecidableEq

def Session.status (s : Session) : Status := ⟨s.state, s.letter, s.files⟩

/-- A round that brings `text`; it is not an own one of the session if the text
was put in between. -/
structure Turn where
  own : Bool
  text : CStr
  round : Round

def Turn.greeting (e : Env) : Turn := ⟨true, [], .greeting e⟩

structure View where
  own : Bool
  before : Status
  exchange : List Exchange
  after : Status
  deriving DecidableEq

def View.Refused (v : View) : Prop :=
  (∃ text, v.exchange = [⟨text, [response502]⟩]) ∧ v.after = v.before

namespace Link

def turn (l : Link) (t : Turn) : Except LinkEnd Link := l.round t.round

def view (l : Link) (t : Turn) (l' : Link) : List View :=
  [⟨t.own, l.session.status, l.exchange t.round l', l'.session.status⟩]

def viewed : Link × List View → Turn → Except LinkEnd (Link × List View) := logged turn view

/-- The round brings the text of the turn, and does not give the connection up
for its silence. -/
def Brings (l : Link) (t : Turn) : Prop :=
  l.received t.round = t.text ∧
    (t.text = [] → ¬ stopwatchWatch t.round.env.now (l.connUpdate t.round).session.watch >
      connTimeout)

instance (l : Link) (t : Turn) : Decidable (l.Brings t) := inferInstanceAs (Decidable (_ ∧ (_ → _)))

def LetsIn (l : Link) (t : Turn) : Prop :=
  l.Brings t ∧ (t.own = false → l.session.state.isOpen = true)

instance (l : Link) (t : Turn) : Decidable (l.LetsIn t) := inferInstanceAs (Decidable (_ ∧ (_ → _)))

end Link

/-! ### One pass -/

variable {e : Env} {s s₁ s₁' : Session}

/-- What is served depends on the status and the chunk alone. -/
theorem Serves.congr {type : PatternType} {content : Option CStr} {o : Effect}
    (h : Serves e s₁ type content o) (hstate : s.state = s₁.state) (hletter : s.letter = s₁.letter)
    (hrecv : s.recvBuf = s₁.recvBuf) : Serves e s type content o := by
  rcases s with ⟨⟨sendBuf, recvBuf, state, oldState, letter, watch⟩, replies, dirs, files, wire⟩
  obtain rfl : state = s₁.state := hstate
  obtain rfl : letter = s₁.letter := hletter
  obtain rfl : recvBuf = s₁.recvBuf := hrecv
  cases h <;> constructor <;> assumption

/-- Passes over sessions of one status, with one text, do the same. -/
theorem protocolUpdate_congr (hstatus : s.status = s₁.status) (hinit : s.state ≠ .init)
    (hrecv : s.recvBuf = s₁.recvBuf)
    (hquiet : s.recvBuf = [] → ¬stopwatchWatch e.now s.watch > connTimeout)
    (hquiet₁ : s₁.recvBuf = [] → ¬stopwatchWatch e.now s₁.watch > connTimeout)
    (h : protocolUpdate e s₁ = .ok s₁') :
    ∃ s' replies, protocolUpdate e s = .ok s' ∧ s'.status = s₁'.status ∧
      s'.replies = s.replies ++ replies ∧ s₁'.replies = s₁.replies ++ replies := by
  have hstate : s.state = s₁.state := congrArg Status.state hstatus
  have hletter : s.letter = s₁.letter := congrArg Status.letter hstatus
  have hfiles : s.files = s₁.files := congrArg Status.files hstatus
  have hinit₁ : s₁.state ≠ .init := by rwa [← hstate]
  by_cases hidle₁ : s₁.recvBuf = []
  · have hidle : s.recvBuf = [] := hrecv.trans hidle₁
    rw [protocolUpdate_of_idle hidle₁ hinit₁, if_neg (hquiet₁ hidle₁)] at h
    cases h
    refine ⟨s, [], ?_, hstatus, by simp, by simp⟩
    rw [protocolUpdate_of_idle hidle hinit, if_neg (hquiet hidle)]
  · have hchunk : s.recvBuf ≠ [] := by rwa [hrecv]
    cases protocolUpdate_passed hinit₁ h with
    | idle h₁ | timeout h₁ => exact absurd h₁ hidle₁
    | unknown _ hno hs₁ =>
        subst hs₁
        rw [← hrecv, ← hstate] at hno
        refine ⟨_, [response500],
          (protocolUpdate_of_chunk hchunk hinit).trans (updateRecv_of_noMatch hno), ?_, rfl, rfl⟩
        simp only [Session.status, Session.reply, hstate, hletter, hfiles]
    | served o _ ho hs₁ =>
        have hserves := ho.congr hstate hletter hrecv
        rw [← hrecv] at hserves
        obtain ⟨s', hok, hs', -⟩ := protocolUpdate_of_serves hchunk hserves
        refine ⟨s', o.reply.toList, hok, ?_, hs'.replies, hs₁.replies⟩
        simp only [Session.status, hs'.state, hs'.letter, hs'.files, hs₁.state, hs₁.letter,
          hs₁.files, hfiles]

/-! ### One turn -/

namespace Link

structure Alike (l l₁ : Link) : Prop where
  left : l.Greeted
  right : l₁.Greeted
  status : l.session.status = l₁.session.status

@[simp] theorem connUpdate_status (r : Round) (l : Link) :
    (l.connUpdate r).session.status = l.session.status := by
  simp [Session.status]

theorem round_of_pass {l : Link} {r : Round} {s' : Session} (hclosing : ¬l.Closing r)
    (h : Server.protocolUpdate r.env (l.connUpdate r).session = .ok s') :
    ∃ l', l.round r = .ok l' ∧ l'.session = s' := by
  rw [round_of_not_closing hclosing, protocolUpdate, h]
  exact ⟨_, rfl, rfl⟩

theorem exchange_of_brings {l l' : Link} {t : Turn} {replies : List CStr} (hl : l.Brings t)
    (h : l'.session.replies = (l.connUpdate t.round).session.replies ++ replies) :
    l.exchange t.round l' = if t.text = [] then [] else [⟨t.text, replies⟩] := by
  rw [← hl.1]
  split_ifs with htext
  · exact exchange_of_idle htext
  · exact exchange_of_chunk htext h

/-- A turn of the session does the same on both connections. -/
theorem Alike.turn {l l₁ l₁' : Link} {t : Turn} (h : Alike l l₁) (hl : l.Brings t)
    (hl₁ : l₁.Brings t) (hturn : l₁.turn t = .ok l₁') :
    ∃ l', l.turn t = .ok l' ∧ Alike l' l₁' ∧ l.view t l' = l₁.view t l₁' := by
  have hstate : l.session.state = l₁.session.state := congrArg Status.state h.status
  have hclosing₁ : ¬l₁.Closing t.round := fun hclosing => by
    have herr := round_of_closing hclosing
    cases herr.symm.trans hturn
  have hclosing : ¬l.Closing t.round := by
    unfold Closing at hclosing₁ ⊢
    rwa [hstate]
  have hpass₁ : (l₁.connUpdate t.round).protocolUpdate t.round = .ok l₁' :=
    (round_of_not_closing hclosing₁).symm.trans hturn
  have hbefore : (l.connUpdate t.round).session.status =
      (l₁.connUpdate t.round).session.status := by
    rw [connUpdate_status, connUpdate_status, h.status]
  obtain ⟨s', replies, hok, hstatus, hreplies, hreplies₁⟩ :=
    protocolUpdate_congr hbefore (by simpa using h.left.state) (hl.1.trans hl₁.1.symm)
      (fun htext => hl.2 (hl.1.symm.trans htext)) (fun htext => hl₁.2 (hl₁.1.symm.trans htext))
      (protocolUpdate_eq_ok hpass₁).1
  obtain ⟨l', hround, rfl⟩ := round_of_pass hclosing hok
  refine ⟨l', hround, ⟨h.left.round hround, h.right.round hturn, hstatus⟩, ?_⟩
  simp only [view, exchange_of_brings hl hreplies, exchange_of_brings hl₁ hreplies₁, h.status,
    hstatus]

/-- A VRFY line is refused, and that is all. -/
theorem vrfy_turn {l : Link} {t : Turn} (hl : l.Greeted) (hbrings : l.Brings t)
    (hopen : l.session.state.isOpen = true) (hvrfy : (patternScan t.text).1 = .ptVrfy) :
    ∃ l', l.turn t = .ok l' ∧ l'.Greeted ∧ l'.session.status = l.session.status ∧
      ∃ v : View, l.view t l' = [v] ∧ v.own = t.own ∧ v.Refused := by
  have htext : t.text ≠ [] := by
    rintro hnil
    rw [hnil] at hvrfy
    revert hvrfy
    decide
  have hclosing : ¬l.Closing t.round := by
    rintro ⟨hst, -⟩
    rw [hst] at hopen
    cases hopen
  have hrecv : (l.connUpdate t.round).session.recvBuf = t.text := hbrings.1
  have hserves : Serves t.round.env (l.connUpdate t.round).session
      (patternScan (l.connUpdate t.round).session.recvBuf).1
      (patternScan (l.connUpdate t.round).session.recvBuf).2
      ⟨(l.connUpdate t.round).session.state, (l.connUpdate t.round).session.letter,
        some response502, []⟩ := by
    rw [hrecv, hvrfy]
    exact .vrfy (by simpa using hopen)
  obtain ⟨s', hok, hs', -⟩ := protocolUpdate_of_serves (by rwa [hrecv]) hserves
  obtain ⟨l', hround, rfl⟩ := round_of_pass hclosing hok
  have hstatus : l'.session.status = l.session.status := by
    simp [Session.status, hs'.state, hs'.letter, hs'.files]
  refine ⟨l', hround, hl.round hround, hstatus, _, rfl, rfl, ⟨t.text, ?_⟩, hstatus⟩
  exact (exchange_of_brings hbrings hs'.replies).trans (if_neg htext)

/-! ### Two runs -/

/-- The connection with the VRFY lines, and the one without. -/
structure Unmoved (c c₁ : Link × List View) : Prop where
  alike : Alike c.1 c₁.1
  own : c.2.filter View.own = c₁.2
  refused : ∀ v ∈ c.2, v.own = false → v.Refused

theorem Unmoved.own_turn {c c₁ c₁' : Link × List View} {t : Turn} (h : Unmoved c c₁)
    (hc : c.1.Brings t) (hc₁ : c₁.1.Brings t) (hown : t.own = true)
    (hturn : viewed c₁ t = .ok c₁') : ∃ c', viewed c t = .ok c' ∧ Unmoved c' c₁' := by
  obtain ⟨hround₁, hlog₁⟩ := logged_eq_ok.mp hturn
  obtain ⟨l', hround, halike, hview⟩ := h.alike.turn hc hc₁ hround₁
  refine ⟨(l', c.2 ++ c.1.view t l'), logged_eq_ok.mpr ⟨hround, rfl⟩, halike, ?_, ?_⟩
  · rw [hlog₁, List.filter_append, h.own, hview]
    exact congrArg _ (List.filter_eq_self.mpr (by simp [view, hown]))
  · intro v hv hforeign
    rcases List.mem_append.mp hv with hv | hv
    · exact h.refused v hv hforeign
    · rw [List.mem_singleton.mp hv] at hforeign
      cases hown.symm.trans hforeign

theorem Unmoved.vrfy_turn {c c₁ : Link × List View} {t : Turn} (h : Unmoved c c₁)
    (hc : c.1.LetsIn t) (hforeign : t.own = false) (hvrfy : (patternScan t.text).1 = .ptVrfy) :
    ∃ c', viewed c t = .ok c' ∧ Unmoved c' c₁ := by
  obtain ⟨l', hround, hgreeted, hstatus, v, hview, hv, hrefused⟩ :=
    Link.vrfy_turn h.alike.left hc.1 (hc.2 hforeign) hvrfy
  refine ⟨(l', c.2 ++ [v]), logged_eq_ok.mpr ⟨hround, by rw [hview]⟩,
    ⟨hgreeted, h.alike.right, hstatus.trans h.alike.status⟩, ?_, ?_⟩
  · rw [List.filter_append, h.own, List.filter_cons_of_neg (by simp [hv, hforeign])]
    simp
  · intro w hw hforeign
    rcases List.mem_append.mp hw with hw | hw
    · exact h.refused w hw hforeign
    · rw [List.mem_singleton.mp hw]
      exact hrefused

theorem Unmoved.run {c c₁ c₁' : Link × List View} {ts : List Turn} (h : Unmoved c c₁)
    (hvrfy : ∀ t ∈ ts, t.own = false → (patternScan t.text).1 = .ptVrfy)
    (hletsIn : Along turn LetsIn c.1 ts) (hbrings : Along turn Brings c₁.1 (ts.filter Turn.own))
    (hrun : run viewed c₁ (ts.filter Turn.own) = .ok c₁') :
    ∃ c', run viewed c ts = .ok c' ∧ Unmoved c' c₁' :=
  run_insertion (fun _ _ _ _ hR hc hc₁ hown hturn => hR.own_turn hc.1 hc₁ hown hturn)
    (fun _ _ t ht hR hc hforeign => hR.vrfy_turn hc hforeign (hvrfy t ht hforeign)) h
    (along_logged hletsIn c.2) (along_logged hbrings c₁.2) hrun

theorem unmoved_of_greeting {now : Timeval} {e : Env} {c : Link × List View}
    (h : viewed (accepted now, []) (.greeting e) = .ok c) : Unmoved c c := by
  obtain ⟨hround, hlog⟩ := logged_eq_ok.mp h
  have hgreeted : c.1.Greeted := greeted_of_greeting hround
  have hown : ∀ v ∈ c.2, v.own = true := by
    intro v hv
    rw [hlog] at hv
    rw [List.mem_singleton.mp hv]
    rfl
  refine ⟨⟨hgreeted, hgreeted, rfl⟩, List.filter_eq_self.mpr hown, fun v hv hforeign => ?_⟩
  cases (hown v hv).symm.trans hforeign

def linesWithVrfy (lines : List String) : List Turn :=
  lines.map fun line =>
    ⟨decide (line ≠ "VRFY a\r\n"), line.toList, .chunk sampleEnv line.toList⟩

end Link

end SmtpProj.Server
