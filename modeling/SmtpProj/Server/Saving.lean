import SmtpProj.Server.Overrun
import SmtpProj.Server.Projection
import SmtpProj.Server.Table

/-!
What the file of a letter holds, whatever the machine is.

The turns of a worker are taken with what the machine does in the pass of each
connection. A pass that leaves its fields may spill over whatever else the
process has, so what is known of one connection is known only as long as the
passes of all of them are inside. Then the letter of a transaction is what its
MAIL, its RCPT and its text made of it, and the lone dot saves exactly that.
-/

namespace SmtpProj.Server

open Lib

def Slot.toOption : Slot → Option Session
  | .live s => some s
  | .none => Option.none
  | .freed => Option.none

@[simp] theorem Slot.mem_toOption {slot : Slot} {s : Session} :
    s ∈ slot.toOption ↔ slot = .live s := by
  cases slot <;> simp [toOption, eq_comm]

/-- A turn of the loop, with what the machine does for each connection. -/
abbrev TurnWith : Type := (Kernel × Env) × (ℕ → Outside)

namespace Worker

variable {i : ℕ} {w w' : Worker} {k : TurnWith} {e : Env} {o : ℕ → Outside} {l : Link}

def updateConnWith (e : Env) (o : ℕ → Outside) (w : Worker) (i : ℕ) : Except WorkerStop Worker :=
  match w.connections i with
  | .none => .ok w
  | .freed => .error .freedConn
  | .live s =>
      match ((o i).pass e s).result with
      | .ok s' => .ok ((o i).spill e s (w.setSlot i (.live s')))
      | .error h => .error (.halted h)

def protocolUpdateWith (e : Env) (o : ℕ → Outside) (w : Worker) : Except WorkerStop Worker :=
  run (updateConnWith e o) w (List.range connSize)

def turnWith (w : Worker) (k : TurnWith) : Except WorkerStop Worker := do
  let w ← w.connUpdate k.1.1
  w.protocolUpdateWith k.1.2 k.2

def talkWith (i : ℕ) : Worker × List Exchange → TurnWith →
    Except WorkerStop (Worker × List Exchange) :=
  logged turnWith fun w k w' => w.exchange i k.1 w'

def PassesInside (e : Env) (o : ℕ → Outside) (w : Worker) : Prop :=
  ∀ j < connSize, ∀ s, w.connections j = .live s → Inside (o j).ends e s

instance (e : Env) (o : ℕ → Outside) (w : Worker) : Decidable (w.PassesInside e o) :=
  decidable_of_iff (∀ j < connSize, ∀ s ∈ (w.connections j).toOption, Inside (o j).ends e s) <| by
  simp only [Slot.mem_toOption]
  rfl

def InsideAt (w : Worker) (k : TurnWith) : Prop :=
  ∀ w', w.connUpdate k.1.1 = .ok w' → w'.PassesInside k.1.2 k.2

instance (w : Worker) (k : TurnWith) : Decidable (w.InsideAt k) :=
  match h : w.connUpdate k.1.1 with
  | .error _ => isTrue fun _ hok => by cases h.symm.trans hok
  | .ok w₁ => decidable_of_iff (w₁.PassesInside k.1.2 k.2)
      ⟨fun hin w₂ hok => by cases h.symm.trans hok; exact hin, fun hin => hin w₁ h⟩

/-! ### Turns -/

theorem updateConnWith_ok (hinside : ∀ s, w.connections i = .live s → Inside (o i).ends e s)
    (h : w.updateConnWith e o i = .ok w') :
    (w.connections i = .none ∧ w' = w) ∨ ∃ s s', w.connections i = .live s ∧
      ((o i).pass e s).result = .ok s' ∧ w' = w.setSlot i (.live s') := by
  unfold updateConnWith at h
  cases hs : w.connections i with
  | none =>
      rw [hs] at h
      cases h
      exact .inl ⟨rfl, rfl⟩
  | freed => simp [hs] at h
  | live s =>
      simp only [hs] at h
      cases hres : ((o i).pass e s).result with
      | error halt =>
          rw [hres] at h
          cases h
      | ok s' =>
          rw [hres] at h
          cases h
          exact .inr ⟨s, s', rfl, hres, (o i).spill_inside e s (hinside s hs) _⟩

theorem updateConnWith_sameAt {j : ℕ} (hj : j ≠ i)
    (hinside : ∀ s, w.connections j = .live s → Inside (o j).ends e s)
    (h : w.updateConnWith e o j = .ok w') : SameAt i w w' := by
  rcases updateConnWith_ok hinside h with ⟨-, rfl⟩ | ⟨s, s', -, -, rfl⟩
  · exact .refl i _
  · exact sameAt_setSlot hj _ w

theorem run_sameAtWith {js : List ℕ} (hi : i ∉ js) (hjs : js.Nodup)
    (hinside : ∀ j ∈ js, ∀ s, w.connections j = .live s → Inside (o j).ends e s)
    (h : run (updateConnWith e o) w js = .ok w') : SameAt i w w' := by
  induction js generalizing w with
  | nil =>
      cases h
      exact .refl i _
  | cons j js ih =>
      obtain ⟨w₁, h₁, hrest⟩ := bind_eq_ok.mp h
      obtain ⟨hj, hjs⟩ := List.nodup_cons.mp hjs
      simp only [List.mem_cons, not_or] at hi
      have hsame : ∀ m, j ≠ m → SameAt m w w₁ := fun m hm =>
        updateConnWith_sameAt hm (hinside j (by simp)) h₁
      refine (hsame i (Ne.symm hi.1)).trans (ih hi.2 hjs (fun m hm s hs => ?_) hrest)
      rw [(hsame m fun heq => hj (heq ▸ hm)).slot] at hs
      exact hinside m (by simp [hm]) s hs

/-- What a call of `protocol_update` does at one descriptor, and what it
leaves. -/
theorem protocolUpdateWith_at (hi : i < connSize) (hinside : w.PassesInside e o)
    (h : w.protocolUpdateWith e o = .ok w') :
    ∃ w₁ w₂, SameAt i w w₁ ∧ w₁.updateConnWith e o i = .ok w₂ ∧ SameAt i w₂ w' := by
  unfold protocolUpdateWith at h
  obtain ⟨before, behind, hrange, -⟩ := List.eq_append_cons_of_mem (List.mem_range.mpr hi)
  have hlt : ∀ j ∈ before ++ i :: behind, j < connSize := fun j hj =>
    List.mem_range.mp (hrange ▸ hj)
  have hnodup : (before ++ i :: behind).Nodup := hrange ▸ List.nodup_range
  obtain ⟨hbefore, hbehind, hne⟩ := List.nodup_append.mp hnodup
  obtain ⟨hi₂, hbehind⟩ := List.nodup_cons.mp hbehind
  have hi₁ : i ∉ before := fun hmem => hne i hmem i (by simp) rfl
  rw [hrange] at h
  obtain ⟨w₁, w₂, h₁, h₂, h₃⟩ := run_around h
  have hsame : ∀ j ∉ before, SameAt j w w₁ := fun j hj =>
    run_sameAtWith hj hbefore (fun m hm => hinside m (hlt m (by simp [hm]))) h₁
  refine ⟨w₁, w₂, hsame i hi₁, h₂, run_sameAtWith hi₂ hbehind (fun j hj s hs => ?_) h₃⟩
  have hji : i ≠ j := fun heq => hi₂ (heq ▸ hj)
  have hkept : SameAt j w₁ w₂ :=
    updateConnWith_sameAt hji (fun s hs => hinside i hi s ((hsame i hi₁).slot ▸ hs)) h₂
  rw [hkept.slot, (hsame j fun hmem => hne j hmem j (by simp [hj]) rfl).slot] at hs
  exact hinside j (hlt j (by simp [hj])) s hs

theorem protocolUpdateWith_shows (hi : i < connSize) (hl : Shows i w l)
    (hinside : w.PassesInside e o) (h : w.protocolUpdateWith e o = .ok w') :
    ∃ s, ((o i).pass e l.session).result = .ok s ∧ Shows i w' { l with session := s } := by
  obtain ⟨w₁, w₂, hbefore, hbody, hbehind⟩ := protocolUpdateWith_at hi hinside h
  have hl₁ := hl.of_sameAt hbefore
  have hin : ∀ s, w₁.connections i = .live s → Inside (o i).ends e s := fun s hs =>
    hinside i hi s (hbefore.slot ▸ hs)
  rcases updateConnWith_ok hin hbody with ⟨hnone, -⟩ | ⟨s, s', hs, hres, rfl⟩
  · cases hnone.symm.trans hl₁.slot
  · cases hs.symm.trans hl₁.slot
    have hl₂ : Shows i (w₁.setSlot i (.live s')) { l with session := s' } :=
      ⟨setSlot_same i _ _, hl₁.inRead, hl₁.inWrite, hl₁.bound, hl₁.accepted⟩
    exact ⟨s', hres, hl₂.of_sameAt hbehind⟩

theorem protocolUpdateWith_of_freed (hi : i < connSize) (hinside : w.PassesInside e o)
    (hfreed : w.connections i = .freed) : w.protocolUpdateWith e o ≠ .ok w' := by
  intro h
  obtain ⟨w₁, w₂, hsame, hbody, -⟩ := protocolUpdateWith_at hi hinside h
  simp [updateConnWith, hsame.slot, hfreed] at hbody

/-- A turn of inside passes is an inside round of the connection. -/
theorem turnWith_shows (hi : i < connSize) (hl : Shows i w l) (hk : ServesAt i w k.1.1)
    (hinside : w.InsideAt k) (h : w.turnWith k = .ok w') :
    ∃ r l' w₁, w.connUpdate k.1.1 = .ok w₁ ∧ w₁.connections i = .live (l.connUpdate r).session ∧
      l.InsideAt (r, k.2 i) ∧ l.roundWith (r, k.2 i) = .ok l' ∧
        w.received i k.1.1 = l.received r ∧ Shows i w' l' := by
  obtain ⟨w₁, hconn, hupdate⟩ := bind_eq_ok.mp h
  have hin := hinside w₁ hconn
  obtain ⟨r, henv, hr⟩ := connUpdate_shows hi hl hk k.1.2 hconn
  rcases hr with ⟨-, hfreed⟩ | ⟨hclosing, hl₁⟩
  · exact absurd hupdate (protocolUpdateWith_of_freed hi hin hfreed)
  · obtain ⟨s, hs, hl'⟩ := protocolUpdateWith_shows hi hl₁ hin hupdate
    have hpass : l.InsideAt (r, k.2 i) := by
      rw [Link.InsideAt, henv]
      exact hin i hi _ hl₁.slot
    refine ⟨r, { l.connUpdate r with session := s }, w₁, hconn, hl₁.slot, hpass, ?_,
      received_of_shows hconn hl₁, hl'⟩
    rw [Link.roundWith, if_neg hclosing, henv, hs]

theorem turnWith_greets (hi : i < connSize) (hlistener : w.listener < connSize)
    (hmax : w.listener ≤ w.maxFd) (hk : Accepts i w k.1.1) (hinside : w.InsideAt k)
    (h : w.turnWith k = .ok w') :
    ∃ l', (Link.accepted k.1.1.now).round (.greeting k.1.2) = .ok l' ∧
      w.received i k.1.1 = [] ∧ Shows i w' l' := by
  obtain ⟨w₁, hconn, hupdate⟩ := bind_eq_ok.mp h
  have hl₁ := connUpdate_accepts hi hlistener hmax hk hconn
  obtain ⟨s, hs, hl'⟩ := protocolUpdateWith_shows hi hl₁ (hinside w₁ hconn) hupdate
  refine ⟨{ Link.accepted k.1.1.now with session := s }, ?_, received_of_shows hconn hl₁, hl'⟩
  rw [← Link.roundWith_greeting _ _ (k.2 i), Link.roundWith,
    if_neg (Link.not_closing_accepted _ _), accepted_connUpdate]
  simp only [Round.greeting, hs]

/-- What is known of a connection after inside turns, from the one that accepts
it on. -/
theorem known_of_talkWith {k : TurnWith} {ks : List TurnWith} {h : List Exchange}
    (hi : i < connSize) (hlistener : w.listener < connSize) (hmax : w.listener ≤ w.maxFd)
    (hk : Accepts i w k.1.1)
    (hks : ∀ w₁, w.turnWith k = .ok w₁ → Guarded turnWith (fun w k => ServesAt i w k.1.1) w₁ ks)
    (hinside : Guarded turnWith InsideAt w (k :: ks))
    (hrun : run (talkWith i) (w, []) (k :: ks) = .ok (w', h)) :
    ∃ l, Shows i w' l ∧ Link.Known (l, h) := by
  obtain ⟨⟨w₁, h₁⟩, hturn, hrest⟩ := bind_eq_ok.mp hrun
  obtain ⟨hturn, hh₁⟩ := logged_eq_ok.mp hturn
  obtain ⟨hin, hinside⟩ := hinside w₁ hturn
  obtain ⟨l₁, hgreeting, hquiet, hl₁⟩ := turnWith_greets hi hlistener hmax hk hin hturn
  obtain rfl : h₁ = [] := hh₁.trans (if_pos hquiet)
  have hknown : Link.Known (l₁, []) :=
    Link.known_of_greeting (logged_eq_ok.mpr ⟨hgreeting, rfl⟩)
  have hguard : Guarded (talkWith i) (fun c k => ServesAt i c.1 k.1.1 ∧ c.1.InsideAt k)
      (w₁, []) ks :=
    guarded_logged ((hks w₁ hturn).and hinside) []
  refine run_invariant (P := fun c => ∃ l, Shows i c.1 l ∧ Link.Known (l, c.2))
    (fun c k c' ⟨l, hl, hlk⟩ hG hok => ?_) ⟨l₁, hl₁, hknown⟩ hguard hrest
  obtain ⟨hturn, hlog⟩ := logged_eq_ok.mp hok
  obtain ⟨r, l', -, -, -, hpass, hround, hreceived, hl'⟩ := turnWith_shows hi hl hG.1 hG.2 hturn
  refine ⟨l', hl', ?_⟩
  rw [hlog, exchange_shows hl hl' hreceived]
  exact hlk.roundWith hpass hround

/-! ### The letter that is saved -/

/-- The pass saves the envelope of the transaction of `h` and the text behind it,
in the file of its recipient, and goes on. -/
def SavesContent (x : Outside) (e : Env) (s : Session) (h texts : List Exchange) : Prop :=
  ∃ mailFrom rcptTo username domain, Recipient mailFrom rcptTo h ∧
    username ++ '@' :: domain = rcptTo ∧
      (e.creatable (maildirGetFname e username domain) = true →
        (x.pass e s).saved = [(maildirGetFname e username domain,
          mailFrom ++ ['\n'] ++ rcptTo ++ ['\n'] ++
            (texts.map fun y => y.chunk ++ crlf).flatten ++ ['\n'])] ∧
          ∃ s', (x.pass e s).result = .ok s' ∧ s'.files = s.files ++ (x.pass e s).saved)

theorem pass_of_loneDot {x : Outside} {s : Session} {letter : Letter}
    (hst : s.state = .expectDataRecv) (hletter : s.letter = .live letter)
    (hdot : LoneDot s.recvBuf) (hfile : e.creatable (letter.filename e) = true)
    (hinside : Inside x.ends e s) :
    (x.pass e s).saved = [(letter.filename e, letter.text)] ∧
      ∃ s', (x.pass e s).result = .ok s' ∧ s'.files = s.files ++ (x.pass e s).saved := by
  have hlong : ¬s.Short := fun hshort => by
    have hcommand := hshort.command
    rw [Session.command, patternScan_of_loneDot hdot] at hcommand
    cases hcommand
  obtain ⟨s', hok, hfiles⟩ := protocolUpdate_of_loneDot hst hletter hdot hfile
  have hpass : x.pass e s = ⟨[(letter.filename e, letter.text)], .ok s'⟩ := by
    rw [x.pass_inside e s hinside, passOf, if_neg hlong, hok, Passing.of]
    simp [hfiles]
  rw [hpass]
  exact ⟨rfl, s', rfl, hfiles⟩

/-- Whatever came before, and whatever the other connections do: when DATA was
accepted and message text `texts` came behind it, the lone dot saves the
envelope of this transaction and this text, and nothing else, as long as no pass
has left the fields. -/
theorem letter_content {k : TurnWith} {ks : List TurnWith} {w₁ w₂ : Worker} {k' : Kernel}
    {s : Session} {h texts : List Exchange} {data : Exchange} (hi : i < connSize)
    (hlistener : w.listener < connSize) (hmax : w.listener ≤ w.maxFd) (hk : Accepts i w k.1.1)
    (hks : ∀ w₁, w.turnWith k = .ok w₁ → Guarded turnWith (fun w k => ServesAt i w k.1.1) w₁ ks)
    (hinside : Guarded turnWith InsideAt w (k :: ks))
    (hrun : run (talkWith i) (w, []) (k :: ks) = .ok (w₁, h ++ data :: texts))
    (hdata : data.Data) (htexts : ∀ y ∈ texts, TextChunk y.chunk)
    (hk' : ServesAt i w₁ k') (hconn : w₁.connUpdate k' = .ok w₂) (hlast : w₂.PassesInside e o)
    (hslot : w₂.connections i = .live s) (hdot : LoneDot s.recvBuf) :
    SavesContent (o i) e s h texts := by
  obtain ⟨l, hl, hknown⟩ := known_of_talkWith hi hlistener hmax hk hks hinside hrun
  obtain ⟨r, -, hr⟩ := connUpdate_shows hi hl hk' e hconn
  rcases hr with ⟨-, hfreed⟩ | ⟨hclosing, hl₂⟩
  · rw [hslot] at hfreed
    cases hfreed
  obtain rfl : s = (l.connUpdate r).session := Slot.live.inj (hslot.symm.trans hl₂.slot)
  have hopen : l.session.state ≠ .disconnected := by
    intro hst
    -- a disconnected connection is passed over only when `select` fails
    have hfailed : r.ready = .selectFailed := by
      by_contra hready
      exact hclosing ⟨hst, hready⟩
    have hquiet : (l.connUpdate r).session.recvBuf = [] := by
      rw [Link.connUpdate, if_pos hfailed]
      exact hknown.greeted.recvBuf
    exact absurd hdot.mem (by simp [hquiet])
  obtain ⟨hst, letter, hletter, hbody, haddressed⟩ :=
    hknown.composed.text hopen h data texts rfl hdata htexts
  refine ⟨letter.mailFrom, letter.rcptTo, letter.rcptUsername, letter.rcptDomain,
    haddressed.recipient, haddressed.halves, fun hfile => ?_⟩
  have hsaves := pass_of_loneDot (by simpa using hst) (by simpa using hletter) hdot hfile
    (hlast i hi _ hslot)
  rwa [Letter.text, hbody] at hsaves

/-! ### Two letters -/

def acceptsWith : TurnWith := ((acceptsFour, sampleEnv), fun _ => heap)

def receivesLetter (recipient : CStr) (texts : List CStr) : List TurnWith :=
  (["HELO c\r\n".toList, "MAIL FROM:<a@b.c>\r\n".toList,
    "RCPT TO:<".toList ++ recipient ++ ">\r\n".toList, "DATA\r\n".toList] ++ texts).map
      fun line => ((receivesOnFour (.bytes line), sampleEnv), fun _ => heap)

def receivesDot : Kernel := receivesOnFour (.bytes ".\r\n".toList)

def upToDot (recipient : CStr) (texts : List CStr) :
    Except WorkerStop ((Worker × List Exchange) × Worker × Option Session) := do
  let c ← run (talkWith 4) (boot 3, []) (acceptsWith :: receivesLetter recipient texts)
  let w ← c.1.connUpdate receivesDot
  .ok (c, w, (w.connections 4).toOption)

theorem upToDot_ok {recipient : CStr} {texts : List CStr} {c : Worker × List Exchange}
    {s : Option Session} (h : upToDot recipient texts = .ok (c, w, s)) :
    run (talkWith 4) (boot 3, []) (acceptsWith :: receivesLetter recipient texts) = .ok c ∧
      c.1.connUpdate receivesDot = .ok w ∧ s = (w.connections 4).toOption := by
  obtain ⟨c', hrun, h⟩ := bind_eq_ok.mp h
  obtain ⟨w', hconn, h⟩ := bind_eq_ok.mp h
  cases h
  exact ⟨hrun, hconn, rfl⟩

/-- A letter with one line of text. -/
theorem letter_content_firstLine : ∃ s h texts, SavesContent heap sampleEnv s h texts ∧
    texts = [⟨"first line".toList, []⟩] ∧ s.state = .expectDataRecv := by
  let recipient := "d@e.f".toList
  let h : List Exchange := [⟨"HELO c\r\n".toList, [responseHelo]⟩,
    ⟨"MAIL FROM:<a@b.c>\r\n".toList, [response250]⟩, ⟨"RCPT TO:<d@e.f>\r\n".toList, [response250]⟩]
  let data : Exchange := ⟨"DATA\r\n".toList, [response354]⟩
  let text : Exchange := ⟨"first line".toList, []⟩
  have hserves : ((boot 3).turnWith acceptsWith).map (fun w => decide
      (Along turnWith (fun w k => ServesAt 4 w k.1.1) w
        (receivesLetter recipient [text.chunk]))) = .ok true := by
    decide +kernel
  have hinside : Along turnWith InsideAt (boot 3)
      (acceptsWith :: receivesLetter recipient [text.chunk]) := by
    decide +kernel
  have hdot : (upToDot recipient [text.chunk]).map (fun c => (c.1.2,
      decide (ServesAt 4 c.1.1 receivesDot), decide (c.2.1.PassesInside sampleEnv fun _ => heap),
        c.2.2.any fun s => decide (LoneDot s.recvBuf ∧ s.state = .expectDataRecv))) =
      .ok (h ++ [data, text], true, true, true) := by
    decide +kernel
  cases hupto : upToDot recipient [text.chunk] with
  | error stop =>
      rw [hupto] at hdot
      cases hdot
  | ok c =>
      obtain ⟨⟨w₁, hist⟩, w₂, slot⟩ := c
      rw [hupto] at hdot
      obtain ⟨hrun, hconn, rfl⟩ := upToDot_ok hupto
      simp only [Except.map, Except.ok.injEq, Prod.mk.injEq, decide_eq_true_eq] at hdot
      obtain ⟨rfl, hserving, hlast, hdot⟩ := hdot
      obtain ⟨s, hslot, hs⟩ := (Option.any_eq_true _ _).mp hdot
      rw [decide_eq_true_eq] at hs
      have hguarded : ∀ w, (boot 3).turnWith acceptsWith = .ok w →
          Guarded turnWith (fun w k => ServesAt 4 w k.1.1) w
            (receivesLetter recipient [text.chunk]) := by
        intro w hw
        rw [hw] at hserves
        exact (of_decide_eq_true (Except.ok.inj hserves)).guarded
      refine ⟨s, h, [text], ?_, rfl, hs.2⟩
      exact letter_content (by decide) (by decide) (by decide)
        ⟨⟨_, _, rfl, by decide, by decide, by decide⟩, rfl, by decide, by decide⟩ hguarded
        hinside.guarded hrun ⟨by decide, rfl⟩
        (by simpa using (⟨by decide, by decide, by decide⟩ : TextChunk text.chunk)) hserving hconn
        hlast (Slot.mem_toOption.mp hslot) hs.1

/-- A recipient of 281 bytes is saved with its last nine bytes replaced by its
user name, where the fields of a letter lie side by side. -/
theorem overlong_recipient_replaced : ∃ w₁ w₂ s h data,
    run (talkWith 4) (boot 3, []) (acceptsWith :: receivesLetter overlongRecipient []) =
        .ok (w₁, h ++ [data]) ∧ data.Data ∧
      w₁.connUpdate receivesDot = .ok w₂ ∧ w₂.connections 4 = .live s ∧ LoneDot s.recvBuf ∧
        ¬SavesContent heap sampleEnv s h [] := by
  let data : Exchange := ⟨"DATA\r\n".toList, [response354]⟩
  have hdot : (upToDot overlongRecipient []).map (fun c => (c.1.2,
      c.2.2.any fun s => decide (LoneDot s.recvBuf ∧
        (heap.pass sampleEnv s).saved.map Prod.snd = [overlongText]))) =
      .ok (overlongExchanges ++ [data], true) := by
    decide +kernel
  cases hupto : upToDot overlongRecipient [] with
  | error stop =>
      rw [hupto] at hdot
      cases hdot
  | ok c =>
      obtain ⟨⟨w₁, hist⟩, w₂, slot⟩ := c
      rw [hupto] at hdot
      obtain ⟨hrun, hconn, rfl⟩ := upToDot_ok hupto
      simp only [Except.map, Except.ok.injEq, Prod.mk.injEq] at hdot
      obtain ⟨rfl, hdot⟩ := hdot
      obtain ⟨s, hslot, hs⟩ := (Option.any_eq_true _ _).mp hdot
      rw [decide_eq_true_eq] at hs
      refine ⟨w₁, w₂, s, _, data, hrun, ⟨by decide, rfl⟩, hconn, Slot.mem_toOption.mp hslot, hs.1,
        ?_⟩
      rintro ⟨mailFrom, rcptTo, username, domain, hr, -, hsaves⟩
      obtain ⟨rfl, rfl⟩ := @overlong_arguments _ _ [] (by simp) (by simpa using hr)
      have hsaved := hs.2
      rw [(hsaves rfl).1] at hsaved
      have htext : "a@b.c".toList ++ ['\n'] ++ overlongRecipient ++ ['\n'] ++ [] ++ ['\n'] =
          overlongText := (List.cons.inj hsaved).1
      exact absurd htext (by decide +kernel)

end Worker

end SmtpProj.Server
