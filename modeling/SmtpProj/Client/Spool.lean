import SmtpProj.Client.Isolation

/-!
When the file of a letter leaves the directory `new`.

The file is renamed at the step that sends the sender, before the server has
said anything about the letter, and nothing renames it back. So the letter is
found by no later scan from then on, whatever becomes of the session. The
promise that only an accepted letter leaves `new` holds exactly in the runs in
which the rename finds nothing to do, or an acceptance of an earlier session.
A letter with nothing but newlines is renamed too, by the call that ends the
process; so what is promised is promised of the log behind every call, and not
only of the states in which one completes.
-/

namespace SmtpProj.Client

open Lib

/-- What the lines of a letter behind the sender and the recipient are sent
as. -/
def bodyText (text : CStr) : CStr :=
  ((bodyLines text).map (· ++ "\n".toList)).flatten ++ endOfBody

/-- Three steps of a session between which `strtok` is used for nothing else
send a letter: its first line as the sender, the second as the recipient, and
the others as the body. -/
theorem session_sends_letter {place : Option CStr} {text sender rcpt place₁ place₂ : CStr}
    (hsender : sendMailFrom place (some text) = .ok (sender, place₁))
    (hrcpt : sendRcptTo (some place₁) (some text) = .ok (rcpt, place₂)) :
    ∃ line₁ line₂ lines, tokens '\n' text = line₁ :: line₂ :: lines ∧
      sender = "MAIL FROM: <".toList ++ line₁ ++ ">\n".toList ∧
        rcpt = "RCPT TO:<".toList ++ line₂ ++ ">\n".toList ∧
          sendMsgBody (some place₂) = .ok (lines.map (· ++ "\n".toList) ++ [endOfBody], []) := by
  obtain ⟨⟨token₁, rest₁⟩, htok₁, hsender⟩ := bind_eq_ok.mp hsender
  obtain ⟨⟨token₂, rest₂⟩, htok₂, hrcpt⟩ := bind_eq_ok.mp hrcpt
  cases token₁ with
  | none => cases hsender
  | some line₁ =>
      cases hsender
      cases token₂ with
      | none => cases hrcpt
      | some line₂ =>
          cases hrcpt
          obtain ⟨_, htext, hlines₁⟩ := strtok_ok htok₁
          cases htext
          obtain ⟨_, htext, hlines₂⟩ := strtok_ok htok₂
          cases htext
          exact ⟨line₁, line₂, _, hlines₁.trans (by rw [hlines₂]), rfl, rfl, rfl⟩

def Left (path : CStr) (log : List Event) : Prop :=
  ∃ target, target ≠ path ∧ .moved path target ∈ log

/-- Some session took the letter, sent its body to the end, and was then
answered with a 2xx reply. -/
def Accepted (path : CStr) (log : List Event) : Prop :=
  ∃ j text reply before session after,
    log = before ++ .took j path (some text) :: session ++ .answered j .sendBody reply :: after ∧
    (∀ p t, .took j p t ∉ session) ∧ bodyText text <:+ (sentTo j session).flatten ∧
    200 ≤ replyCode reply ∧ replyCode reply < 300

def Event.repliesToBody : Event → Bool
  | .answered _ .sendBody _ => true
  | _ => false

theorem Accepted.replied {path : CStr} {log : List Event} (h : Accepted path log) :
    log.any Event.repliesToBody = true := by
  obtain ⟨j, text, reply, before, session, after, rfl, -⟩ := h
  simp [Event.repliesToBody]

theorem Accepted.append {path : CStr} {log : List Event} (h : Accepted path log)
    (events : List Event) : Accepted path (log ++ events) := by
  obtain ⟨j, text, reply, before, session, after, rfl, hrest⟩ := h
  exact ⟨j, text, reply, before, session, after ++ events, by simp, hrest⟩

/-- Only a reply completes an acceptance. -/
theorem Accepted.of_append {path : CStr} {log events : List Event}
    (hevents : ∀ j st reply, .answered j st reply ∉ events) (h : Accepted path (log ++ events)) :
    Accepted path log := by
  obtain ⟨j, text, reply, before, session, after, heq, hrest⟩ := h
  rcases List.append_eq_append_iff.mp heq with ⟨rest, -, hr⟩ | ⟨rest, hl, hr⟩
  · refine absurd ?_ (hevents j .sendBody reply)
    rw [hr]
    simp
  · cases rest with
    | nil =>
        refine absurd ?_ (hevents j .sendBody reply)
        rw [← List.nil_append events, ← hr]
        simp
    | cons head tail =>
        obtain ⟨rfl, -⟩ := List.cons.inj hr
        exact ⟨j, text, reply, before, session, tail, hl, hrest⟩

theorem sendAll_events (owner : Option ℕ) (writes : ℕ → Option ℕ) (n : ℕ) (data : List CStr)
    {event : Event} (h : event ∈ (sendAll owner writes n data).2) :
    ∃ k bytes, event = .sent k bytes := by
  induction data generalizing n with
  | nil => simp [sendAll] at h
  | cons text rest ih =>
      simp only [sendAll, List.mem_append] at h
      rcases h with h | h
      · unfold sendData at h
        split at h
        · exact ⟨_, _, List.mem_singleton.mp h⟩
        · simp at h
      · exact ih (n + 1) h

namespace Child

variable {c c' : Child}

/-- No letter has left `new` that was not accepted. -/
def KeepsUnsent (log : List Event) : Prop := ∀ path, Left path log → Accepted path log

/-- If the call takes a letter out of `new`, the letter was accepted before. -/
def MovesAccepted (c : Child) : Op → Prop
  | .write j k => ∀ path mails content, (c.dscrptrs j).state = .sendMailFrom →
      (c.dscrptrs j).mailsList = some path :: mails → ((c.dscrptrs j).retry k.now).2 = none →
        k.renames = true → c.files path = some content → content ≠ [] →
          renameTarget path ≠ path → Accepted path c.log
  | .register _ _ => True
  | .read _ _ => True
  | .select _ _ _ => True

/-- The events of a write: the letter is taken, its file is moved, and texts
are sent. -/
theorem Wrote.log_append {j : ℕ} {k : WriteKernel} {r : Sending} (hw : Wrote k j r c c') :
    ∃ events, c'.log = c.log ++ events ∧ (∀ i st reply, .answered i st reply ∉ events) ∧
      ∀ path target, .moved path target ∈ events ↔
        c.renamed k r = some path ∧ target = renameTarget path := by
  refine ⟨(r.taken.toList.map fun path => .took j path r.dscrptr.buffer) ++
    ((c.renamed k r).toList.map fun path => .moved path (renameTarget path)) ++
      (c.transmit k r).2, ?_, ?_, ?_⟩
  · rw [hw.log]
    simp [applySending]
  all_goals
    have hsent : ∀ event ∈ (c.transmit k r).2, ∃ i bytes, event = .sent i bytes := by
      unfold transmit
      cases r.early with
      | some code => simp
      | none => exact fun event h => sendAll_events _ _ _ _ h
  · intro i st reply h
    simp only [List.mem_append, List.mem_map, Option.mem_toList] at h
    rcases h with (⟨_, -, h⟩ | ⟨_, -, h⟩) | h
    · cases h
    · cases h
    · obtain ⟨_, _, h⟩ := hsent _ h
      cases h
  · intro path target
    simp only [List.mem_append, List.mem_map, Option.mem_toList]
    constructor
    · rintro ((⟨_, -, h⟩ | ⟨p, hp, h⟩) | h)
      · cases h
      · cases h
        exact ⟨hp, rfl⟩
      · obtain ⟨_, _, h⟩ := hsent _ h
        cases h
    · rintro ⟨hp, rfl⟩
      exact .inl (.inr ⟨path, hp, rfl⟩)

theorem renamedFirst_eq_some {j : ℕ} {k : WriteKernel} {path : CStr} :
    c.renamedFirst k j = some path ↔ ∃ mails content, (c.dscrptrs j).state = .sendMailFrom ∧
      (c.dscrptrs j).mailsList = some path :: mails ∧ ((c.dscrptrs j).retry k.now).2 = none ∧
        k.renames = true ∧ c.files path = some content ∧ content ≠ [] := by
  unfold renamedFirst
  split
  next p mails hmails =>
    constructor
    · intro h
      split_ifs at h with hcond
      cases h
      obtain ⟨hst, hretry, hrenames, hfile⟩ := hcond
      obtain ⟨content, hcontent, hne⟩ := (Option.any_eq_true _ _).mp hfile
      exact ⟨mails, content, hst, hmails, hretry, hrenames, hcontent, by simpa using hne⟩
    · rintro ⟨mails', content, hst, hmails', hretry, hrenames, hfile, hne⟩
      cases hmails.symm.trans hmails'
      rw [if_pos ⟨hst, hretry, hrenames, by simp [hfile, hne]⟩]
  next mails hmails => simp [hmails]
  next hmails => simp [hmails]

theorem content_ne_nil {d : Dscrptr} {now : ℤ} {hostName : CStr}
    {files : CStr → Option (List Char)} {place : Option CStr} {r : Sending} {path : CStr}
    (h : d.sendMsgToServer now hostName files place = .ok r) (htaken : r.taken = some path) :
    files path ≠ some [] := by
  obtain ⟨hprep, hretry⟩ := Dscrptr.sendMsgToServer_ok h
  obtain ⟨hearly, hst, mails, hmails⟩ := hprep.taken path htaken
  obtain ⟨canBeSend, hmsg⟩ := Dscrptr.sendMsgToServer_eq now d
  rw [hmsg, ← hretry, hearly] at h
  simp only [Dscrptr.sendCommand, hst, hmails] at h
  obtain ⟨buffer, hbuffer, -⟩ := bind_eq_ok.mp h
  intro hnil
  simp [hnil, readMsgFile] at hbuffer

/-- A call that completes has renamed the letter that is renamed first. -/
theorem renamed_eq_renamedFirst {j : ℕ} {k : WriteKernel} {r : Sending}
    (hr : (c.dscrptrs j).sendMsgToServer k.now c.conf.hostName c.files (c.placeAt k) = .ok r) :
    c.renamed k r = c.renamedFirst k j := by
  obtain ⟨hprep, hearly⟩ := Dscrptr.sendMsgToServer_ok hr
  ext path
  rw [renamedFirst_eq_some, renamed, Option.filter_eq_some_iff, Bool.and_eq_true]
  constructor
  · rintro ⟨htaken, hrenames, hfile⟩
    obtain ⟨hnone, hst, mails, hmails⟩ := hprep.taken path htaken
    obtain ⟨content, hcontent⟩ := Option.isSome_iff_exists.mp hfile
    refine ⟨mails, content, hst, hmails, hearly.symm.trans hnone, hrenames, hcontent, ?_⟩
    rintro rfl
    exact content_ne_nil hr htaken hcontent
  · rintro ⟨mails, content, hst, hmails, hretry, hrenames, hcontent, -⟩
    obtain ⟨p, hp⟩ := Option.ne_none_iff_exists'.mp (hprep.takes hst (hearly.trans hretry))
    obtain ⟨-, -, mails', hmails'⟩ := hprep.taken p hp
    cases hmails.symm.trans hmails'
    exact ⟨hp, hrenames, by simp [hcontent]⟩

/-- What a call adds to the log: of the files it is only the letter renamed first
that gets another name, and a reply is only read by a call that completes. -/
theorem logAfter_write (j : ℕ) (k : WriteKernel) (c : Child) :
    ∃ events, c.logAfter (.write j k) = c.log ++ events ∧
      (∀ i st reply, .answered i st reply ∉ events) ∧
        ∀ path target, .moved path target ∈ events ↔
          c.renamedFirst k j = some path ∧ target = renameTarget path := by
  cases hstep : c.step (.write j k) with
  | ok c' =>
      obtain ⟨r, hr, hw⟩ := handleWriteSocket_ok hstep
      obtain ⟨events, hlog, hanswered, hmoved⟩ := hw.log_append
      refine ⟨events, by simp [logAfter, hstep, hlog], hanswered, ?_⟩
      rwa [← renamed_eq_renamedFirst hr]
  | error halt =>
      refine ⟨(c.renamedFirst k j).toList.map fun path => .moved path (renameTarget path),
        by simp [logAfter, hstep], by simp, fun path target => ?_⟩
      simp [eq_comm]

theorem keepsUnsent_write {j : ℕ} {k : WriteKernel} (hc : KeepsUnsent c.log) :
    KeepsUnsent (c.logAfter (.write j k)) ↔ MovesAccepted c (.write j k) := by
  obtain ⟨events, hlog, hanswered, hmoved⟩ := logAfter_write j k c
  rw [hlog]
  constructor
  · intro hc' path mails content hst hmails hretry hrenames hfile hcontent hne
    have hfirst : c.renamedFirst k j = some path :=
      renamedFirst_eq_some.mpr ⟨mails, content, hst, hmails, hretry, hrenames, hfile, hcontent⟩
    have hleft : Left path (c.log ++ events) :=
      ⟨_, hne, List.mem_append_right _ ((hmoved _ _).mpr ⟨hfirst, rfl⟩)⟩
    exact (hc' path hleft).of_append hanswered
  · rintro hG path ⟨target, hne, hmem⟩
    refine Accepted.append ?_ events
    rcases List.mem_append.mp hmem with hmem | hmem
    · exact hc path ⟨target, hne, hmem⟩
    · obtain ⟨hfirst, rfl⟩ := (hmoved _ _).mp hmem
      obtain ⟨mails, content, hst, hmails, hretry, hrenames, hfile, hcontent⟩ :=
        renamedFirst_eq_some.mp hfirst
      exact hG path mails content hst hmails hretry hrenames hfile hcontent hne

theorem KeepsUnsent.append {log events : List Event} (hc : KeepsUnsent log)
    (hmoved : ∀ path target, .moved path target ∉ events) : KeepsUnsent (log ++ events) := by
  rintro path ⟨target, hne, hmem⟩
  rcases List.mem_append.mp hmem with hmem | hmem
  · exact (hc path ⟨target, hne, hmem⟩).append events
  · exact absurd hmem (hmoved path target)

/-- Of the calls only a write moves files. -/
theorem keepsUnsent_logAfter {op : Op} (hc : KeepsUnsent c.log) :
    KeepsUnsent (c.logAfter op) ↔ MovesAccepted c op := by
  cases op with
  | write j k => exact keepsUnsent_write hc
  | register path connected =>
      refine iff_of_true ?_ trivial
      cases hstep : c.step (.register path connected) with
      | error halt => simpa [logAfter, hstep] using hc
      | ok c' =>
          obtain ⟨_, j, attempt, d, -, -, hreg⟩ := registerNewEmail_ok hstep
          simp only [logAfter, hstep, hreg.log]
          cases attempt with
          | none => exact hc
          | some fd => exact hc.append (by simp)
  | read j results =>
      refine iff_of_true ?_ trivial
      cases hstep : c.step (.read j results) with
      | error halt => simpa [logAfter, hstep] using hc
      | ok c' =>
          obtain ⟨reply, d, -, -, rfl⟩ := handleReadSocket_ok.mp hstep
          simp only [logAfter, hstep]
          exact hc.append (by simp)
  | select readReady writeReady exceptReady => exact iff_of_true hc trivial

theorem logAfter_of_ok {op : Op} (h : c.step op = .ok c') : c.logAfter op = c'.log := by
  simp [logAfter, h]

/-- Only accepted letters have left `new` behind every call of a run, also behind
one that ends the process, exactly if every call that takes a letter out of `new`
takes one that was accepted. -/
theorem keepsUnsent_iff (conf : Conf) (files : CStr → Option (List Char)) (memory : ℕ → Dscrptr)
    (ops : List Op) :
    Along step (fun c op => KeepsUnsent (c.logAfter op)) (bootChild conf files memory) ops ↔
      Along step MovesAccepted (bootChild conf files memory) ops := by
  refine along_congr_of (I := fun c => KeepsUnsent c.log) (fun c op c' _ hafter hstep => ?_)
    (fun c op _ hc => keepsUnsent_logAfter hc) ?_
  · rwa [logAfter_of_ok hstep] at hafter
  · rintro path ⟨target, -, hmem⟩
    cases hmem

/-- The server refuses the sender, and the session is over; the letter's file
is gone. -/
theorem refused_letter_lost : ∃ s, run step sampleChild
      (.register (sampleLetter "a.b") (some 5) ::
        (upToMailFrom 0 ++ [.read 0 (sampleReply "550")])) = .ok s ∧
    (s.dscrptrs 0).state = .done ∧ s.files (sampleLetter "a.b") = none ∧ ¬ KeepsUnsent s.log := by
  refine ⟨_, rfl, by decide, by decide, fun h => ?_⟩
  have haccepted := h (sampleLetter "a.b")
    ⟨renameTarget (sampleLetter "a.b"), by decide, by decide⟩
  exact absurd haccepted.replied (by decide)

end Child

end SmtpProj.Client
