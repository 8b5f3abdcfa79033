import SmtpProj.Server.Dialogue

/-!
What becomes of the replies of a connection.

The second loop of `conn_update` clears `send_buf` whatever `send` returned, so
a reply survives only if it is taken whole at the first attempt; the retry
through the write set comes when there is nothing left to send. A reply can
also be overwritten before any attempt, by the timeout notice: in the pass that
greets the connection, or in one that follows a failed `select`.

As long as neither happens, the bytes accepted and the pending reply make up
the replies placed so far, and that is the invariant of the run.
-/

namespace SmtpProj.Server

open Lib

/-- A pass over a greeted connection places at most one reply. -/
theorem protocolUpdate_replied {e : Env} {s s' : Session} (hinit : s.state ≠ .init)
    (h : protocolUpdate e s = .ok s') : Replied s s' := by
  by_cases hrecv : s.recvBuf = []
  · rw [protocolUpdate_of_idle hrecv hinit] at h
    cases h
    split
    · exact ⟨rfl, .inr ⟨responseTimeout, by decide, rfl, rfl⟩⟩
    · exact ⟨rfl, .inl ⟨rfl, rfl⟩⟩
  · rw [protocolUpdate_of_chunk hrecv hinit] at h
    exact (updateRecv_ok h).toReplied

namespace Link

/-- The accepted bytes are a prefix of the replies placed so far, and a pending
reply is cleared only with all its bytes accepted. -/
structure Delivers (l : Link) (r : Round) : Prop where
  inOrder : (l.connUpdate r).session.wire <+: (l.connUpdate r).session.replies.flatten
  whole : (l.connUpdate r).session.sendBuf = [] →
    (l.connUpdate r).session.wire = l.session.wire ++ l.session.sendBuf

/-- A pending reply is taken whole, and no timeout notice is written over a
reply that was not sent yet. -/
structure Unhurried (l : Link) (r : Round) : Prop where
  whole : r.ready ≠ .selectFailed → l.session.sendBuf ≠ [] →
    ∃ n, r.send = .sent n ∧ l.session.sendBuf.length ≤ n
  inTime : l.session.state = .init ∨ (r.ready = .selectFailed ∧ l.session.sendBuf ≠ []) →
    stopwatchWatch r.env.now l.session.watch ≤ connTimeout

/-- Nothing is lost: what was accepted and what is pending are the replies. -/
structure Complete (l : Link) : Prop where
  inWrite : l.inWrite = false
  replies : l.session.wire ++ l.session.sendBuf = l.session.replies.flatten

/-! ### One round -/

/-- The first loop only delivers text to a connection that does not wait to
write. -/
theorem serve_of_not_inWrite {l : Link} (hl : l.inWrite = false) (ready : Ready) :
    ∃ text, l.serve ready = { l with session := l.session.receive text } := by
  have hidle : l = { l with session := l.session.receive l.session.recvBuf } := rfl
  cases ready with
  | selectFailed => exact ⟨_, hidle⟩
  | idle => exact ⟨_, hidle⟩
  | readable text =>
      cases hread : l.inRead with
      | true => exact ⟨text, by simp [serve, hread]⟩
      | false => exact ⟨l.session.recvBuf, by simpa [serve, hread] using hidle⟩
  | writable res => exact ⟨l.session.recvBuf, by simpa [serve, hl] using hidle⟩

/-- `conn_update` moves the pending reply to the wire. -/
theorem connUpdate_of_unhurried {l : Link} {r : Round} (hl : l.Complete) (hr : l.Unhurried r) :
    (l.connUpdate r).Complete ∧
      ((l.connUpdate r).session.sendBuf = [] →
        (l.connUpdate r).session.wire = l.session.wire ++ l.session.sendBuf) ∧
      (r.ready ≠ .selectFailed → (l.connUpdate r).session.sendBuf = []) := by
  by_cases hsel : r.ready = .selectFailed
  · rw [connUpdate, if_pos hsel]
    exact ⟨hl, fun h => by simp [h], fun h => absurd hsel h⟩
  rw [connUpdate, if_neg hsel]
  obtain ⟨text, hserve⟩ := serve_of_not_inWrite hl.inWrite r.ready
  rw [hserve]
  by_cases hpending : l.session.sendBuf = []
  · have hflush : flush r.send { l with session := l.session.receive text } =
        { l with session := l.session.receive text } := by
      simp [flush, Session.flush, Session.receive, hpending]
    rw [hflush]
    exact ⟨⟨hl.inWrite, hl.replies⟩, fun _ => by simp [Session.receive, hpending],
      fun _ => hpending⟩
  · obtain ⟨n, hsend, hn⟩ := hr.whole hsel hpending
    have hflush : flush r.send { l with session := l.session.receive text } =
        { l with session := { l.session.receive text with
          wire := l.session.wire ++ l.session.sendBuf
          sendBuf := [] } } := by
      simp [flush, Session.flush, Session.receive, hpending, hsend, SendResult.accepted,
        List.take_of_length_le hn]
    rw [hflush]
    exact ⟨⟨hl.inWrite, by simpa [Session.receive] using hl.replies⟩, fun _ => rfl,
      fun _ => rfl⟩

theorem Complete.delivers {l : Link} {r : Round} (hl : l.Complete) (hr : l.Unhurried r) :
    l.Delivers r := by
  obtain ⟨hcomplete, hwhole, -⟩ := connUpdate_of_unhurried hl hr
  exact ⟨hcomplete.replies ▸ List.prefix_append _ _, hwhole⟩

/-- `protocol_update` writes over nothing: a reply that is still pending is the
one of a failed `select`, which brings no chunk. -/
theorem Complete.round {l l' : Link} {r : Round} (hl : l.Complete) (hgreeted : l.Greeted)
    (hr : l.Unhurried r) (h : l.round r = .ok l') : l'.Complete := by
  by_cases hclosing : l.Closing r
  · rw [round_of_closing hclosing] at h
    cases h
  rw [round_of_not_closing hclosing] at h
  obtain ⟨hs, -, hwrite⟩ := protocolUpdate_eq_ok h
  obtain ⟨hcomplete, -, hempty⟩ := connUpdate_of_unhurried hl hr
  refine ⟨hwrite.trans hcomplete.inWrite, ?_⟩
  have hinit : (l.connUpdate r).session.state ≠ .init := by simpa using hgreeted.state
  obtain ⟨hwire, ⟨hreplies, hsend⟩ | ⟨text, -, hreplies, hsend⟩⟩ := protocolUpdate_replied hinit hs
  · rw [hwire, hreplies, hsend]
    exact hcomplete.replies
  have hsent : (l.connUpdate r).session.sendBuf = [] := by
    by_contra hpending
    have hsel : r.ready = .selectFailed := by
      by_contra hsel
      exact hpending (hempty hsel)
    have hsame : l.connUpdate r = l := if_pos hsel
    rw [hsame] at hs hpending hreplies
    rw [Server.protocolUpdate_of_idle hgreeted.recvBuf hgreeted.state,
      if_neg (by have := hr.inTime (.inr ⟨hsel, hpending⟩); omega)] at hs
    rw [← Except.ok.inj hs] at hreplies
    simp at hreplies
  have hcomplete := hcomplete.replies
  rw [hsent, List.append_nil] at hcomplete
  rw [hwire, hreplies, hsend, hcomplete, List.flatten_append]
  simp

theorem complete_of_greeting {now : Timeval} {e : Env} {l : Link}
    (hr : (accepted now).Unhurried (.greeting e))
    (h : (accepted now).round (.greeting e) = .ok l) : l.Complete := by
  rw [round_of_not_closing (not_closing_accepted _ _)] at h
  obtain ⟨hs, -, hwrite⟩ := protocolUpdate_eq_ok h
  have hs : _ = Except.ok l.session := (protocolUpdate_of_init rfl rfl).symm.trans hs
  have htime : ¬stopwatchWatch e.now now > connTimeout := by
    have := hr.inTime (.inl rfl)
    simp only [Round.greeting, accepted, connCreate] at this
    omega
  have hl : l.session = _ := (Except.ok.inj hs).symm
  rw [if_neg (by exact htime)] at hl
  exact ⟨hwrite, by rw [hl]; rfl⟩

/-- No reply byte is lost in a run whose sends take the replies whole and whose
timeouts wait for the reply before them. -/
theorem replies_delivered {now : Timeval} {e : Env} {rs : List Round}
    (h : Along round Unhurried (accepted now) (.greeting e :: rs)) :
    Along round Delivers (accepted now) (.greeting e :: rs) := by
  refine ⟨⟨List.nil_prefix, fun _ => rfl⟩, fun l₀ h₀ => ?_⟩
  refine along_of_invariant (I := fun l => l.Greeted ∧ l.Complete)
    (fun l r l' hl hr hround => ⟨hl.1.round hround, hl.2.round hl.1 hr hround⟩)
    (fun l r hl hr => hl.2.delivers hr) ?_ (h.2 l₀ h₀)
  exact ⟨greeted_of_greeting h₀, complete_of_greeting h.1 h₀⟩

/-- A dialogue whose replies all go out at once. -/
theorem replies_delivered_noop :
    Along round Delivers (accepted ⟨0, 0⟩)
      [.greeting sampleEnv, .chunk sampleEnv "HELO c\r\n".toList,
        .chunk sampleEnv "noop".toList] := by
  refine replies_delivered ?_
  refine (along_cons_ok rfl).mpr ⟨⟨by simp [accepted, connCreate], by decide⟩, ?_⟩
  refine (along_cons_ok rfl).mpr ⟨⟨fun _ _ => ⟨bufSize, rfl, by decide⟩, by decide⟩, ?_⟩
  exact ⟨⟨fun _ _ => ⟨bufSize, rfl, by decide⟩, by decide⟩, fun _ _ => trivial⟩

/-- A `send` that takes three bytes of the greeting loses the others. -/
theorem partial_send_loses_bytes :
    ¬Along round Delivers (accepted ⟨0, 0⟩)
      [.greeting sampleEnv, ⟨.idle, .sent 3, sampleEnv⟩] := by
  intro h
  obtain ⟨-, hlost, -⟩ := (along_cons_ok rfl).mp h
  exact absurd (hlost.whole rfl) (by decide)

end Link

end SmtpProj.Server
