import SmtpProj.Server.Replies
import SmtpProj.Server.Receive

/-!
Does it matter how a byte stream is cut into chunks?

A worker serves one connection, right after its greeting. A stream is delivered
in chunks, and the outcome is what the peer and the mail directory see: the
replies, the saved letters, and the final state, if the process survives.

Fed byte by byte, the server answers a 500 to every byte up to the first dot,
and ends there: a dot alone is an end of data that no state but one expects. So
a stream whose outcome does not depend on the cut can hold hardly anything: one
byte followed by NULs, or a line with a lone dot. For every other stream a
second cut is constructed that gives more replies, or fewer, or a server that
still runs.
-/

namespace SmtpProj.Server

open Lib

/-! ### Chunks and cuts -/

/-- The chunks make up the stream, and each is what one `recv` can deliver with
a byte to spare. -/
def Cut (stream : List Char) (chunks : List (List Char)) : Prop :=
  chunks.flatten = stream ∧ ∀ c ∈ chunks, c ≠ [] ∧ c.length < bufSize

def bytewise (stream : List Char) : List (List Char) := stream.map fun c => [c]

theorem cut_nil : Cut [] [] := ⟨rfl, by simp⟩

theorem Cut.cons {c r : List Char} {cs : List (List Char)} (hne : c ≠ [])
    (hlen : c.length < bufSize) (h : Cut r cs) : Cut (c ++ r) (c :: cs) := by
  refine ⟨by rw [List.flatten_cons, h.1], fun d hd => ?_⟩
  rcases List.mem_cons.mp hd with rfl | hd
  · exact ⟨hne, hlen⟩
  · exact h.2 d hd

theorem cut_bytewise (stream : List Char) : Cut stream (bytewise stream) := by
  induction stream with
  | nil => exact cut_nil
  | cons c r ih => exact .cons (c := [c]) (by simp) (by simp [bufSize]) ih

theorem Cut.append {p r : List Char} {cs ds : List (List Char)} (hp : Cut p cs) (hr : Cut r ds) :
    Cut (p ++ r) (cs ++ ds) := by
  refine ⟨by rw [List.flatten_append, hp.1, hr.1], fun d hd => ?_⟩
  rcases List.mem_append.mp hd with hd | hd
  · exact hp.2 d hd
  · exact hr.2 d hd

theorem Cut.first {c : Char} {z : List Char} {cs : List (List Char)} (h : Cut (c :: z) cs) :
    ∃ u v ds, cs = (c :: u) :: ds ∧ z = u ++ v ∧ Cut v ds ∧ (c :: u).length < bufSize := by
  obtain ⟨hflat, hchunks⟩ := h
  cases cs with
  | nil => cases hflat
  | cons d ds =>
      obtain ⟨hne, hlen⟩ := hchunks d (by simp)
      cases d with
      | nil => exact absurd rfl hne
      | cons c' u =>
          rw [List.flatten_cons, List.cons_append] at hflat
          obtain ⟨rfl, rfl⟩ := List.cons.inj hflat
          exact ⟨u, ds.flatten, ds, rfl, rfl, ⟨rfl, fun x hx => hchunks x (by simp [hx])⟩, hlen⟩

/-! ### The outcome of a stream -/

/-- What is seen of a connection: the replies, the saved letters, and the final
state, unless the process has ended. -/
structure Outcome where
  replies : List CStr
  files : List (CStr × CStr)
  final : Option ServerState
  deriving DecidableEq

namespace Worker

def serveChunk (k : Kernel) (e : Env) (i : ℕ) (w : Worker) (chunk : List Char) :
    Except WorkerStop Worker := do
  let w ← w.recvFrom (.bytes chunk) i
  let w ← w.sendReply k i
  w.updateConn e i

def outcome (i : ℕ) (running : Bool) (w : Worker) : Outcome :=
  match w.connections i with
  | .live s => ⟨s.replies, s.files, if running then some s.state else none⟩
  | .none => ⟨[], [], none⟩
  | .freed => ⟨[], [], none⟩

def serveAll (k : Kernel) (e : Env) (i : ℕ) (w : Worker) : List (List Char) → Outcome
  | [] => w.outcome i true
  | c :: cs =>
      match w.serveChunk k e i c with
      | .ok w' => serveAll k e i w' cs
      | .error _ => w.outcome i false

def greeted (e : Env) : Session :=
  { connCreate e.now with oldState := .connected, state := .ready }.reply response220

def opened (listener i : ℕ) (e : Env) : Worker :=
  { boot listener with
    maxFd := max listener i
    activeRead := {i, listener}
    openFds := {i}
    connections := Function.update (fun _ => .none) i (.live (greeted e)) }

theorem opened_of_accept (k : Kernel) (listener i : ℕ) (e : Env) (haccept : k.accept = some i)
    (hnow : k.now = e.now) :
    ((boot listener).acceptConn k).updateConn e i = .ok (opened listener i e) := by
  have hpass : Server.protocolUpdate e (connCreate e.now) = .ok (greeted e) := by
    rw [protocolUpdate_of_init rfl rfl]
    have htime : ¬stopwatchWatch e.now (connCreate e.now).watch > connTimeout := by
      rw [show (connCreate e.now).watch = e.now from rfl, stopwatchWatch_self]
      decide
    rw [if_neg htime]
    rfl
  simp [acceptConn, haccept, hnow, updateConn, setSlot, hpass, opened, boot]

variable {k : Kernel} {e : Env} {i : ℕ} {w : Worker} {s : Session}

theorem sendReply_of_live (hs : w.connections i = .live s) (hstate : s.state ≠ .disconnected) :
    ∃ w', w.sendReply k i = .ok w' ∧ w'.connections i = .live (s.flush (k.send i)) ∧
      w'.buf = w.buf := by
  have hbuf : (if s.sendBuf ≠ [] then w.awaitWrite (k.send i) i else w).buf = w.buf := by
    split
    · cases k.send i <;> rfl
    · rfl
  refine ⟨_, ?_, setSlot_same i _ _, hbuf⟩
  simp only [sendReply, hs, if_neg hstate]

theorem recvFrom_of_text {chunk : List Char} {text : CStr} (hs : w.connections i = .live s)
    (htext : cstr (overlay chunk w.buf) = some text) :
    w.recvFrom (.bytes chunk) i = .ok { w.setSlot i (.live (s.receive text)) with
      buf := wipe text.length (overlay chunk w.buf) } := by
  have h := deliver_of_live (d := (i, chunk)) hs
  rw [copyBuf, htext] at h
  exact h

theorem serveChunk_of_text {chunk : List Char} {text : CStr} (hs : w.connections i = .live s)
    (hstate : s.state ≠ .disconnected) (htext : cstr (overlay chunk w.buf) = some text) :
    (∀ s', Server.protocolUpdate e ((s.receive text).flush (k.send i)) = .ok s' →
      ∃ w', w.serveChunk k e i chunk = .ok w' ∧ w'.connections i = .live s' ∧
        w'.buf = wipe text.length (overlay chunk w.buf)) ∧
    (∀ h, Server.protocolUpdate e ((s.receive text).flush (k.send i)) = .error h →
      w.serveChunk k e i chunk = .error (.halted h)) := by
  obtain ⟨w₂, hsend, hs₂, hbuf⟩ := sendReply_of_live (k := k) (i := i)
    (w := { w.setSlot i (.live (s.receive text)) with
      buf := wipe text.length (overlay chunk w.buf) }) (setSlot_same i _ _) hstate
  have hserve : w.serveChunk k e i chunk = w₂.updateConn e i := by
    rw [serveChunk, recvFrom_of_text hs htext]
    exact congrArg (· >>= fun w => w.updateConn e i) hsend
  constructor
  · intro s' hpass
    exact ⟨w₂.setSlot i (.live s'), hserve.trans (updateConn_of_ok hs₂ hpass),
      setSlot_same i _ _, hbuf⟩
  · intro h hpass
    exact hserve.trans (updateConn_of_error hs₂ hpass)

theorem serveChunk_inv {chunk : List Char} {w' : Worker} (hs : w.connections i = .live s)
    (h : w.serveChunk k e i chunk = .ok w') :
    ∃ text s', Server.protocolUpdate e ((s.receive text).flush (k.send i)) = .ok s' ∧
      w'.connections i = .live s' := by
  cases htext : cstr (overlay chunk w.buf) with
  | none =>
      have hrecv : w.recvFrom (.bytes chunk) i = .error .bufOverrun := by
        have hd := deliver_of_live (d := (i, chunk)) hs
        rw [copyBuf, htext] at hd
        exact hd
      rw [serveChunk, hrecv] at h
      cases h
  | some text =>
      by_cases hstate : s.state = .disconnected
      · -- the connection is freed before the pass gets to it
        rw [serveChunk, recvFrom_of_text hs htext] at h
        simp only [bind, Except.bind, sendReply, setSlot_same, Session.receive, hstate, if_true,
          updateConn, closeConn] at h
        cases h
      · obtain ⟨hok, herror⟩ := serveChunk_of_text (k := k) (e := e) hs hstate htext
        cases hpass : Server.protocolUpdate e ((s.receive text).flush (k.send i)) with
        | error stop =>
            rw [herror stop hpass] at h
            cases h
        | ok s' =>
            obtain ⟨w₁, hw₁, hs', -⟩ := hok s' hpass
            rw [hw₁] at h
            cases h
            exact ⟨text, s', hpass, hs'⟩

end Worker

/-! ### A connection that waits for its first command -/

/-- Greeted, and nothing received since but text that was turned down. -/
structure Waiting (e : Env) (replies : List CStr) (s : Session) : Prop where
  state : s.state = .ready
  watch : s.watch = e.now
  replies : s.replies = replies
  files : s.files = []

namespace Waiting

variable {e : Env} {replies : List CStr} {s : Session}

theorem flush_receive (h : Waiting e replies s) (text : CStr) (res : SendResult) :
    Waiting e replies ((s.receive text).flush res) ∧
      ((s.receive text).flush res).recvBuf = text := by
  unfold Session.flush
  split <;> exact ⟨⟨h.state, h.watch, h.replies, h.files⟩, rfl⟩

theorem state_ne_init (h : Waiting e replies s) : s.state ≠ .init := by
  simp [h.state]

theorem pass_silent (h : Waiting e replies s) (hrecv : s.recvBuf = []) :
    protocolUpdate e s = .ok s := by
  rw [protocolUpdate_of_idle hrecv h.state_ne_init, h.watch, stopwatchWatch_self]
  rfl

theorem pass_text (h : Waiting e replies s) (hrecv : s.recvBuf ≠ [])
    (hno : NoKeyword s.recvBuf) (hdot : ¬LoneDot s.recvBuf) :
    ∃ s', protocolUpdate e s = .ok s' ∧ Waiting e (replies ++ [response500]) s' := by
  have htype : noMatch (patternScan s.recvBuf).1 s.state = true :=
    noMatch_patternScan_iff.mpr ⟨patternScan_eq_dataRecv_iff.mpr ⟨hno, hdot⟩, by simp [h.state]⟩
  rw [protocolUpdate_of_chunk hrecv h.state_ne_init, updateRecv_of_noMatch htype]
  exact ⟨_, rfl, ⟨h.state, rfl, by simp [h.replies], h.files⟩⟩

theorem pass_dot (h : Waiting e replies s) (hdot : LoneDot s.recvBuf) :
    protocolUpdate e s = .error .badTransition := by
  have hrecv : s.recvBuf ≠ [] := by
    obtain ⟨before, -, tail, -, htext⟩ := hdot
    simp [htext]
  have htype := patternScan_eq_dataEnd_iff.mpr ⟨hdot.noKeyword, hdot⟩
  rw [protocolUpdate_of_chunk hrecv h.state_ne_init]
  refine updateRecv_badTransition ?_ ?_
  · simp [htype, noMatch]
  · simp [htype, h.state, eventMap, serverStep]

/-- A long line gets a reply, unless it is a MAIL or RCPT command. -/
theorem pass_long (h : Waiting e replies s) (hlen : 6 < s.recvBuf.length)
    (hmail : patternCompute .ptMail s.recvBuf = none)
    (hrcpt : patternCompute .ptRcpt s.recvBuf = none) :
    ∃ s' text, protocolUpdate e s = .ok s' ∧ s'.state ≠ .init ∧
      s'.replies = replies ++ [text] := by
  have hrecv : s.recvBuf ≠ [] := by
    intro hnil
    simp [hnil] at hlen
  have hbare : ∀ type, type = .ptQuit ∨ type = .ptRset ∨ type = .ptData →
      patternCompute type s.recvBuf = none := by
    intro type htype
    by_contra hmatch
    have := length_of_bare_match htype hmatch
    omega
  have hreply : ∀ type content st text, patternScan s.recvBuf = (type, content) →
      noMatch type s.state = false →
      dispatch e s type content =
        .ok ({ s with oldState := s.state, state := st }.reply text) → st ≠ .init →
      ∃ s' text, protocolUpdate e s = .ok s' ∧ s'.state ≠ .init ∧
        s'.replies = replies ++ [text] := by
    intro type content st text hscan hno hdispatch hst
    rw [protocolUpdate_of_chunk hrecv h.state_ne_init, updateRecv_of_dispatch (by rwa [hscan]),
      hscan, hdispatch]
    exact ⟨_, text, rfl, hst, by simp [h.replies]⟩
  rcases patternScan_cases s.recvBuf with ⟨type, content, htype, hscan, hmatch⟩ |
    ⟨-, hdot, -⟩ | ⟨hno, hdot, -⟩
  · cases type with
    | ptVrfy =>
        refine hreply _ _ .ready response502 hscan rfl ?_ (by simp)
        rw [dispatch_of_some .processVrfy (by simp [h.state, eventMap, serverStep]) rfl]
        simp [processVrfy, h.state]
    | ptHelo =>
        refine hreply _ _ .expectMail responseHelo hscan rfl ?_ (by simp)
        rw [dispatch_of_some .processHelo (by simp [h.state, eventMap, serverStep]) rfl]
        rfl
    | ptEhlo =>
        refine hreply _ _ .expectMail responseHelo hscan rfl ?_ (by simp)
        rw [dispatch_of_some .processEhlo (by simp [h.state, eventMap, serverStep]) rfl]
        rfl
    | ptMail => simp [hmail] at hmatch
    | ptRcpt => simp [hrcpt] at hmatch
    | ptQuit => simp [hbare] at hmatch
    | ptRset => simp [hbare] at hmatch
    | ptData => simp [hbare] at hmatch
    | _ => cases htype
  · have := hdot.length_le
    omega
  · obtain ⟨s', hok, hs'⟩ := h.pass_text hrecv hno hdot
    exact ⟨s', response500, hok, hs'.state_ne_init, hs'.replies⟩

end Waiting

/-! ### Serving one chunk -/

namespace Worker

def Awaits (e : Env) (i : ℕ) (replies : List CStr) (w : Worker) : Prop :=
  ∃ s, w.connections i = .live s ∧ Waiting e replies s

/-- No `recv` of a chunk overwrites the terminator at the end of `buf`. -/
def Sealed (w : Worker) : Prop := w.buf[bufSize - 1]? = some nul

variable {k : Kernel} {e : Env} {i : ℕ} {w : Worker} {replies : List CStr} {chunk : List Char}

theorem sealed_of_clear (h : w.buf = clear bufSize) : Sealed w := by
  rw [Sealed, h, clear, List.getElem?_replicate]
  exact if_pos (by decide)

theorem Sealed.overlay (h : Sealed w) (hlen : chunk.length < bufSize) :
    (overlay chunk w.buf)[bufSize - 1]? = some nul := by
  rw [getElem?_overlay (by omega)]
  exact h

/-- A chunk that begins with a NUL leaves no text, only its residue. -/
theorem serve_silent (h : Awaits e i replies w) (hw : Sealed w) (hlen : chunk.length < bufSize)
    (hhead : chunk.head? = some nul) :
    ∃ w', w.serveChunk k e i chunk = .ok w' ∧ Awaits e i replies w' ∧ Sealed w' ∧
      w'.buf = overlay chunk w.buf := by
  obtain ⟨s, hs, hwaiting⟩ := h
  obtain ⟨c, cs, rfl⟩ : ∃ c cs, chunk = c :: cs := by
    cases chunk with
    | nil => cases hhead
    | cons c cs => exact ⟨c, cs, rfl⟩
  cases hhead
  have htext : cstr (Lib.overlay (nul :: cs) w.buf) = some [] := cstr_nul_cons _
  obtain ⟨hpass, hrecv⟩ := hwaiting.flush_receive [] (k.send i)
  obtain ⟨w', hok, hs', hbuf⟩ := (serveChunk_of_text hs (by simp [hwaiting.state]) htext).1 _
    (hpass.pass_silent hrecv)
  have hbuf : w'.buf = Lib.overlay (nul :: cs) w.buf := by
    rw [hbuf]
    simp [wipe, Lib.overlay]
  refine ⟨w', hok, ⟨_, hs', hpass⟩, ?_, hbuf⟩
  rw [Sealed, hbuf]
  exact hw.overlay hlen

theorem serve_text {text : CStr} (h : Awaits e i replies w)
    (htext : cstr (Lib.overlay chunk w.buf) = some text) (hne : text ≠ []) (hno : NoKeyword text)
    (hdot : ¬LoneDot text) :
    ∃ w', w.serveChunk k e i chunk = .ok w' ∧ Awaits e i (replies ++ [response500]) w' ∧
      w'.buf = wipe text.length (Lib.overlay chunk w.buf) := by
  obtain ⟨s, hs, hwaiting⟩ := h
  obtain ⟨hpass, hrecv⟩ := hwaiting.flush_receive text (k.send i)
  obtain ⟨s', hok, hs'⟩ := hpass.pass_text (by rwa [hrecv]) (by rwa [hrecv]) (by rwa [hrecv])
  obtain ⟨w', hserve, hlive, hbuf⟩ :=
    (serveChunk_of_text hs (by simp [hwaiting.state]) htext).1 s' hok
  exact ⟨w', hserve, ⟨s', hlive, hs'⟩, hbuf⟩

/-- A clear buffer stays clear over a short text that is no command. -/
theorem serve_clear_text (h : Awaits e i replies w) (hw : w.buf = clear bufSize)
    (hlen : chunk.length < bufSize) (hne : chunk ≠ []) (hnul : nul ∉ chunk)
    (hno : NoKeyword chunk) (hdot : ¬LoneDot chunk) :
    ∃ w', w.serveChunk k e i chunk = .ok w' ∧ Awaits e i (replies ++ [response500]) w' ∧
      w'.buf = clear bufSize := by
  have htext : cstr (Lib.overlay chunk w.buf) = some chunk := by
    rw [hw, cstr_overlay_clear hlen, upToNul_eq_self hnul]
  obtain ⟨w', hok, hw', hbuf⟩ := serve_text (k := k) h htext hne hno hdot
  exact ⟨w', hok, hw', by rw [hbuf, hw, wipe_overlay_clear hlen.le]⟩

theorem serve_dot {text : CStr} (h : Awaits e i replies w)
    (htext : cstr (Lib.overlay chunk w.buf) = some text) (hdot : LoneDot text) :
    w.serveChunk k e i chunk = .error (.halted .badTransition) := by
  obtain ⟨s, hs, hwaiting⟩ := h
  obtain ⟨hpass, hrecv⟩ := hwaiting.flush_receive text (k.send i)
  exact (serveChunk_of_text hs (by simp [hwaiting.state]) htext).2 _
    (hpass.pass_dot (by rwa [hrecv]))

/-! ### Outcomes -/

theorem serveAll_cons_ok {w' : Worker} {cs : List (List Char)}
    (h : w.serveChunk k e i chunk = .ok w') :
    w.serveAll k e i (chunk :: cs) = w'.serveAll k e i cs := by
  simp [serveAll, h]

theorem serveAll_cons_error {stop : WorkerStop} {cs : List (List Char)}
    (h : w.serveChunk k e i chunk = .error stop) :
    w.serveAll k e i (chunk :: cs) = w.outcome i false := by
  simp [serveAll, h]

theorem Awaits.outcome (h : Awaits e i replies w) (running : Bool) :
    w.outcome i running = ⟨replies, [], if running then some .ready else none⟩ := by
  obtain ⟨s, hs, hwaiting⟩ := h
  simp [Worker.outcome, hs, hwaiting.replies, hwaiting.files, hwaiting.state]

/-- Replies are never taken back. -/
theorem replies_prefix_serveAll {s : Session} (hs : w.connections i = .live s)
    (hinit : s.state ≠ .init) (hready : LetterReady s) (cs : List (List Char)) :
    s.replies <+: (w.serveAll k e i cs).replies := by
  induction cs generalizing w s with
  | nil => simp [serveAll, Worker.outcome, hs]
  | cons c cs ih =>
      cases hserve : w.serveChunk k e i c with
      | error stop => simp [serveAll_cons_error hserve, Worker.outcome, hs]
      | ok w' =>
          obtain ⟨text, s', hpass, hs'⟩ := serveChunk_inv hs hserve
          have hsame : ((s.receive text).flush (k.send i)).state = s.state ∧
              ((s.receive text).flush (k.send i)).letter = s.letter ∧
              ((s.receive text).flush (k.send i)).replies = s.replies := by
            unfold Session.flush
            split <;> exact ⟨rfl, rfl, rfl⟩
          obtain ⟨hstate, hletter, hreplies⟩ := hsame
          have hinit' : ((s.receive text).flush (k.send i)).state ≠ .init := by rwa [hstate]
          obtain ⟨hinit₁, -, hready₁⟩ :=
            protocolUpdate_greeted hinit' (by rwa [LetterReady, hstate, hletter]) hpass
          have hprefix : s.replies <+: s'.replies := by
            rcases (protocolUpdate_replied hinit' hpass).reply with ⟨h, -⟩ | ⟨t, -, h, -⟩
            · rw [h, hreplies]
            · rw [h, hreplies]
              exact List.prefix_append _ _
          rw [serveAll_cons_ok hserve]
          exact hprefix.trans (ih hs' hinit₁ hready₁)

/-! ### Byte by byte -/

def letters (bytes : List Char) : ℕ := (bytes.filter (· ≠ nul)).length

/-- Bytes other than the dot, one at a time: a 500 for each letter. -/
theorem serve_bytewise {p : List Char} (h : Awaits e i replies w) (hw : w.buf = clear bufSize)
    (hp : '.' ∉ p) :
    ∃ w', Awaits e i (replies ++ List.replicate (letters p) response500) w' ∧
      w'.buf = clear bufSize ∧
      ∀ cs, w.serveAll k e i (bytewise p ++ cs) = w'.serveAll k e i cs := by
  induction p generalizing w replies with
  | nil => exact ⟨w, by simpa [letters] using h, hw, fun cs => rfl⟩
  | cons c p ih =>
      have hlen : [c].length < bufSize := by simp [bufSize]
      have hpdot : '.' ∉ p := fun hmem => hp (List.mem_cons_of_mem c hmem)
      by_cases hc : c = nul
      · subst hc
        obtain ⟨w₁, hok, h₁, -, hbuf⟩ := serve_silent (k := k) h (sealed_of_clear hw) hlen rfl
        have hclear : w₁.buf = clear bufSize := by
          rw [hbuf, hw]
          rfl
        obtain ⟨w', h', hw', hall⟩ := ih h₁ hclear hpdot
        refine ⟨w', by simpa [letters] using h', hw', fun cs => ?_⟩
        rw [← hall cs]
        exact serveAll_cons_ok hok
      · have hdot : ¬LoneDot [c] := fun hdot =>
          hp (List.mem_cons.mpr (.inl (List.mem_singleton.mp hdot.mem)))
        obtain ⟨w₁, hok, h₁, hclear⟩ := serve_clear_text (k := k) h hw hlen (by simp)
          (by simpa using Ne.symm hc) (noKeyword_of_length (by simp)) hdot
        obtain ⟨w', h', hw', hall⟩ := ih h₁ hclear hpdot
        refine ⟨w', ?_, hw', fun cs => ?_⟩
        · simpa [letters, hc, List.replicate_succ, List.append_assoc] using h'
        · rw [← hall cs]
          exact serveAll_cons_ok hok

/-- NULs alone leave no trace, however they are cut and whatever `buf` holds. -/
theorem serveAll_nuls {z : List Char} {cs : List (List Char)} (hcut : Cut z cs)
    (h : Awaits e i replies w) (hw : Sealed w) (hz : ∀ c ∈ z, c = nul) :
    w.serveAll k e i cs = ⟨replies, [], some .ready⟩ := by
  induction cs generalizing w z with
  | nil => exact h.outcome true
  | cons c cs ih =>
      obtain ⟨rfl, hchunks⟩ := hcut
      obtain ⟨hne, hlen⟩ := hchunks c (by simp)
      have hhead : c.head? = some nul := by
        cases c with
        | nil => exact absurd rfl hne
        | cons d c => simp [hz d]
      obtain ⟨w', hok, h', hw', -⟩ := serve_silent (k := k) h hw hlen hhead
      rw [serveAll_cons_ok hok]
      exact ih ⟨rfl, fun d hd => hchunks d (by simp [hd])⟩ h' hw'
        fun d hd => hz d (List.mem_append_right _ hd)

/-- The first dot ends the process. -/
theorem serveAll_dot {cs : List (List Char)} (h : Awaits e i replies w)
    (hw : w.buf = clear bufSize) {text : CStr} (htext : upToNul chunk = text)
    (hlen : chunk.length < bufSize) (hdot : LoneDot text) :
    w.serveAll k e i (chunk :: cs) = ⟨replies, [], none⟩ := by
  have hcstr : cstr (Lib.overlay chunk w.buf) = some text := by
    rw [hw, cstr_overlay_clear hlen, htext]
  rw [serveAll_cons_error (serve_dot h hcstr hdot), h.outcome]
  rfl

/-! ### Escaping a silent end -/

/-- Some cut of the stream does not end the process without a further reply. -/
def Escapes (k : Kernel) (e : Env) (i : ℕ) (replies : List CStr) (w : Worker)
    (stream : List Char) : Prop :=
  ∃ cs, Cut stream cs ∧ w.serveAll k e i cs ≠ ⟨replies, [], none⟩

theorem escapes_nil (h : Awaits e i replies w) : Escapes k e i replies w [] := by
  refine ⟨[], cut_nil, ?_⟩
  rw [serveAll, h.outcome]
  simp

theorem Escapes.cons {w' : Worker} {r : List Char} (hr : Escapes k e i replies w' r)
    (hserve : w.serveChunk k e i chunk = .ok w') (hne : chunk ≠ [])
    (hlen : chunk.length < bufSize) : Escapes k e i replies w (chunk ++ r) := by
  obtain ⟨cs, hcut, houtcome⟩ := hr
  exact ⟨chunk :: cs, hcut.cons hne hlen, by rwa [serveAll_cons_ok hserve]⟩

theorem escapes_of_reply {w' : Worker} {s : Session} {text : CStr}
    (hserve : w.serveChunk k e i chunk = .ok w') (hs : w'.connections i = .live s)
    (hinit : s.state ≠ .init) (hready : LetterReady s) (hreplies : s.replies = replies ++ [text])
    (hne : chunk ≠ []) (hlen : chunk.length < bufSize) (r : List Char) :
    Escapes k e i replies w (chunk ++ r) := by
  refine ⟨chunk :: bytewise r, (cut_bytewise r).cons hne hlen, fun houtcome => ?_⟩
  have hprefix := replies_prefix_serveAll (k := k) (e := e) hs hinit hready (bytewise r)
  rw [← serveAll_cons_ok hserve, houtcome, hreplies] at hprefix
  have hlength := hprefix.length_le
  simp only [List.length_append, List.length_singleton] at hlength
  omega

theorem escapes_of_rejected {w' : Worker} (hserve : w.serveChunk k e i chunk = .ok w')
    (h : Awaits e i (replies ++ [response500]) w') (hne : chunk ≠ [])
    (hlen : chunk.length < bufSize) (r : List Char) :
    Escapes k e i replies w (chunk ++ r) := by
  obtain ⟨s, hs, hwaiting⟩ := h
  exact escapes_of_reply hserve hs hwaiting.state_ne_init
    (by simp [LetterReady, hwaiting.state, ServerState.inMail]) hwaiting.replies hne hlen r

/-- A chunk whose first byte begins neither a keyword nor a dot line is
rejected, whatever residue follows it. -/
theorem escapes_of_head {c : Char} {r : List Char} (h : Awaits e i replies w) (hw : Sealed w)
    (hc : c ∉ "QqRrVvHhEeMmDd.\r\n\x00".toList) : Escapes k e i replies w (c :: r) := by
  have hnul : nul ∈ w.buf.drop 1 := by
    refine List.mem_of_getElem? (i := bufSize - 2) ?_
    rw [List.getElem?_drop]
    exact hw
  have htext : cstr (Lib.overlay [c] w.buf) = some (c :: upToNul (w.buf.drop 1)) :=
    cstr_cons (fun hcn => hc (by simp [hcn, nul])) hnul
  have hno : NoKeyword (c :: upToNul (w.buf.drop 1)) := by
    refine noKeyword_of_head fun d hd hmem => ?_
    cases hd
    simp_all
  have hdot : ¬LoneDot (c :: upToNul (w.buf.drop 1)) := by
    intro hdot
    obtain ⟨d, hd, hmem⟩ := hdot.head
    cases hd
    simp_all
  obtain ⟨w', hok, h', -⟩ := serve_text (k := k) h htext (by simp) hno hdot
  exact escapes_of_rejected hok h' (by simp) (by simp [bufSize]) r

theorem cstr_overlay_of_full (hw : Sealed w) (hlen : chunk.length = bufSize - 1)
    (hnul : nul ∉ chunk) : cstr (Lib.overlay chunk w.buf) = some chunk := by
  have hhead : (w.buf.drop chunk.length).head? = some nul := by
    rw [List.head?_drop, hlen]
    exact hw
  rw [Lib.overlay, cstr_append_eq_iff.mpr (.inr hhead), upToNul_eq_self hnul]

/-- A full chunk is a text of its own; if it addresses nothing, it is
answered. -/
theorem escapes_of_full {r : List Char} (h : Awaits e i replies w) (hw : Sealed w)
    (hlen : chunk.length = bufSize - 1) (hnul : nul ∉ chunk)
    (hmail : patternCompute .ptMail chunk = none) (hrcpt : patternCompute .ptRcpt chunk = none) :
    Escapes k e i replies w (chunk ++ r) := by
  obtain ⟨s, hs, hwaiting⟩ := h
  have htext := cstr_overlay_of_full hw hlen hnul
  obtain ⟨hpass, hrecv⟩ := hwaiting.flush_receive chunk (k.send i)
  obtain ⟨s', text, hok, hinit, hreplies⟩ := hpass.pass_long
    (by rw [hrecv, hlen]; decide) (by rwa [hrecv]) (by rwa [hrecv])
  obtain ⟨w', hserve, hs', -⟩ := (serveChunk_of_text hs (by simp [hwaiting.state]) htext).1 s' hok
  obtain ⟨-, -, hready⟩ := protocolUpdate_greeted hpass.state_ne_init
    (by simp [LetterReady, hpass.state, ServerState.inMail]) hok
  refine escapes_of_reply hserve hs' hinit hready hreplies ?_ (by rw [hlen]; decide) r
  rintro rfl
  cases hlen

/-- A MAIL or RCPT command behind a NUL is cut behind its first letter. -/
theorem escapes_of_address {type : PatternType} {r : List Char} (h : Awaits e i replies w)
    (hw : Sealed w) (htype : type = .ptMail ∨ type = .ptRcpt)
    (hmatch : patternCompute type chunk ≠ none) :
    Escapes k e i replies w (nul :: (chunk ++ r)) := by
  obtain ⟨c, d, rest, rfl, hd⟩ := second_letter_of_match htype hmatch
  have hlen : [nul, c].length < bufSize := by simp [bufSize]
  obtain ⟨w', hok, h', hw', -⟩ := serve_silent (k := k) h hw hlen rfl
  have hescape := escapes_of_head (k := k) (c := d) (r := rest ++ r) h' hw'
    (by revert hd; simp; rintro (rfl | rfl | rfl | rfl) <;> decide)
  exact Escapes.cons hescape hok (by simp) hlen

/-- A stream that begins with a NUL can be cut so that it leaves no text, or a
text that is answered. -/
theorem escapes_of_nul {r : List Char} (h : Awaits e i replies w) (hw : Sealed w) :
    Escapes k e i replies w (nul :: r) := by
  induction hn : r.length using Nat.strong_induction_on generalizing w r with
  | _ n ih =>
  subst hn
  by_cases hshort : (nul :: r).length < bufSize
  · obtain ⟨w', hok, h', -, -⟩ := serve_silent (k := k) h hw hshort rfl
    simpa using (escapes_nil h').cons hok (by simp) hshort
  have hr : r = r.take (bufSize - 1) ++ r.drop (bufSize - 1) := (List.take_append_drop _ r).symm
  have hlen : (r.take (bufSize - 1)).length = bufSize - 1 := by
    rw [List.length_cons] at hshort
    rw [List.length_take]
    omega
  by_cases hnul : nul ∈ r.take (bufSize - 1)
  · -- up to the next NUL there is no text; the rest is shorter
    obtain ⟨u, v, huv⟩ := List.append_of_mem hnul
    have hu : (nul :: u).length < bufSize := by
      have := congrArg List.length huv
      simp only [hlen, List.length_append, List.length_cons] at this ⊢
      omega
    obtain ⟨w', hok, h', hw', -⟩ := serve_silent (k := k) h hw hu rfl
    have hrest := ih (v ++ r.drop (bufSize - 1)).length (by
      have := congrArg List.length hr
      rw [huv] at this
      simp only [List.length_append, List.length_cons] at this ⊢
      omega) h' hw' rfl
    have hcut := hrest.cons hok (by simp) hu
    rw [hr, huv]
    simpa using hcut
  · rw [hr]
    by_cases hmail : patternCompute .ptMail (r.take (bufSize - 1)) = none
    · by_cases hrcpt : patternCompute .ptRcpt (r.take (bufSize - 1)) = none
      · have hone : [nul].length < bufSize := by simp [bufSize]
        obtain ⟨w', hok, h', hw', -⟩ := serve_silent (k := k) h hw hone rfl
        exact Escapes.cons (escapes_of_full h' hw' hlen hnul hmail hrcpt) hok (by simp) hone
      · exact escapes_of_address h hw (.inr rfl) hrcpt
    · exact escapes_of_address h hw (.inl rfl) hmail

theorem escapes_of_head_ne_dot {r : List Char} (h : Awaits e i replies w)
    (hw : w.buf = clear bufSize) (hhead : r.head? ≠ some '.') : Escapes k e i replies w r := by
  cases r with
  | nil => exact escapes_nil h
  | cons c r =>
      by_cases hc : c = nul
      · subst hc
        exact escapes_of_nul h (sealed_of_clear hw)
      · have hlen : [c].length < bufSize := by simp [bufSize]
        have hdot : ¬LoneDot [c] := fun hdot => hhead (by simpa [eq_comm] using hdot.mem)
        obtain ⟨w', hok, h', -⟩ := serve_clear_text (k := k) h hw hlen (by simp)
          (by simpa using Ne.symm hc) (noKeyword_of_length (by simp)) hdot
        exact escapes_of_rejected hok h' (by simp) hlen r

theorem escapes_of_dot {r : List Char} (h : Awaits e i replies w)
    (hw : w.buf = clear bufSize) (hdot : ¬LoneDot (upToNul ('.' :: r))) :
    Escapes k e i replies w ('.' :: r) := by
  have htext : upToNul ('.' :: r) = '.' :: upToNul r := by simp [upToNul, nul]
  have hr : r = upToNul r ++ r.dropWhile (· ≠ nul) := (List.takeWhile_append_dropWhile).symm
  -- four characters are enough to be no lone dot
  have hshort : ¬LoneDot ('.' :: (upToNul r).take 3) := by
    rw [htext, loneDot_cons_iff] at hdot
    rw [loneDot_cons_iff]
    intro hmem
    have hlen := length_of_mem_lineTails hmem
    rw [List.length_take] at hlen
    rw [List.take_of_length_le (by omega)] at hmem
    exact hdot hmem
  have hlen : ('.' :: (upToNul r).take 3).length < bufSize := by
    rw [List.length_cons, List.length_take, bufSize]
    omega
  have hnul : nul ∉ '.' :: (upToNul r).take 3 := by
    intro hmem
    rcases List.mem_cons.mp hmem with hmem | hmem
    · cases hmem
    · exact nul_notMem_upToNul r (List.mem_of_mem_take hmem)
  obtain ⟨w', hok, h', -⟩ := serve_clear_text (k := k) h hw hlen (by simp) hnul
    (noKeyword_of_head fun c hc => by cases hc; decide) hshort
  have hescape := escapes_of_rejected hok h' (by simp) hlen
    ((upToNul r).drop 3 ++ r.dropWhile (· ≠ nul))
  rwa [List.cons_append, ← List.append_assoc, List.take_append_drop, ← hr] at hescape

end Worker

/-! ### Streams that cannot be told apart -/

def Uniform (k : Kernel) (e : Env) (listener i : ℕ) (stream : List Char) : Prop :=
  ∀ cs ds, Cut stream cs → Cut stream ds →
    (Worker.opened listener i e).serveAll k e i cs = (Worker.opened listener i e).serveAll k e i ds

section Uniform

variable {k : Kernel} {e : Env} {listener i : ℕ}

theorem opened_awaits : (Worker.opened listener i e).Awaits e i [response220] :=
  ⟨Worker.greeted e, by simp [Worker.opened], rfl, rfl, rfl, rfl⟩

@[simp] theorem opened_buf (listener i : ℕ) (e : Env) :
    (Worker.opened listener i e).buf = clear bufSize := rfl

theorem upToNul_letter {c : Char} {u : List Char} (hc : c ≠ nul) (hu : ∀ d ∈ u, d = nul) :
    upToNul (c :: u) = [c] := by
  cases u with
  | nil => simp [upToNul, hc]
  | cons d u => simp [upToNul, hc, hu d]

theorem uniform_of_nuls {stream : List Char} (h : ∀ c ∈ stream.tail, c = nul) :
    Uniform k e listener i stream := by
  let w := Worker.opened listener i e
  have hsealed : w.Sealed := Worker.sealed_of_clear (opened_buf listener i e)
  have houtcome : ∃ o, ∀ cs, Cut stream cs → w.serveAll k e i cs = o := by
    cases stream with
    | nil => exact ⟨_, fun cs hcut => Worker.serveAll_nuls hcut opened_awaits hsealed (by simp)⟩
    | cons c z =>
        by_cases hc : c = nul
        · refine ⟨_, fun cs hcut => Worker.serveAll_nuls hcut opened_awaits hsealed fun d hd => ?_⟩
          rcases List.mem_cons.mp hd with rfl | hd
          · exact hc
          · exact h d hd
        by_cases hdot : c = '.'
        · refine ⟨⟨[response220], [], none⟩, fun cs hcut => ?_⟩
          obtain ⟨u, v, ds, rfl, rfl, -, hlen⟩ := hcut.first
          exact Worker.serveAll_dot opened_awaits (opened_buf listener i e)
            (upToNul_letter hc fun d hd => h d (List.mem_append_left _ hd)) hlen
            (by rw [hdot]; decide)
        · refine ⟨⟨[response220, response500], [], some .ready⟩, fun cs hcut => ?_⟩
          obtain ⟨u, v, ds, rfl, rfl, hrest, hlen⟩ := hcut.first
          have htext : cstr (overlay (c :: u) w.buf) = some [c] := by
            rw [opened_buf, cstr_overlay_clear hlen,
              upToNul_letter hc fun d hd => h d (List.mem_append_left _ hd)]
          have hno : ¬LoneDot [c] := fun hmem => hdot (by simpa [eq_comm] using hmem.mem)
          obtain ⟨w', hok, h', hbuf⟩ := Worker.serve_text (k := k) opened_awaits htext (by simp)
            (noKeyword_of_length (by simp)) hno
          have hw' : w'.Sealed := by
            rw [Worker.Sealed, hbuf, wipe, getElem?_overlay (by simp [bufSize])]
            exact hsealed.overlay hlen
          rw [Worker.serveAll_cons_ok hok]
          exact Worker.serveAll_nuls hrest h' hw' fun d hd => h d (List.mem_append_right _ hd)
  obtain ⟨o, ho⟩ := houtcome
  intro cs ds hcs hds
  rw [ho cs hcs, ho ds hds]

theorem upToNul_prefix_append (u v : List Char) : upToNul u <+: upToNul (u ++ v) := by
  by_cases hu : nul ∈ u
  · rw [upToNul_append_of_mem hu]
  · rw [upToNul_append_of_notMem hu, upToNul_eq_self hu]
    exact List.prefix_append _ _

theorem mem_lineTails_of_front {u t : CStr} (h : u <+: t) (ht : t ∈ lineTails) :
    u ∈ lineTails := by
  rw [← List.mem_inits] at h
  simp only [lineTails, List.mem_cons, List.not_mem_nil, or_false] at ht
  rcases ht with rfl | rfl | rfl | rfl | rfl <;> revert h <;> simp [List.inits, lineTails] <;> tauto

theorem uniform_of_loneDot {stream : List Char} (hhead : stream.head? = some '.')
    (hdot : LoneDot (upToNul stream)) : Uniform k e listener i stream := by
  have houtcome : ∀ cs, Cut stream cs →
      (Worker.opened listener i e).serveAll k e i cs = ⟨[response220], [], none⟩ := by
    intro cs hcut
    obtain ⟨z, rfl⟩ : ∃ z, stream = '.' :: z := by
      cases stream with
      | nil => cases hhead
      | cons c z =>
          cases hhead
          exact ⟨z, rfl⟩
    obtain ⟨u, v, ds, rfl, rfl, -, hlen⟩ := hcut.first
    have htext : ∀ x, upToNul ('.' :: x) = '.' :: upToNul x := fun x => by simp [upToNul, nul]
    rw [htext, loneDot_cons_iff] at hdot
    exact Worker.serveAll_dot opened_awaits (opened_buf listener i e) (htext u) hlen
      (loneDot_cons_iff.mpr (mem_lineTails_of_front (upToNul_prefix_append u v) hdot))
  intro cs ds hcs hds
  rw [houtcome cs hcs, houtcome ds hds]

theorem exists_last_letter {l : List Char} (h : ¬∀ c ∈ l, c = nul) :
    ∃ u d z, l = u ++ d :: z ∧ d ≠ nul ∧ ∀ c ∈ z, c = nul := by
  induction l with
  | nil => simp at h
  | cons c l ih =>
      by_cases hl : ∀ c ∈ l, c = nul
      · exact ⟨[], c, l, rfl, fun hc => h (by simpa [hc] using hl), hl⟩
      · obtain ⟨u, d, z, rfl, hd, hz⟩ := ih hl
        exact ⟨c :: u, d, z, rfl, hd, hz⟩

/-- Without a dot: two bytes at once get one reply less. -/
theorem not_uniform_of_letter {stream : List Char} (hdot : '.' ∉ stream)
    (h : ¬∀ c ∈ stream.tail, c = nul) : ¬Uniform k e listener i stream := by
  obtain ⟨p, b, d, z, rfl, hd, hz⟩ : ∃ p b d z, stream = p ++ b :: d :: z ∧ d ≠ nul ∧
      ∀ c ∈ z, c = nul := by
    obtain ⟨u, d, z, htail, hd, hz⟩ := exists_last_letter h
    cases stream with
    | nil => simp at htail
    | cons c₀ l =>
        rcases List.eq_nil_or_concat (c₀ :: u) with hnil | ⟨p, b, hpb⟩
        · cases hnil
        · refine ⟨p, b, d, z, ?_, hd, hz⟩
          have htail : l = u ++ d :: z := htail
          rw [htail, ← List.cons_append, hpb]
          simp
  simp only [List.mem_append, List.mem_cons, not_or] at hdot
  obtain ⟨hp, hb, hdd, -⟩ := hdot
  obtain ⟨w₁, h₁, hw₁, hall⟩ := Worker.serve_bytewise (k := k) opened_awaits
    (opened_buf listener i e) hp
  have hbytewise : Cut (p ++ b :: d :: z) (bytewise p ++ bytewise (b :: d :: z)) :=
    (cut_bytewise p).append (cut_bytewise _)
  have hpair : Cut (p ++ b :: d :: z) (bytewise p ++ [b, d] :: bytewise z) :=
    (cut_bytewise p).append (Cut.cons (c := [b, d]) (by simp) (by simp [bufSize]) (cut_bytewise z))
  intro huniform
  have hsame := huniform _ _ hbytewise hpair
  rw [hall, hall] at hsame
  -- byte by byte
  obtain ⟨w₂, h₂, hw₂, hall₂⟩ := Worker.serve_bytewise (k := k) (p := [b, d]) h₁ hw₁
    (by simp [hb, hdd])
  rw [show bytewise (b :: d :: z) = bytewise [b, d] ++ bytewise z from rfl, hall₂,
    Worker.serveAll_nuls (cut_bytewise z) h₂ (Worker.sealed_of_clear hw₂) hz] at hsame
  -- both at once
  have hlen : [b, d].length < bufSize := by simp [bufSize]
  by_cases hbn : b = nul
  · subst hbn
    obtain ⟨w₃, hok, h₃, hw₃, -⟩ :=
      Worker.serve_silent (k := k) h₁ (Worker.sealed_of_clear hw₁) hlen rfl
    rw [Worker.serveAll_cons_ok hok, Worker.serveAll_nuls (cut_bytewise z) h₃ hw₃ hz] at hsame
    have := congrArg (fun o => o.replies.length) hsame
    simp [Worker.letters, hd] at this
  · have hno : ¬LoneDot [b, d] := fun hmem => by
      have := hmem.mem
      simp [hb, hdd] at this
    obtain ⟨w₃, hok, h₃, hw₃⟩ := Worker.serve_clear_text (k := k) h₁ hw₁ hlen (by simp)
      (by simp [Ne.symm hbn, Ne.symm hd]) (noKeyword_of_length (by simp)) hno
    rw [Worker.serveAll_cons_ok hok,
      Worker.serveAll_nuls (cut_bytewise z) h₃ (Worker.sealed_of_clear hw₃) hz] at hsame
    have := congrArg (fun o => o.replies.length) hsame
    simp [Worker.letters, hd, hbn] at this

/-- A letter and the dot behind it in one chunk: either that chunk is a lone dot
and the letter gets no reply, or the server goes on behind it. -/
theorem escapes_of_letter {w : Worker} {replies : List CStr} {b : Char} {r : List Char}
    (h : w.Awaits e i replies) (hw : w.buf = clear bufSize) (hb : b ≠ nul) (hbdot : b ≠ '.') :
    Worker.Escapes k e i (replies ++ [response500]) w (b :: '.' :: r) := by
  have hlen : [b, '.'].length < bufSize := by simp [bufSize]
  have hnul : nul ∉ [b, '.'] := by simp [Ne.symm hb, show nul ≠ '.' by decide]
  by_cases hline : LoneDot [b, '.']
  · refine ⟨[b, '.'] :: bytewise r, (cut_bytewise r).cons (c := [b, '.']) (by simp) hlen, ?_⟩
    rw [Worker.serveAll_dot h hw (upToNul_eq_self hnul) hlen hline]
    simp
  by_cases hrest : r.head? = some '.' ∧ LoneDot (upToNul r)
  · -- one dot more keeps the line from being a lone dot
    obtain ⟨r', rfl⟩ : ∃ r', r = '.' :: r' := by
      cases r with
      | nil => cases hrest.1
      | cons c r' =>
          cases hrest.1
          exact ⟨r', rfl⟩
    have hlen₃ : [b, '.', '.'].length < bufSize := by simp [bufSize]
    have hno : ¬LoneDot [b, '.', '.'] := by
      intro hdots
      obtain ⟨c, hc, hmem⟩ := hdots.head
      cases hc
      have hb : b = '\r' ∨ b = '\n' := by simpa [hbdot] using hmem
      rcases hb with rfl | rfl <;> exact hline (by decide)
    obtain ⟨w', hok, h', hw'⟩ := Worker.serve_clear_text (k := k) h hw hlen₃ (by simp)
      (by simp [Ne.symm hb, show nul ≠ '.' by decide]) (noKeyword_of_length (by simp)) hno
    have hhead : r'.head? ≠ some '.' := by
      intro hhead
      cases r' with
      | nil => cases hhead
      | cons c r' =>
          cases hhead
          have hline := hrest.2
          rw [show upToNul ('.' :: '.' :: r') = '.' :: '.' :: upToNul r' by simp [upToNul, nul],
            loneDot_cons_iff] at hline
          simp [lineTails] at hline
    exact (Worker.escapes_of_head_ne_dot h' hw' hhead).cons hok
      (by simp) hlen₃
  · obtain ⟨w', hok, h', hw'⟩ := Worker.serve_clear_text (k := k) h hw hlen (by simp) hnul
      (noKeyword_of_length (by simp)) hline
    have hescape : Worker.Escapes k e i (replies ++ [response500]) w' r := by
      by_cases hhead : r.head? = some '.'
      · obtain ⟨r', rfl⟩ : ∃ r', r = '.' :: r' := by
          cases r with
          | nil => cases hhead
          | cons c r' =>
              cases hhead
              exact ⟨r', rfl⟩
        exact Worker.escapes_of_dot h' hw' fun hline => hrest ⟨rfl, hline⟩
      · exact Worker.escapes_of_head_ne_dot h' hw' hhead
    exact hescape.cons hok (by simp) hlen

/-- With a dot: byte by byte the process ends there, and some cut does not. -/
theorem not_uniform_of_dot {stream : List Char} (hdot : '.' ∈ stream)
    (h : ¬(stream.head? = some '.' ∧ LoneDot (upToNul stream))) :
    ¬Uniform k e listener i stream := by
  obtain ⟨p, r, rfl, hp⟩ := List.eq_append_cons_of_mem hdot
  obtain ⟨w₁, h₁, hw₁, hall⟩ := Worker.serve_bytewise (k := k) opened_awaits
    (opened_buf listener i e) hp
  intro huniform
  have hend : ∀ cs, Cut (p ++ '.' :: r) cs →
      (Worker.opened listener i e).serveAll k e i cs =
        ⟨[response220] ++ List.replicate (Worker.letters p) response500, [], none⟩ := by
    intro cs hcut
    rw [huniform cs (bytewise p ++ bytewise ('.' :: r)) hcut
      ((cut_bytewise p).append (cut_bytewise _)), hall]
    exact Worker.serveAll_dot h₁ hw₁ (show upToNul ['.'] = ['.'] from rfl) (by simp [bufSize])
      (by decide)
  rcases List.eq_nil_or_concat p with rfl | ⟨p, b, rfl⟩
  · obtain ⟨cs, hcut, hne⟩ := Worker.escapes_of_dot (k := k) opened_awaits (opened_buf listener i e)
      fun hline => h ⟨rfl, hline⟩
    exact hne (hend cs hcut)
  simp only [List.concat_eq_append, List.mem_append, List.mem_singleton, not_or] at hp
  obtain ⟨w₂, h₂, hw₂, hall₂⟩ := Worker.serve_bytewise (k := k) opened_awaits
    (opened_buf listener i e) hp.1
  have hescape : Worker.Escapes k e i
      ([response220] ++ List.replicate (Worker.letters (p.concat b)) response500) w₂
      (b :: '.' :: r) := by
    by_cases hb : b = nul
    · subst hb
      have hletters : Worker.letters (p.concat nul) = Worker.letters p := by
        simp [Worker.letters]
      rw [hletters]
      exact Worker.escapes_of_nul h₂ (Worker.sealed_of_clear hw₂)
    · have hletters : Worker.letters (p.concat b) = Worker.letters p + 1 := by
        simp [Worker.letters, hb]
      rw [hletters, List.replicate_succ', ← List.append_assoc]
      exact escapes_of_letter h₂ hw₂ hb (Ne.symm hp.2)
  obtain ⟨cs, hcut, hne⟩ := hescape
  refine hne ?_
  rw [← hall₂ cs]
  exact hend _ (by simpa using (cut_bytewise p).append hcut)

/-- The cut of a stream does not matter exactly when the stream is one byte
with NULs behind it, or a lone dot. -/
theorem uniform_iff (k : Kernel) (e : Env) (listener i : ℕ) (stream : List Char) :
    Uniform k e listener i stream ↔
      (∀ c ∈ stream.tail, c = nul) ∨
        (stream.head? = some '.' ∧ LoneDot (upToNul stream)) := by
  constructor
  · intro huniform
    by_contra h
    obtain ⟨hnuls, hdot⟩ := not_or.mp h
    by_cases hmem : '.' ∈ stream
    · exact not_uniform_of_dot hmem hdot huniform
    · exact not_uniform_of_letter hmem hnuls huniform
  · rintro (h | ⟨hhead, hdot⟩)
    · exact uniform_of_nuls h
    · exact uniform_of_loneDot hhead hdot

end Uniform

/-- A HELO line is answered with 250 when it comes whole, and with two 500s when
it comes in two parts. -/
theorem helo_line_not_uniform :
    ¬Uniform sampleKernel sampleEnv 3 4 "HELO a\r\n".toList := by
  intro h
  have hwhole : Cut "HELO a\r\n".toList ["HELO a\r\n".toList] := ⟨rfl, by decide⟩
  have hparts : Cut "HELO a\r\n".toList ["HELO".toList, " a\r\n".toList] := ⟨rfl, by decide⟩
  exact absurd (h _ _ hwhole hparts) (by decide +kernel)

end SmtpProj.Server
