import SmtpProj.Server.Worker

/-!
The receive buffer of a worker, which all its connections share.

`recv` writes its bytes over the start of `buf` without a terminator, the copy
into `recv_buf` goes on to the first NUL, and afterwards only what was copied
is cleared. What the copy takes beyond the bytes just received is the residue
of earlier ones. As long as every chunk is text and leaves room for a NUL, the
buffer is clear between any two receipts.
-/

namespace SmtpProj.Server

open Lib

namespace Worker

def deliver (w : Worker) (d : ℕ × List Char) : Except WorkerStop Worker :=
  w.recvFrom (.bytes d.2) d.1

/-- The copy leaves in `recv_buf` the bytes just received, up to the first
NUL. -/
def OwnBytes (w : Worker) (d : ℕ × List Char) : Prop :=
  ∃ w' s, w.deliver d = .ok w' ∧ w'.connections d.1 = .live s ∧ s.recvBuf = upToNul d.2

/-- The bytes bring a NUL, or the byte of `buf` behind them is one. -/
def Terminated (w : Worker) (d : ℕ × List Char) : Prop :=
  nul ∈ d.2 ∨ (w.buf.drop d.2.length).head? = some nul

instance (w : Worker) (d : ℕ × List Char) : Decidable (w.Terminated d) := by
  unfold Terminated
  infer_instance

theorem deliver_of_live {w : Worker} {d : ℕ × List Char} {s : Session}
    (hs : w.connections d.1 = .live s) :
    w.deliver d = copyBuf d.1 s { w with buf := overlay d.2 w.buf } := by
  simp only [deliver, recvFrom, recvInto, hs]

/-- What a connection finds in its buffer is its own exactly when the string
ends with it. -/
theorem ownBytes_iff {w : Worker} {d : ℕ × List Char} {s : Session}
    (hs : w.connections d.1 = .live s) : w.OwnBytes d ↔ w.Terminated d := by
  rw [Terminated, ← cstr_append_eq_iff]
  change _ ↔ cstr (overlay d.2 w.buf) = _
  constructor
  · rintro ⟨w', s', hok, hs', htext⟩
    rw [deliver_of_live hs, copyBuf] at hok
    cases hc : cstr (overlay d.2 w.buf) with
    | none =>
        rw [hc] at hok
        cases hok
    | some text =>
        rw [hc] at hok
        cases hok
        simp only [setSlot, Function.update_self, Slot.live.injEq] at hs'
        rw [← htext, ← hs']
        rfl
  · intro hc
    have hok := deliver_of_live hs
    rw [copyBuf, hc] at hok
    exact ⟨_, s.receive (upToNul d.2), hok, by simp [setSlot], rfl⟩

theorem deliver_live {w w' : Worker} {d : ℕ × List Char} (h : w.deliver d = .ok w') {i : ℕ}
    (hi : ∃ s, w.connections i = .live s) : ∃ s, w'.connections i = .live s := by
  obtain ⟨s, hs⟩ : ∃ s, w.connections d.1 = .live s := by
    cases hd : w.connections d.1 with
    | live s => exact ⟨s, rfl⟩
    | none => simp [deliver, recvFrom, recvInto, hd] at h
    | freed => simp [deliver, recvFrom, recvInto, hd] at h
  rw [deliver_of_live hs, copyBuf] at h
  cases hc : cstr (overlay d.2 w.buf) with
  | none =>
      rw [hc] at h
      cases h
  | some text =>
      rw [hc] at h
      cases h
      by_cases hid : i = d.1
      · exact ⟨s.receive text, by simp [setSlot, hid]⟩
      · simpa [setSlot, hid] using hi

/-- Over any sequence of receipts on open connections, every connection finds
its own bytes exactly when every receipt ends its string. -/
theorem ownBytes_along_iff {w : Worker} {ds : List (ℕ × List Char)}
    (hlive : ∀ d ∈ ds, ∃ s, w.connections d.1 = .live s) :
    Along deliver OwnBytes w ds ↔ Along deliver Terminated w ds := by
  refine along_congr (I := fun w => ∀ d ∈ ds, ∃ s, w.connections d.1 = .live s)
    (fun w d w' h hok b hb => deliver_live hok (h b hb)) ?_ hlive
  intro w' d hd h
  obtain ⟨s, hs⟩ := h d hd
  exact ownBytes_iff hs

def twoConns : Worker :=
  ((boot 3).setSlot 4 (.live (connCreate ⟨0, 0⟩))).setSlot 5 (.live (connCreate ⟨0, 0⟩))

theorem ownBytes_along_text :
    Along deliver OwnBytes twoConns [(4, "QUIT".toList)] := by
  refine (ownBytes_along_iff ?_).mpr ⟨.inr (by decide), fun _ _ => trivial⟩
  intro d hd
  rw [List.mem_singleton.mp hd]
  exact ⟨_, rfl⟩

/-- The bytes that one connection sent behind a NUL turn up in the next chunk
of another. -/
theorem residue_crosses_connections :
    ¬Along deliver OwnBytes twoConns [(4, "A\x00SECRET".toList), (5, "XY".toList)] := by
  intro h
  obtain ⟨-, hown, -⟩ := (along_cons_ok rfl).mp h
  have hterminated := (ownBytes_iff rfl).mp hown
  exact absurd hterminated (by decide)

/-- Text that leaves room for a NUL keeps the buffer clear. -/
theorem deliver_of_clear {w : Worker} {d : ℕ × List Char} {s : Session}
    (hs : w.connections d.1 = .live s) (hbuf : w.buf = clear bufSize) (htext : nul ∉ d.2)
    (hlen : d.2.length < bufSize) :
    w.deliver d = .ok (w.setSlot d.1 (.live (s.receive d.2))) := by
  have hself : upToNul d.2 = d.2 := upToNul_eq_self htext
  rw [deliver_of_live hs, copyBuf, hbuf, cstr_overlay_clear hlen]
  simp only [hself, wipe_overlay_clear hlen.le]
  rw [← hbuf]
  rfl

end Worker

end SmtpProj.Server
