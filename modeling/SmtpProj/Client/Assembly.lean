import SmtpProj.Lib.Buffer
import SmtpProj.Client.Capacity
import SmtpProj.Client.Packets

/-!
How a reply is put together.

`read_data_from_server` appends each chunk to `msg` and makes the block larger
when the bytes received reach the size it has on record. That size is the one
allocated at first, and one less than the one allocated from then on, so that
the room for the terminator is there on either side of the boundary. What is
kept from one `strcat` to the next is that the text is not longer than the
bytes received, and the block not smaller than the size on record.
-/

namespace SmtpProj.Client

open Lib

structure Assembly where
  buf : List Char
  msg : Buffer
  readBytes : ℕ
  msgSize : ℕ

namespace Assembly

def start : Assembly where
  buf := clear maxBufLen
  msg := ((Buffer.malloc maxBufLen).assign maxBufLen).strcpy []
  readBytes := 0
  msgSize := maxBufLen

/-- The part of the loop up to `strcat`, which is not called unless `msg` has
room. Reading `buf` stops at a NUL; without one it would leave the buffer. -/
def append (chunk : List Char) (a : Assembly) : Except Halt Assembly :=
  let buf := overlay chunk a.buf
  let readBytes := a.readBytes + chunk.length
  let msgSize := if readBytes < a.msgSize then a.msgSize else readBytes
  let msg := if readBytes < a.msgSize then a.msg else a.msg.realloc (readBytes + 1)
  match cstr buf with
  | none => .error .outOfBounds
  | some piece => do
      let msg ← (msg.strcat piece).checked .outOfBounds
      .ok ⟨buf, msg, readBytes, msgSize⟩

def clearBuf (a : Assembly) : Assembly := { a with buf := wipe maxBufLen a.buf }

/-- The loop, with what `recv` returns, and what it would have returned next. -/
def read (a : Assembly) : List RecvResult → Except Halt (Option CStr × List RecvResult)
  | .bytes chunk :: results => do
      let a ← a.append chunk
      if (strstr "\r\n".toList a.msg.text).isSome then .ok (some a.msg.text, results)
      else a.clearBuf.read results
  | .closed :: results => .ok (some a.msg.text, results)
  | .failed :: results => .ok (none, results)
  | [] => .ok (none, [])

structure Sound (a : Assembly) : Prop where
  buf : a.buf = clear maxBufLen
  fits : a.msg.Fits
  text : a.msg.text.length ≤ a.readBytes
  size : a.msgSize ≤ a.msg.size ∧ a.msg.size ≤ a.msgSize + 1

variable {a a' : Assembly} {chunk : List Char} {results : List RecvResult}

theorem sound_start : start.Sound where
  buf := rfl
  fits := by decide
  text := le_rfl
  size := ⟨le_rfl, Nat.le_succ _⟩

theorem Sound.append (ha : a.Sound) (hchunk : chunk.length < maxBufLen) :
    ∃ a', a.append chunk = .ok a' ∧ a'.msg.text = a.msg.text ++ upToNul chunk ∧
      a'.clearBuf.Sound := by
  have hpiece : (upToNul chunk).length ≤ chunk.length := (List.takeWhile_prefix _).length_le
  have htext := ha.text
  have hsize := ha.size
  have hbuf : wipe maxBufLen (overlay chunk (clear maxBufLen)) = clear maxBufLen :=
    wipe_eq_clear (length_overlay_clear hchunk.le).le
  have hlength : (a.msg.text ++ upToNul chunk).length ≤ a.readBytes + chunk.length := by
    rw [List.length_append]
    omega
  unfold Assembly.append
  dsimp only
  rw [ha.buf, cstr_overlay_clear hchunk]
  dsimp only
  by_cases hroom : a.readBytes + chunk.length < a.msgSize
  · have hfits : (a.msg.strcat (upToNul chunk)).Fits :=
      Buffer.fits_strcat_iff.mpr ⟨ha.fits, by omega⟩
    simp only [if_pos hroom, Buffer.checked_ok hfits, bind, Except.bind]
    exact ⟨_, rfl, rfl, hbuf, hfits, hlength, hsize⟩
  · have hfits : ((a.msg.realloc (a.readBytes + chunk.length + 1)).strcat (upToNul chunk)).Fits :=
      Buffer.fits_strcat_iff.mpr ⟨Buffer.fits_realloc ha.fits (by omega), Nat.lt_succ_of_le hlength⟩
    simp only [if_neg hroom, Buffer.checked_ok hfits, bind, Except.bind]
    exact ⟨_, rfl, rfl, hbuf, hfits, hlength, Nat.le_succ _, le_rfl⟩

/-- The loop with its blocks returns what the loop on texts does. -/
theorem Sound.read (ha : a.Sound)
    (hsizes : ∀ chunk, .bytes chunk ∈ results → chunk.length < maxBufLen) :
    ∃ rest, a.read results = .ok (readLoop a.msg.text results, rest) := by
  induction results generalizing a with
  | nil => exact ⟨[], rfl⟩
  | cons result results ih =>
      cases result with
      | closed => exact ⟨results, rfl⟩
      | failed => exact ⟨results, rfl⟩
      | bytes chunk =>
          obtain ⟨a', happend, htext, ha'⟩ := ha.append (hsizes chunk (by simp))
          simp only [Assembly.read, readLoop, happend, htext, bind, Except.bind]
          split_ifs with hcrlf
          · exact ⟨results, rfl⟩
          · obtain ⟨rest, hrest⟩ := ih ha' fun c hc => hsizes c (List.mem_cons_of_mem _ hc)
            refine ⟨rest, hrest.trans ?_⟩
            rw [← htext]
            rfl

/-- The loop over chunks that bring a CRLF, or are followed by the end of the
stream. -/
theorem Sound.read_chunks {chunks : List (List Char)} {tail : List RecvResult} (ha : a.Sound)
    (hchunks : ∀ chunk ∈ chunks, nul ∉ chunk ∧ chunk.length < maxBufLen)
    (hend : (strstr "\r\n".toList (a.msg.text ++ chunks.flatten)).isSome ∨
      tail.head? = some .closed)
    (hquiet : strstr "\r\n".toList a.msg.text = none) :
    ∃ n ≤ chunks.length, ∃ rest,
      a.read (chunks.map .bytes ++ tail) =
        .ok (some (a.msg.text ++ (chunks.take n).flatten), rest) ∧
      (∀ m < n, strstr "\r\n".toList (a.msg.text ++ (chunks.take m).flatten) = none) ∧
      (((strstr "\r\n".toList (a.msg.text ++ (chunks.take n).flatten)).isSome ∧
          rest = (chunks.drop n).map .bytes ++ tail) ∨
        (n = chunks.length ∧ tail = .closed :: rest)) := by
  induction chunks generalizing a with
  | nil =>
      rcases hend with hcrlf | hclosed
      · rw [List.flatten_nil, List.append_nil, hquiet] at hcrlf
        cases hcrlf
      · obtain ⟨rest, rfl⟩ : ∃ rest, tail = .closed :: rest := by
          cases tail with
          | nil => cases hclosed
          | cons result rest => exact ⟨rest, by rw [Option.some.inj hclosed]⟩
        refine ⟨0, le_rfl, rest, ?_, by simp, .inr ⟨rfl, rfl⟩⟩
        simp [Assembly.read]
  | cons chunk chunks ih =>
      obtain ⟨hnul, hlen⟩ := hchunks chunk (by simp)
      obtain ⟨a', happend, htext, ha'⟩ := ha.append hlen
      rw [upToNul_eq_self hnul] at htext
      have htext' : a'.clearBuf.msg.text = a.msg.text ++ chunk := htext
      simp only [List.map_cons, List.cons_append, Assembly.read, happend, bind, Except.bind]
      by_cases hcrlf : (strstr "\r\n".toList a'.msg.text).isSome
      · refine ⟨1, by simp, chunks.map .bytes ++ tail, ?_, ?_, .inl ⟨?_, by simp⟩⟩
        · rw [if_pos hcrlf, htext]
          simp
        · intro m hm
          obtain rfl : m = 0 := by omega
          simpa using hquiet
        · rw [htext] at hcrlf
          simpa using hcrlf
      · have hquiet' : strstr "\r\n".toList a'.clearBuf.msg.text = none := by
          simpa [clearBuf] using hcrlf
        obtain ⟨n, hn, rest, hread, hbefore, hafter⟩ := ih ha'
          (fun c hc => hchunks c (List.mem_cons_of_mem _ hc))
          (by simpa [htext'] using hend) hquiet'
        refine ⟨n + 1, by simpa using hn, rest, ?_, ?_, ?_⟩
        · rw [if_neg hcrlf, hread, htext']
          simp
        · intro m hm
          cases m with
          | zero => simpa using hquiet
          | succ m => simpa [htext'] using hbefore m (by omega)
        · simpa [htext'] using hafter

end Assembly

def assembleReply (results : List RecvResult) : Except Halt (Option CStr × List RecvResult) :=
  Assembly.start.read results

/-- The loop with its blocks is the function that the client is modelled with. -/
theorem assembleReply_eq {results : List RecvResult}
    (hsizes : ∀ chunk, .bytes chunk ∈ results → chunk.length < maxBufLen) :
    ∃ rest, assembleReply results = .ok (readDataFromServer results, rest) :=
  Assembly.sound_start.read hsizes

/-- What is returned are the chunks up to the first with which there is a CRLF,
or all of them if the stream ends without one. No `strcat` was without room. -/
theorem reply_assembled {chunks : List (List Char)} {tail : List RecvResult}
    (hchunks : ∀ chunk ∈ chunks, nul ∉ chunk ∧ 1 ≤ chunk.length ∧ chunk.length ≤ 1023)
    (hend : (strstr "\r\n".toList chunks.flatten).isSome ∨ tail.head? = some .closed) :
    ∃ n ≤ chunks.length, ∃ rest,
      assembleReply (chunks.map .bytes ++ tail) = .ok (some (chunks.take n).flatten, rest) ∧
      (∀ m < n, strstr "\r\n".toList (chunks.take m).flatten = none) ∧
      (((strstr "\r\n".toList (chunks.take n).flatten).isSome ∧
          rest = (chunks.drop n).map .bytes ++ tail) ∨
        (n = chunks.length ∧ tail = .closed :: rest)) := by
  have hsizes : ∀ chunk ∈ chunks, nul ∉ chunk ∧ chunk.length < maxBufLen := fun chunk hchunk =>
    ⟨(hchunks chunk hchunk).1, Nat.lt_succ_of_le (hchunks chunk hchunk).2.2⟩
  exact Assembly.sound_start.read_chunks hsizes hend rfl

/-- A reply whose CR and LF come apart, and a chunk behind it that is left. -/
theorem crlf_in_two_chunks : ∃ n ≤ 3, ∃ rest,
    assembleReply [.bytes "250 ok\r".toList, .bytes "\n".toList, .bytes "354\r\n".toList] =
        .ok (some (["250 ok\r".toList, "\n".toList, "354\r\n".toList].take n).flatten, rest) ∧
      ∀ m < n, strstr "\r\n".toList
        (["250 ok\r".toList, "\n".toList, "354\r\n".toList].take m).flatten = none := by
  have hchunks : ∀ chunk ∈ ["250 ok\r".toList, "\n".toList, "354\r\n".toList],
      nul ∉ chunk ∧ 1 ≤ chunk.length ∧ chunk.length ≤ 1023 := by decide
  have hend : (strstr "\r\n".toList
      ["250 ok\r".toList, "\n".toList, "354\r\n".toList].flatten).isSome ∨
        ([] : List RecvResult).head? = some .closed := .inl (by decide)
  obtain ⟨n, hn, rest, hread, hbefore, -⟩ := reply_assembled hchunks hend
  exact ⟨n, hn, rest, hread, hbefore⟩

end SmtpProj.Client
