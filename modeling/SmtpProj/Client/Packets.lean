import SmtpProj.Client.Frame

/-!
Replies that come in pieces.

`read_data_from_server` is called when the socket is ready, and reads until it
has a CRLF or the socket has nothing more for it. In the second case it forgets
what it has read and returns a null pointer, which its caller reads. So what one
call takes for a reply is what was there at the time, up to the first `recv`
that brought a CRLF: a line that is cut in two is lost, and of a reply of several
lines each call that finds one or more of them steps the automaton once.

A way for a reply to come in is the list of the calls it is read with, each with
the chunks it receives. `gathered` is what a call makes of its chunks, and
`follow` is where the automaton gets with one such text after the other; with
these two, what the calls do is said without the socket.
-/

namespace SmtpProj.Client

open Lib

/-! ### One call -/

def gathered (call : List (List Char)) : CStr := (call.map upToNul).flatten

def BringsCrlf (call : List (List Char)) : Prop := (strstr "\r\n".toList (gathered call)).isSome

/-- What a call receives: its chunks, and then nothing that is there yet. -/
def received (call : List (List Char)) : List RecvResult := call.map .bytes ++ [.failed]

section Reading

variable {call : List (List Char)} {results : List RecvResult} {msg : CStr}

/-- A loop that is not through after its chunks goes on behind them. -/
theorem readLoop_append (h : readLoop msg (call.map .bytes) = none) :
    readLoop msg (call.map .bytes ++ results) = readLoop (msg ++ gathered call) results := by
  induction call generalizing msg with
  | nil => simp [gathered]
  | cons chunk chunks ih =>
      simp only [List.map_cons, readLoop] at h
      split at h
      next hcrlf => cases h
      next hcrlf =>
        simp only [List.map_cons, List.cons_append, readLoop, if_neg hcrlf]
        rw [ih h]
        simp [gathered]

/-- A call that receives its chunks returns them if there is a CRLF in them, and
else a null pointer. -/
theorem readDataFromServer_received (hne : call ≠ [])
    (hgoes : readDataFromServer (call.dropLast.map .bytes) = none) :
    (BringsCrlf call → readDataFromServer (received call) = some (gathered call)) ∧
      (¬BringsCrlf call → readDataFromServer (received call) = none) := by
  obtain ⟨front, last, rfl⟩ : ∃ front last, call = front ++ [last] :=
    ⟨call.dropLast, call.getLast hne, (List.dropLast_append_getLast hne).symm⟩
  rw [List.dropLast_concat] at hgoes
  have hgathered : gathered (front ++ [last]) = gathered front ++ upToNul last := by
    simp [gathered]
  have hread : readDataFromServer (received (front ++ [last])) =
      readLoop (gathered front) [.bytes last, .failed] := by
    have hsplit : received (front ++ [last]) = front.map .bytes ++ [.bytes last, .failed] := by
      simp [received]
    rw [hsplit, readDataFromServer, readLoop_append hgoes]
    rfl
  rw [hread, BringsCrlf, hgathered]
  constructor
  · intro hcrlf
    simp only [readLoop, if_pos hcrlf]
  · intro hcrlf
    simp only [readLoop, if_neg hcrlf]

theorem flatten_gathered_iff {calls : List (List (List Char))} :
    (calls.map gathered).flatten = calls.flatten.flatten ↔ nul ∉ calls.flatten.flatten := by
  constructor
  · intro h
    rw [← h]
    simp [gathered]
  · intro h
    have hchunk : ∀ call ∈ calls, gathered call = call.flatten := by
      intro call hcall
      have hself : ∀ chunk ∈ call, upToNul chunk = chunk := fun chunk hchunk =>
        upToNul_eq_self fun hnul => h <| by
          simp only [List.mem_flatten]
          exact ⟨chunk, ⟨call, hcall, hchunk⟩, hnul⟩
      rw [gathered, List.map_congr_left hself, List.map_id']
    rw [List.map_congr_left hchunk, List.flatten_flatten]

end Reading

/-! ### The calls of a reply -/

/-- `calls` is a way for `reply` to come in: all of it, in chunks that fit the
buffer, and no call receives on after it has a CRLF. -/
structure Arrives (reply : List Char) (calls : List (List (List Char))) : Prop where
  whole : calls.flatten.flatten = reply
  chunks : ∀ call ∈ calls, call ≠ [] ∧ ∀ chunk ∈ call, chunk ≠ [] ∧ chunk.length ≤ 1023
  goesOn : ∀ call ∈ calls, readDataFromServer (call.dropLast.map .bytes) = none

theorem Arrives.gathered_eq {reply : List Char} {calls : List (List (List Char))}
    (hway : Arrives reply calls) (hnul : nul ∉ reply) :
    calls.map gathered = calls.map List.flatten := by
  refine List.map_congr_left fun call hcall => ?_
  have hone : nul ∉ [call].flatten.flatten := by
    intro h
    rw [← hway.whole] at hnul
    simp only [List.mem_flatten] at h hnul
    obtain ⟨chunk, ⟨call', hcall', hchunk⟩, hmem⟩ := h
    obtain rfl : call' = call := by simpa using hcall'
    exact hnul ⟨chunk, ⟨call', hcall, hchunk⟩, hmem⟩
  simpa using flatten_gathered_iff.mpr hone

/-- The automaton with one text after the other taken for a reply; back at its
start it gives the socket up, and no further text is read. -/
def Dscrptr.follow (d : Dscrptr) : List CStr → Option Dscrptr
  | [] => some d
  | reply :: replies =>
      match d.advance (checkServerCode reply) with
      | .error _ => none
      | .ok d' => if d'.state = .init ∧ replies ≠ [] then none else d'.follow replies

def heard (j : ℕ) (log : List Event) : CStr :=
  log.flatMap fun
    | .answered i _ reply => if i = j then reply else []
    | _ => []

namespace Child

variable {c c' : Child} {j : ℕ} {calls calls' : List (List (List Char))} {reply : List Char}

def reads (j : ℕ) (calls : List (List (List Char))) : List Op :=
  calls.map fun call => .read j (received call)

/-- A call that completes has read a text that steps the descriptor. -/
theorem read_ok {call : List (List Char)} (hne : call ≠ [])
    (hgoes : readDataFromServer (call.dropLast.map .bytes) = none)
    (h : c.step (.read j (received call)) = .ok c') :
    BringsCrlf call ∧ (c.sockets (c.dscrptrs j).socketFd).isSome ∧
      (c.dscrptrs j).advance (checkServerCode (gathered call)) = .ok (c'.dscrptrs j) ∧
      heard j c'.log = heard j c.log ++ gathered call ∧
      ((c'.dscrptrs j).state = .init → c'.sockets (c'.dscrptrs j).socketFd = none) := by
  obtain ⟨reply, d, hreply, hd, rfl⟩ := handleReadSocket_ok.mp h
  obtain ⟨hsome, hnone⟩ := readDataFromServer_received hne hgoes
  unfold receive at hreply
  split at hreply
  next hopen =>
    have hcrlf : BringsCrlf call := by
      by_contra hcrlf
      rw [hnone hcrlf] at hreply
      cases hreply
    rw [hsome hcrlf] at hreply
    cases hreply
    refine ⟨hcrlf, hopen, ?_, ?_, ?_⟩
    · simpa [afterReply, record, setDscrptr] using hd
    · simp [afterReply, record, setDscrptr, heard]
    · intro hinit
      have hslot : d.state = .init := by simpa [afterReply, record, setDscrptr] using hinit
      simp [afterReply, record, setDscrptr, hslot]
  next => cases hreply

theorem run_reads_ok (hcalls : ∀ call ∈ calls, call ≠ [] ∧
      readDataFromServer (call.dropLast.map .bytes) = none)
    (h : run step c (reads j calls) = .ok c') :
    (∀ call ∈ calls, BringsCrlf call) ∧
      (c.dscrptrs j).follow (calls.map gathered) = some (c'.dscrptrs j) ∧
      heard j c'.log = heard j c.log ++ (calls.map gathered).flatten := by
  induction calls generalizing c with
  | nil =>
      cases h
      simp [Dscrptr.follow]
  | cons call rest ih =>
      obtain ⟨c₁, hstep, hrest⟩ := bind_eq_ok.mp h
      obtain ⟨hne, hgoes⟩ := hcalls call (by simp)
      obtain ⟨hcrlf, -, hd, hheard, hclosed⟩ := read_ok hne hgoes hstep
      obtain ⟨hcrlfs, hfollow, hheard'⟩ := ih (fun call' h' => hcalls call' (by simp [h'])) hrest
      -- a session that is back at its start has no socket to read the rest from
      have hgoesOn : ¬((c₁.dscrptrs j).state = .init ∧ rest.map gathered ≠ []) := by
        rintro ⟨hinit, hmore⟩
        cases rest with
        | nil => exact hmore rfl
        | cons call' rest =>
            obtain ⟨c₂, hstep', -⟩ := bind_eq_ok.mp hrest
            obtain ⟨hne', hgoes'⟩ := hcalls call' (by simp)
            obtain ⟨-, hopen, -⟩ := read_ok hne' hgoes' hstep'
            rw [hclosed hinit] at hopen
            cases hopen
      refine ⟨fun call' h' => ?_, ?_, ?_⟩
      · rcases List.mem_cons.mp h' with rfl | h'
        · exact hcrlf
        · exact hcrlfs call' h'
      · rw [List.map_cons, Dscrptr.follow, hd]
        simp only [if_neg hgoesOn]
        exact hfollow
      · rw [hheard', hheard, List.map_cons, List.flatten_cons, List.append_assoc]

theorem exists_run_reads {d : Dscrptr} (hcalls : ∀ call ∈ calls, call ≠ [] ∧
      readDataFromServer (call.dropLast.map .bytes) = none)
    (hopen : (c.sockets (c.dscrptrs j).socketFd).isSome)
    (hcrlf : ∀ call ∈ calls, BringsCrlf call)
    (hfollow : (c.dscrptrs j).follow (calls.map gathered) = some d) :
    ∃ c', run step c (reads j calls) = .ok c' := by
  induction calls generalizing c with
  | nil => exact ⟨c, rfl⟩
  | cons call rest ih =>
      obtain ⟨hne, hgoes⟩ := hcalls call (by simp)
      have hread := (readDataFromServer_received hne hgoes).1 (hcrlf call (by simp))
      rw [List.map_cons, Dscrptr.follow] at hfollow
      cases hd : (c.dscrptrs j).advance (checkServerCode (gathered call)) with
      | error halt =>
          rw [hd] at hfollow
          cases hfollow
      | ok d₁ =>
          simp only [hd] at hfollow
          have hstep : c.step (.read j (received call)) =
              .ok (((c.setDscrptr j d₁).record
                [.answered j (c.dscrptrs j).state (gathered call)]).afterReply d₁) :=
            handleReadSocket_ok.mpr ⟨_, d₁, by rw [receive, if_pos hopen, hread], hd, rfl⟩
          cases hrest : rest with
          | nil => exact ⟨_, by rw [reads, List.map_singleton, run_cons_ok hstep]; rfl⟩
          | cons call' rest' =>
              rw [← hrest]
              have hgoesOn : ¬(d₁.state = .init ∧ rest.map gathered ≠ []) := fun hend => by
                rw [if_pos hend] at hfollow
                cases hfollow
              rw [if_neg hgoesOn] at hfollow
              have hinit : d₁.state ≠ .init := fun hinit => hgoesOn ⟨hinit, by simp [hrest]⟩
              obtain ⟨c', hrun⟩ := ih
                (c := ((c.setDscrptr j d₁).record
                  [.answered j (c.dscrptrs j).state (gathered call)]).afterReply d₁)
                (fun call' h' => hcalls call' (by simp [h']))
                (by simpa [afterReply, record, setDscrptr, hinit, (Dscrptr.advance_kept hd).2.1]
                  using hopen)
                (fun call' h' => hcrlf call' (by simp [h']))
                (by simpa [afterReply, record, setDscrptr] using hfollow)
              exact ⟨c', by rw [reads, List.map_cons, run_cons_ok hstep]; exact hrun⟩

/-! ### Two ways -/

/-- The calls read all of the reply, and leave the descriptor as `d`. -/
def ReadsWhole (j : ℕ) (reply : List Char) (calls : List (List (List Char))) (d : Dscrptr)
    (c : Child) : Prop :=
  ∃ c', run step c (reads j calls) = .ok c' ∧ heard j c'.log = heard j c.log ++ reply ∧
    c'.dscrptrs j = d

/-- Two ways for a reply to come in: neither loses any of it or comes to a null
pointer, and the descriptor is the same in the end. -/
def ReadsAlike (j : ℕ) (reply : List Char) (calls calls' : List (List (List Char))) (c : Child) :
    Prop :=
  ∃ d, c.ReadsWhole j reply calls d ∧ c.ReadsWhole j reply calls' d

/-- One way: all of it is read if it has no NUL, every call finds a CRLF, and
the automaton can follow what they find. -/
theorem readsWhole_iff {d : Dscrptr} (hopen : (c.sockets (c.dscrptrs j).socketFd).isSome)
    (hway : Arrives reply calls) :
    c.ReadsWhole j reply calls d ↔ nul ∉ reply ∧
      (∀ call ∈ calls, (strstr "\r\n".toList call.flatten).isSome) ∧
        (c.dscrptrs j).follow (calls.map List.flatten) = some d := by
  have hcalls : ∀ call ∈ calls, call ≠ [] ∧
      readDataFromServer (call.dropLast.map .bytes) = none := fun call hcall =>
    ⟨(hway.chunks call hcall).1, hway.goesOn call hcall⟩
  have hcrlf : nul ∉ reply → ∀ call ∈ calls,
      (BringsCrlf call ↔ (strstr "\r\n".toList call.flatten).isSome) := by
    intro hnul call hcall
    rw [BringsCrlf, List.map_inj_left.mp (hway.gathered_eq hnul) call hcall]
  constructor
  · rintro ⟨c', hrun, hheard, rfl⟩
    obtain ⟨hcrlfs, hfollow, hall⟩ := run_reads_ok hcalls hrun
    have hnul : nul ∉ reply := by
      rw [← hway.whole, ← flatten_gathered_iff, hway.whole]
      exact List.append_cancel_left (hall.symm.trans hheard)
    refine ⟨hnul, fun call hcall => (hcrlf hnul call hcall).mp (hcrlfs call hcall), ?_⟩
    rwa [← hway.gathered_eq hnul]
  · rintro ⟨hnul, hcrlfs, hfollow⟩
    rw [← hway.gathered_eq hnul] at hfollow
    obtain ⟨c', hrun⟩ := exists_run_reads hcalls hopen
      (fun call hcall => (hcrlf hnul call hcall).mpr (hcrlfs call hcall)) hfollow
    obtain ⟨-, hend, hheard⟩ := run_reads_ok hcalls hrun
    refine ⟨c', hrun, ?_, Option.some.inj (hend.symm.trans hfollow)⟩
    rw [hheard, flatten_gathered_iff.mpr (hway.whole.symm ▸ hnul), hway.whole]

/-- A reply is read alike in two ways exactly if it has no NUL, every call finds
a CRLF, and the automaton can follow what the calls find, to the same end. -/
theorem readsAlike_iff (hopen : (c.sockets (c.dscrptrs j).socketFd).isSome)
    (hway : Arrives reply calls) (hway' : Arrives reply calls') :
    c.ReadsAlike j reply calls calls' ↔ nul ∉ reply ∧
      (∀ call ∈ calls ++ calls', (strstr "\r\n".toList call.flatten).isSome) ∧
      ∃ d, (c.dscrptrs j).follow (calls.map List.flatten) = some d ∧
        (c.dscrptrs j).follow (calls'.map List.flatten) = some d := by
  simp only [ReadsAlike, readsWhole_iff hopen hway, readsWhole_iff hopen hway',
    List.forall_mem_append]
  constructor
  · rintro ⟨d, ⟨hnul, hcrlf, hfollow⟩, -, hcrlf', hfollow'⟩
    exact ⟨hnul, ⟨hcrlf, hcrlf'⟩, d, hfollow, hfollow'⟩
  · rintro ⟨hnul, ⟨hcrlf, hcrlf'⟩, d, hfollow, hfollow'⟩
    exact ⟨d, ⟨hnul, hcrlf, hfollow⟩, hnul, hcrlf', hfollow'⟩

/-- A reply of one line is read only by a call that finds all of it. -/
theorem readsWhole_line_iff {d : Dscrptr} (hopen : (c.sockets (c.dscrptrs j).socketFd).isSome)
    (hway : Arrives reply calls) (hline : strstr "\r\n".toList reply = some (reply.length - 2)) :
    c.ReadsWhole j reply calls d ↔ nul ∉ reply ∧ calls.length = 1 ∧
      (c.dscrptrs j).advance (checkServerCode reply) = .ok d := by
  have hwhole := hway.whole
  have hlen := length_le_of_strstr hline
  rw [readsWhole_iff hopen hway]
  refine and_congr_right fun _ => ?_
  cases calls with
  | nil =>
      obtain rfl : reply = [] := by simpa using hwhole.symm
      cases hline
  | cons call rest =>
      have hreply : call.flatten ++ rest.flatten.flatten = reply := by simpa using hwhole
      cases rest with
      | nil =>
          have hcall : call.flatten = reply := by simpa using hreply
          have hfollow : (c.dscrptrs j).follow [reply] = some d ↔
              (c.dscrptrs j).advance (checkServerCode reply) = .ok d := by
            simp only [Dscrptr.follow]
            cases (c.dscrptrs j).advance (checkServerCode reply) <;> simp
          have hcrlf : (strstr "\r\n".toList reply).isSome := by
            rw [hline]
            rfl
          simp only [List.map_cons, List.map_nil, hcall, hfollow, List.mem_singleton, forall_eq,
            hcrlf, List.length_singleton, true_and]
      | cons call' rest =>
          refine iff_of_false (fun h => ?_) fun h => by simp at h
          -- the CRLF of the first call is not the last of the reply
          obtain ⟨i, hi⟩ := Option.isSome_iff_exists.mp (h.1 call (by simp))
          have hi' := strstr_append hi (call' :: rest).flatten.flatten
          rw [hreply, hline] at hi'
          obtain ⟨hne, hchunks⟩ := hway.chunks call' (by simp)
          obtain ⟨chunk, chunks, rfl⟩ := List.exists_cons_of_ne_nil hne
          have hchunk := List.length_pos_iff.mpr (hchunks chunk (by simp)).1
          have hend := length_le_of_strstr hi
          have hlength := congrArg List.length hreply
          simp only [List.length_append, List.flatten_cons, List.cons_append] at hlength
          have hplace := Option.some.inj hi'
          have hpat : "\r\n".toList.length = 2 := rfl
          omega

/-- Every reply can come in so that it is not read: byte by byte. -/
theorem not_readsWhole_bytewise {d : Dscrptr} (hne : reply ≠ []) :
    Arrives reply (reply.map fun b => [[b]]) ∧
      ¬c.ReadsWhole j reply (reply.map fun b => [[b]]) d := by
  have hway : Arrives reply (reply.map fun b => [[b]]) := by
    refine ⟨?_, ?_, ?_⟩
    · induction reply with
      | nil => rfl
      | cons b bs ih =>
          cases bs with
          | nil => rfl
          | cons b' bs => simpa using ih (by simp)
    · simp
    · simp [readDataFromServer, readLoop]
  refine ⟨hway, ?_⟩
  rintro ⟨c', hrun, -⟩
  obtain ⟨b, bs, rfl⟩ := List.exists_cons_of_ne_nil hne
  obtain ⟨hcrlf, -⟩ := run_reads_ok (fun call hcall =>
    ⟨(hway.chunks call hcall).1, hway.goesOn call hcall⟩) hrun
  obtain ⟨i, hi⟩ := Option.isSome_iff_exists.mp (hcrlf [[b]] (by simp))
  have hlen := length_le_of_strstr hi
  have hshort : (gathered [[b]]).length ≤ 1 := by
    have hprefix : upToNul [b] <+: [b] := List.takeWhile_prefix _
    simpa [gathered] using hprefix.length_le
  have hpat : "\r\n".toList.length = 2 := rfl
  omega

/-! ### A greeting -/

def sampleWaiting : List Op := [.register (sampleLetter "a.b") (some 5)]

def sampleGreeting : List Char := "220 ok\r\n".toList

/-- The greeting in one call, of one chunk or of two. -/
theorem greeting_readsAlike : ∃ c, run step sampleChild sampleWaiting = .ok c ∧
    (c.ReadsAlike 0 sampleGreeting [[sampleGreeting]] [["220 ".toList, "ok\r\n".toList]] ↔
      nul ∉ sampleGreeting ∧
      (∀ call ∈ [[sampleGreeting]] ++ [["220 ".toList, "ok\r\n".toList]],
        (strstr "\r\n".toList call.flatten).isSome) ∧
      ∃ d, (c.dscrptrs 0).follow ([[sampleGreeting]].map List.flatten) = some d ∧
        (c.dscrptrs 0).follow ([["220 ".toList, "ok\r\n".toList]].map List.flatten) = some d) := by
  have hopen : (run step sampleChild sampleWaiting).map (fun c =>
      (c.sockets (c.dscrptrs 0).socketFd).isSome) = .ok true := by decide +kernel
  cases hrun : run step sampleChild sampleWaiting with
  | error halt =>
      rw [hrun] at hopen
      cases hopen
  | ok c =>
      rw [hrun] at hopen
      refine ⟨c, rfl, readsAlike_iff (Except.ok.inj hopen) ⟨?_, ?_, ?_⟩ ⟨?_, ?_, ?_⟩⟩
      all_goals decide +kernel

/-- Cut in the middle of its line, the greeting is read as a null pointer. -/
theorem cut_greeting_not_readsAlike : ∃ c, run step sampleChild sampleWaiting = .ok c ∧
    Arrives sampleGreeting [[sampleGreeting]] ∧
      Arrives sampleGreeting [["220 ".toList], ["ok\r\n".toList]] ∧
        ¬c.ReadsAlike 0 sampleGreeting [[sampleGreeting]] [["220 ".toList], ["ok\r\n".toList]] := by
  have hcut : (run step sampleChild
      (sampleWaiting ++ reads 0 [["220 ".toList], ["ok\r\n".toList]])).map (fun _ => ()) =
        .error .nullRead := by decide +kernel
  cases hrun : run step sampleChild sampleWaiting with
  | error halt =>
      have hend : (run step sampleChild sampleWaiting).map (fun _ => ()) = .ok () := by
        decide +kernel
      rw [hrun] at hend
      cases hend
  | ok c =>
      refine ⟨c, rfl, ⟨?_, ?_, ?_⟩, ⟨?_, ?_, ?_⟩, ?_⟩
      case refine_7 =>
        rintro ⟨d, -, c', hread, -⟩
        rw [run_append_ok hrun, hread] at hcut
        cases hcut
      all_goals decide +kernel

end Child

end SmtpProj.Client
