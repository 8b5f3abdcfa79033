import SmtpProj.Server.Maildir
import SmtpProj.Server.Table

/-!
The files of several workers.

The workers of a server share nothing but the mail directory. A file is named
after the process and the millisecond, so what is saved twice under one name is
saved by one worker, for one recipient, in one millisecond of the stamp; or
the name of one recipient spells the path of another's letter.

A move is one call of `conn_update`, or the pass of `protocol_update` over one
connection, and the clock is read anew in each. They come in any order.
-/

namespace SmtpProj.Server

open Lib

variable {e : Env} {s s' : Session}

/-! ### What a pass saves -/

structure Saving (e : Env) (s : Session) (letter : Letter) : Prop where
  recvBuf : s.recvBuf ≠ []
  state : s.state = .expectDataRecv
  live : s.letter = .live letter
  ends : (patternScan s.recvBuf).1 = .ptDataEnd ∨
    ((patternScan s.recvBuf).1 = .ptDataRecv ∧ dataMark <:+ s.recvBuf)
  creatable : e.creatable (letter.filename e) = true

@[simp] theorem filename_addText (e : Env) (letter : Letter) (data : Option CStr) :
    (letter.addText data).filename e = letter.filename e := by
  match data with
  | none | some [] | some (_ :: _) => rfl

theorem files_endOfData {letter letter' : Letter} (hgives : Gives s (endOfData e letter') s')
    (hname : letter'.filename e = letter.filename e) :
    s'.files = s.files ∨ e.creatable (letter.filename e) = true ∧
      s'.files = s.files ++ [(letter.filename e, letter'.text)] := by
  have hfiles := hgives.files
  unfold endOfData at hfiles
  rw [hname] at hfiles
  split_ifs at hfiles with hfile
  · exact .inr ⟨hfile, hfiles⟩
  · exact .inl (hfiles.trans (List.append_nil _))

theorem dispatch_files (hrecv : s.recvBuf ≠ [])
    (h : dispatch e s (patternScan s.recvBuf).1 (patternScan s.recvBuf).2 = .ok s') :
    s'.files = s.files ∨ ∃ letter text, Saving e s letter ∧
      s'.files = s.files ++ [(letter.filename e, text)] := by
  obtain ⟨o, ho, hgives⟩ := dispatch_ok h
  have hnone : o.files = [] → s'.files = s.files := fun hfiles => by
    rw [hgives.files, hfiles, List.append_nil]
  generalize htype : (patternScan s.recvBuf).1 = type at ho
  generalize (patternScan s.recvBuf).2 = content at ho
  cases ho with
  | @mark _ letter hst hletter hmark =>
      have hname : (letter.add s.recvBuf).filename e = letter.filename e := rfl
      refine (files_endOfData hgives hname).imp_right fun ⟨hfile, hfiles⟩ => ?_
      exact ⟨letter, _, ⟨hrecv, hst, hletter, .inr ⟨htype, hmark⟩, hfile⟩, hfiles⟩
  | @dot _ letter hst hletter =>
      refine (files_endOfData hgives (filename_addText e letter content)).imp_right
        fun ⟨hfile, hfiles⟩ => ?_
      exact ⟨letter, _, ⟨hrecv, hst, hletter, .inl htype, hfile⟩, hfiles⟩
  | helo | ehlo | mail | mailNone | rcpt | rcptNone | data | text | rset | vrfy | quit =>
      exact .inl (hnone rfl)

/-- A pass adds no file, or that of the letter it saves. -/
theorem protocolUpdate_files (h : protocolUpdate e s = .ok s') :
    s'.files = s.files ∨ ∃ letter text, Saving e s letter ∧
      s'.files = s.files ++ [(letter.filename e, text)] := by
  obtain ⟨s₁, hrecv, h⟩ := bind_eq_ok.mp h
  obtain ⟨s₂, hinit, h⟩ := bind_eq_ok.mp h
  have hrest : s'.files = s₁.files := by
    cases h
    have hs₂ : s₂.files = s₁.files := by
      split_ifs at hinit with hst
      · rw [updateInit_eq hst] at hinit
        cases hinit
        rfl
      · cases hinit
        rfl
    rw [← hs₂]
    split_ifs <;> rfl
  rw [hrest]
  split_ifs at hrecv with hchunk
  · cases hno : noMatch (patternScan s.recvBuf).1 s.state with
    | true =>
        rw [updateRecv_of_noMatch hno] at hrecv
        cases hrecv
        exact .inl rfl
    | false =>
        rw [updateRecv_of_dispatch hno] at hrecv
        obtain ⟨s₃, hdispatch, hrecv⟩ := bind_eq_ok.mp hrecv
        cases hrecv
        have hfiles := dispatch_files hchunk hdispatch
        exact hfiles
  · cases hrecv
    exact .inl rfl

theorem Saving.saves {letter : Letter} (h : Saving e s letter) :
    ∃ s' text, protocolUpdate e s = .ok s' ∧
      s'.files = s.files ++ [(letter.filename e, text)] := by
  obtain ⟨letter', hname, hserves⟩ : ∃ letter', letter'.filename e = letter.filename e ∧
      Serves e s (patternScan s.recvBuf).1 (patternScan s.recvBuf).2 (endOfData e letter') := by
    rcases h.ends with hdot | ⟨htype, hmark⟩
    · rw [hdot]
      exact ⟨_, filename_addText e letter _, .dot h.state h.live⟩
    · rw [htype]
      exact ⟨letter.add s.recvBuf, rfl, .mark h.state h.live hmark⟩
  obtain ⟨s', hok, hgives, -⟩ := protocolUpdate_of_serves h.recvBuf hserves
  have hfiles := hgives.files
  rw [endOfData, if_pos (hname ▸ h.creatable), hname] at hfiles
  exact ⟨s', letter'.text, hok, hfiles⟩

/-! ### Moves -/

/-- The workers that have not stopped. -/
abbrev Fleet := ℕ → Option Worker

inductive Move
  | connUpdate (n : ℕ) (k : Kernel)
  | pass (n i : ℕ) (now : Timeval) (creatable : CStr → Bool)

namespace Fleet

def apply (n : ℕ) (g : Worker → Except WorkerStop Worker) (f : Fleet) : Fleet :=
  match f n with
  | none => f
  | some w => Function.update f n (g w).toOption

def env (pids : ℕ → ℤ) (base : CStr) (n : ℕ) (now : Timeval) (creatable : CStr → Bool) : Env :=
  ⟨now, pids n, base, creatable⟩

/-- A worker that stops does not stop the others. -/
def step (pids : ℕ → ℤ) (base : CStr) (f : Fleet) : Move → Except Halt Fleet
  | .connUpdate n k => .ok (f.apply n (·.connUpdate k))
  | .pass n i now creatable => .ok (f.apply n (·.updateConn (env pids base n now creatable) i))

theorem step_pass {f : Fleet} {n i : ℕ} {now : Timeval} {creatable : CStr → Bool}
    {pids : ℕ → ℤ} {base : CStr} {w w' : Worker} (hf : f n = some w)
    (h : w.updateConn (env pids base n now creatable) i = .ok w') :
    step pids base f (.pass n i now creatable) = .ok (Function.update f n (some w')) := by
  simp [step, apply, hf, h, Except.toOption]

theorem run_passes {n : ℕ} {now : Timeval} {creatable : CStr → Bool} {pids : ℕ → ℤ} {base : CStr}
    {is : List ℕ} {f : Fleet} {w w' : Worker} (hf : f n = some w)
    (h : run (Worker.updateConn (env pids base n now creatable)) w is = .ok w') :
    run (step pids base) f (is.map fun i => .pass n i now creatable) =
      .ok (Function.update f n (some w')) := by
  induction is generalizing f w with
  | nil =>
      cases h
      rw [Function.update_eq_self_iff.mpr hf.symm]
      rfl
  | cons i is ih =>
      obtain ⟨w₁, hw₁, hrest⟩ := bind_eq_ok.mp h
      rw [List.map_cons, run_cons_ok (step_pass hf hw₁), ih (by simp) hrest, Function.update_idem]

/-- A turn of a worker's loop is its moves, one after the other. -/
theorem run_turn {n : ℕ} {k : Kernel} {now : Timeval} {creatable : CStr → Bool} {pids : ℕ → ℤ}
    {base : CStr} {f : Fleet} {w w' : Worker} (hf : f n = some w)
    (h : w.turn (k, env pids base n now creatable) = .ok w') :
    run (step pids base) f
        (.connUpdate n k :: (List.range connSize).map fun i => .pass n i now creatable) =
      .ok (Function.update f n (some w')) := by
  obtain ⟨w₁, hconn, hrest⟩ := bind_eq_ok.mp h
  have hstep : step pids base f (.connUpdate n k) = .ok (Function.update f n (some w₁)) := by
    simp [step, apply, hf, hconn, Except.toOption]
  rw [run_cons_ok hstep, run_passes (by simp) hrest, Function.update_idem]

def boot (count listener : ℕ) : Fleet :=
  fun n => if n < count then some (Server.boot listener) else none

def connection (f : Fleet) (n i : ℕ) : Option Session :=
  match f n with
  | none => none
  | some w =>
      match w.connections i with
      | .live s => some s
      | _ => none

end Fleet

structure Save where
  worker : ℕ
  timestamp : ℤ
  username : CStr
  domain : CStr
  file : CStr
  deriving DecidableEq

namespace Fleet

def saves (pids : ℕ → ℤ) (base : CStr) (f : Fleet) (m : Move) (_ : Fleet) : List Save :=
  match m with
  | .connUpdate _ _ => []
  | .pass n i now creatable =>
      let e := env pids base n now creatable
      match f.connection n i with
      | none => []
      | some s =>
          match Server.protocolUpdate e s, s.letter with
          | .ok s', .live letter => (s'.files.drop s.files.length).map fun file =>
              ⟨n, e.timestamp, letter.rcptUsername, letter.rcptDomain, file.1⟩
          | _, _ => []

end Fleet

/-! ### Names -/

def Save.stem (pids : ℕ → ℤ) (x : Save) : CStr :=
  decimal (pids x.worker) ++ '.' :: (decimal x.timestamp ++ '.' :: x.domain)

def Save.path (pids : ℕ → ℤ) (base : CStr) (x : Save) : CStr :=
  base ++ ['/'] ++ (x.username ++ ("/new/".toList ++ x.stem pids)) ++ ".mbox".toList

/-- One worker saves for one recipient in one millisecond. -/
structure Save.Same (x y : Save) : Prop where
  worker : x.worker = y.worker
  timestamp : x.timestamp = y.timestamp
  username : x.username = y.username
  domain : x.domain = y.domain

/-- The username of `y` goes on into the directory of `x` and into the name of
its file, and the domain of `x` goes on with the path of `y`. -/
def Save.Spells (pids : ℕ → ℤ) (x y : Save) : Prop :=
  ∃ w, y.username = x.username ++ ("/new/".toList ++ w) ∧
    x.stem pids = w ++ ("/new/".toList ++ y.stem pids)

def Save.Meets (pids : ℕ → ℤ) (x y : Save) : Prop :=
  x.Same y ∨ x.Spells pids y ∨ y.Spells pids x

variable {pids : ℕ → ℤ} {base : CStr} {x y : Save}

theorem stem_inj (hpids : Function.Injective pids) (h : x.stem pids = y.stem pids) :
    x.worker = y.worker ∧ x.timestamp = y.timestamp ∧ x.domain = y.domain := by
  have hdot : ∀ n : ℤ, '.' ∉ decimal n := notMem_decimal (by decide) (by decide)
  obtain ⟨hworker, h⟩ := append_delim_inj (hdot _) (hdot _) h
  obtain ⟨hstamp, hdomain⟩ := append_delim_inj (hdot _) (hdot _) h
  exact ⟨hpids (decimal_injective hworker), decimal_injective hstamp, hdomain⟩

/-- A stem starts with a number. -/
theorem stem_ne (pids : ℕ → ℤ) (x : Save) (rest : CStr) : x.stem pids ≠ 'n' :: rest := by
  intro h
  have hmem : 'n' ∈ decimal (pids x.worker) := by
    obtain ⟨c, cs, hc⟩ := List.exists_cons_of_ne_nil (decimal_ne_nil (pids x.worker))
    rw [Save.stem, hc] at h
    simp [hc, (List.cons.inj h).1]
  exact notMem_decimal (by decide) (by decide) _ hmem

/-- What stands between two users' directories is nothing, or a directory and
a name. -/
theorem split_new {z p p' : CStr} (hp : ∀ rest, p ≠ 'n' :: rest)
    (h : "/new/".toList ++ p = z ++ ("/new/".toList ++ p')) :
    (z = [] ∧ p = p') ∨ ∃ w, z = "/new/".toList ++ w ∧ p = w ++ ("/new/".toList ++ p') := by
  have hnew : "/new/".toList = ['/', 'n', 'e', 'w', '/'] := rfl
  rw [hnew] at h ⊢
  rcases z with - | ⟨c₁, - | ⟨c₂, - | ⟨c₃, - | ⟨c₄, - | ⟨c₅, w⟩⟩⟩⟩⟩ <;> simp at h
  · exact .inl ⟨rfl, h⟩
  · exact absurd h.2.2.2.2 (hp _)
  · obtain ⟨rfl, rfl, rfl, rfl, rfl, hw⟩ := h
    exact .inr ⟨w, rfl, by simpa using hw⟩

theorem path_eq_iff (hpids : Function.Injective pids) :
    x.path pids base = y.path pids base ↔ x.Meets pids y := by
  have hpath : x.path pids base = y.path pids base ↔
      x.username ++ ("/new/".toList ++ x.stem pids) =
        y.username ++ ("/new/".toList ++ y.stem pids) := by
    rw [Save.path, Save.path, List.append_cancel_right_eq, List.append_cancel_left_eq]
  rw [hpath]
  constructor
  · intro h
    rcases List.append_eq_append_iff.mp h with ⟨z, huser, hrest⟩ | ⟨z, huser, hrest⟩
    · rcases split_new (stem_ne pids x) hrest with ⟨rfl, hstem⟩ | ⟨w, rfl, hstem⟩
      · obtain ⟨hworker, hstamp, hdomain⟩ := stem_inj hpids hstem
        exact .inl ⟨hworker, hstamp, by simpa using huser.symm, hdomain⟩
      · exact .inr (.inl ⟨w, huser, hstem⟩)
    · rcases split_new (stem_ne pids y) hrest with ⟨rfl, hstem⟩ | ⟨w, rfl, hstem⟩
      · obtain ⟨hworker, hstamp, hdomain⟩ := stem_inj hpids hstem
        exact .inl ⟨hworker.symm, hstamp.symm, by simpa using huser, hdomain.symm⟩
      · exact .inr (.inr ⟨w, huser, hstem⟩)
  · rintro (⟨hworker, hstamp, huser, hdomain⟩ | ⟨w, huser, hstem⟩ | ⟨w, huser, hstem⟩)
    · simp [Save.stem, hworker, hstamp, huser, hdomain]
    · rw [huser, hstem]
      simp
    · rw [huser, hstem]
      simp

namespace Fleet

variable {f f' : Fleet} {n i : ℕ} {now : Timeval} {creatable : CStr → Bool} {h : List Save}

def saved (n : ℕ) (e : Env) (letter : Letter) : Save :=
  ⟨n, e.timestamp, letter.rcptUsername, letter.rcptDomain, letter.filename e⟩

theorem file_saved (pids : ℕ → ℤ) (base : CStr) (n : ℕ) (now : Timeval)
    (creatable : CStr → Bool) (letter : Letter) :
    (saved n (env pids base n now creatable) letter).file =
      (saved n (env pids base n now creatable) letter).path pids base := by
  simp [saved, Save.path, Save.stem, Letter.filename, maildirGetFname_eq, letterName, env]

theorem saves_of_saving {letter : Letter} (hconn : f.connection n i = some s)
    (hsaving : Saving (env pids base n now creatable) s letter) :
    saves pids base f (.pass n i now creatable) f' =
      [saved n (env pids base n now creatable) letter] := by
  obtain ⟨s', text, hok, hfiles⟩ := hsaving.saves
  simp only [saves, hconn, hok, hsaving.live, hfiles, List.drop_left]
  rfl

theorem saves_of_not_saving
    (hnot : ∀ s letter, f.connection n i = some s →
      ¬Saving (env pids base n now creatable) s letter) :
    saves pids base f (.pass n i now creatable) f' = [] := by
  unfold saves
  dsimp only
  cases hconn : f.connection n i with
  | none => rfl
  | some s =>
      cases hok : Server.protocolUpdate (env pids base n now creatable) s with
      | error halt => simp [hok]
      | ok s' =>
          rcases protocolUpdate_files hok with hfiles | ⟨letter, text, hsaving, -⟩
          · cases hlive : s.letter <;> simp [hok, hlive, hfiles]
          · exact absurd hsaving (hnot s letter hconn)

def Distinct (pids : ℕ → ℤ) (base : CStr) (c : Fleet × List Save) : Move → Prop
  | .connUpdate _ _ => True
  | .pass n i now creatable => ∀ s letter, c.1.connection n i = some s →
      Saving (env pids base n now creatable) s letter →
        ∀ x ∈ c.2, ¬x.Meets pids (saved n (env pids base n now creatable) letter)

def Separate (c : Fleet × List Save) : Prop := (c.2.map Save.file).Nodup

theorem separate_saved (hpids : Function.Injective pids)
    (hnamed : ∀ x ∈ h, x.file = x.path pids base) (hsep : Separate (f, h))
    (hy : y.file = y.path pids base) :
    Separate (f', h ++ [y]) ↔ ∀ x ∈ h, ¬x.Meets pids y := by
  have hmeets : ∀ x ∈ h, x.file = y.file ↔ x.Meets pids y := fun x hx => by
    rw [hnamed x hx, hy, path_eq_iff hpids]
  simp only [Separate, List.map_append, List.map_singleton] at hsep ⊢
  rw [List.nodup_append]
  simp only [hsep, true_and, List.nodup_singleton, List.mem_map, List.mem_singleton,
    forall_eq, forall_exists_index, and_imp, forall_apply_eq_imp_iff₂]
  exact forall₂_congr fun x hx => not_congr (hmeets x hx)

/-- Every letter of every worker gets a file of its own, in every state of a
run, exactly if each move that saves one comes in another millisecond than the
letters of this worker for this recipient, and no username spells the path of
another letter. -/
theorem separate_iff (hpids : Function.Injective pids) (base : CStr) (count listener : ℕ)
    (moves : List Move) :
    Always (logged (step pids base) (saves pids base)) Separate (boot count listener, []) moves ↔
      Guarded (logged (step pids base) (saves pids base)) (Distinct pids base)
        (boot count listener, []) moves := by
  have hkept : ∀ (f f' : Fleet) (h : List Save) (m : Move),
      (∀ x ∈ h, x.file = x.path pids base) → Separate (f, h) →
        (∀ x ∈ h ++ saves pids base f m f', x.file = x.path pids base) ∧
          (Separate (f', h ++ saves pids base f m f') ↔ Distinct pids base (f, h) m) := by
    intro f f' h m hnamed hsep
    cases m with
    | connUpdate n k =>
        have hnone : h ++ saves pids base f (.connUpdate n k) f' = h := List.append_nil h
        rw [hnone]
        exact ⟨hnamed, iff_of_true hsep trivial⟩
    | pass n i now creatable =>
        by_cases hsaves : ∃ s letter, f.connection n i = some s ∧
            Saving (env pids base n now creatable) s letter
        · obtain ⟨s, letter, hconn, hsaving⟩ := hsaves
          have hfile := file_saved pids base n now creatable letter
          rw [saves_of_saving hconn hsaving]
          refine ⟨List.forall_mem_append.mpr ⟨hnamed, by simpa using hfile⟩, ?_⟩
          rw [separate_saved hpids hnamed hsep hfile]
          constructor
          · intro hmeets s₁ letter₁ hconn₁ hsaving₁
            obtain rfl : s = s₁ := Option.some.inj (hconn.symm.trans hconn₁)
            obtain rfl : letter = letter₁ :=
              LetterPtr.live.inj (hsaving.live.symm.trans hsaving₁.live)
            exact hmeets
          · exact fun hdistinct => hdistinct s letter hconn hsaving
        · push Not at hsaves
          rw [saves_of_not_saving hsaves, List.append_nil]
          exact ⟨hnamed, iff_of_true hsep fun s letter hconn hsaving =>
            absurd hsaving (hsaves s letter hconn)⟩
  refine always_iff_guarded (I := fun c => ∀ x ∈ c.2, x.file = x.path pids base)
    (fun c m c' hnamed hsep hok => ?_) (fun c m c' hnamed hsep hok => ?_) (by simp)
    List.nodup_nil
  · rw [(logged_eq_ok.mp hok).2]
    exact (hkept c.1 c'.1 c.2 m hnamed hsep).1
  · obtain ⟨f', h'⟩ := c'
    obtain rfl : h' = c.2 ++ saves pids base c.1 m f' := (logged_eq_ok.mp hok).2
    exact (hkept c.1 f' c.2 m hnamed hsep).2

def sampleMoves : List Move :=
  .connUpdate 0 Worker.acceptsFour :: .pass 0 4 ⟨0, 0⟩ (fun _ => true) ::
    ["HELO c\r\n", "MAIL FROM:<a@b.c>\r\n", "RCPT TO:<d@e.f>\r\n", "DATA\r\n", ".\r\n",
      "MAIL FROM:<a@b.c>\r\n", "RCPT TO:<d@e.f>\r\n", "DATA\r\n", ".\r\n"].flatMap fun line =>
        [.connUpdate 0 (Worker.receivesOnFour (.bytes line.toList)),
          .pass 0 4 ⟨0, 0⟩ fun _ => true]

def samplePids (n : ℕ) : ℤ := 7 + n

theorem run_sampleMoves : ∃ c, run (logged (step samplePids "maildir/local".toList)
      (saves samplePids "maildir/local".toList)) (boot 1 3, []) sampleMoves = .ok c ∧
    ¬Separate c := by
  have hall : (run (logged (step samplePids "maildir/local".toList)
      (saves samplePids "maildir/local".toList)) (boot 1 3, []) sampleMoves >>= fun c =>
        .ok (c.2.map Save.file)) =
      .ok (List.replicate 2 "maildir/local/d/new/7.0.e.f.mbox".toList) := by
    decide +kernel
  obtain ⟨c, hrun, hfiles⟩ := bind_eq_ok.mp hall
  refine ⟨c, hrun, fun hsep => ?_⟩
  rw [Separate, Except.ok.inj hfiles] at hsep
  exact absurd hsep (by decide)

theorem letters_joined : ¬Always (logged (step samplePids "maildir/local".toList)
    (saves samplePids "maildir/local".toList)) Separate (boot 1 3, []) sampleMoves := by
  intro h
  obtain ⟨c, hrun, hnot⟩ := run_sampleMoves
  exact hnot (h.last hrun)

/-- The moves break the condition as well. -/
theorem separate_iff_sample : ¬Guarded (logged (step samplePids "maildir/local".toList)
    (saves samplePids "maildir/local".toList)) (Distinct samplePids "maildir/local".toList)
      (boot 1 3, []) sampleMoves := by
  intro h
  obtain ⟨c, hrun, hnot⟩ := run_sampleMoves
  have hpids : Function.Injective samplePids := fun m n heq => by
    unfold samplePids at heq
    omega
  exact hnot (((separate_iff hpids "maildir/local".toList 1 3 sampleMoves).mpr h).last hrun)

end Fleet

end SmtpProj.Server
