import Mathlib.Data.List.DropRight
import SmtpProj.Lib.Tree
import SmtpProj.Server.Maildir

/-!
The mail directory on the disk (`maildir.c` and the end of `process_data_end`).

The workers share one directory tree, and what they ask of the kernel comes in
any order: a save is a list of calls, and calls of other workers may come
between them. Every call leaves the tree as it is or makes it grow.

The names in the tree are subtypes of texts: a name is not empty, not dots, and
has no slash. A path is walked through the tree component by component, and
the last component need not be there.
-/

namespace SmtpProj.Server

open Lib

/-! ### Names and paths -/

def ProperName (text : CStr) : Prop := Place.isName text = true ∧ '/' ∉ text

instance : DecidablePred ProperName := fun _ => inferInstanceAs (Decidable (_ ∧ _))

abbrev Name := { text : CStr // ProperName text }

def component (text : CStr) : Component Name :=
  if text = "..".toList then .up
  else if h : ProperName text then .down ⟨text, h⟩
  else .stay

def components (path : CStr) : List (Component Name) := (path.splitOn '/').map component

theorem components_append (front rest : CStr) :
    components (front ++ '/' :: rest) = components front ++ components rest := by
  simp [components, List.splitOn_append_cons_self]

@[simp] theorem component_name (n : Name) : component n.1 = .down n := by
  obtain ⟨text, h⟩ := n
  have hne : text ≠ "..".toList := by
    rintro rfl
    exact absurd h.1 (by decide)
  rw [component, if_neg hne, dif_pos h]

@[simp] theorem components_name (n : Name) : components n.1 = [.down n] := by
  rw [components, List.splitOn_eq_singleton n.2.2, List.map_cons, component_name, List.map_nil]

/-! ### The disk -/

structure Disk where
  tree : Tree Name Char
  cwd : List Name
  allows : List Name → Bool

namespace Disk

def locate (d : Disk) (path : CStr) : Option (List Name) :=
  if path = [] then none
  else d.tree.walk (if path.head? = some '/' then [] else d.cwd) (components path)

/-- `mkdir`, which passes over the slashes at the end of a path. -/
def mkdir (d : Disk) (dir : CStr) : Option Disk :=
  match d.locate (dir.rdropWhile (· == '/')) with
  | some place =>
      if d.allows place = true then (d.tree.mkdir place).map fun t => { d with tree := t } else none
  | none => none

/-- `ensure_dir`; it gives -1 where this gives nothing. Whatever is there will do. -/
def ensureDir (d : Disk) (dir : CStr) : Option Disk :=
  if ((d.locate dir).bind d.tree.node).isSome = true then some d else d.mkdir dir

def append (d : Disk) (path data : CStr) : Option Disk :=
  match d.locate path with
  | some place =>
      if d.allows place = true then
        (d.tree.append data place).map fun t => { d with tree := t }
      else none
  | none => none

end Disk

inductive Call
  | ensure (dir : CStr)
  | append (path data : CStr)
  deriving DecidableEq

def Letter.calls (e : Env) (letter : Letter) : List Call :=
  (maildirEnsureUser e letter.rcptUsername).map .ensure ++
    [.append (letter.filename e) letter.text]

namespace Disk

def attempt (d : Disk) : Call → Option Disk
  | .ensure dir => d.ensureDir dir
  | .append path data => d.append path data

def step (d : Disk) (c : Call) : Except Empty Disk := .ok ((d.attempt c).getD d)

def serve : Disk × List Call → Call → Except Empty (Disk × List Call) :=
  logged step fun d c _ => if (d.attempt c).isSome = true then [c] else []

/-- `maildir_init`: the result is only looked at for the directories below. -/
def maildirInit (maildir : CStr) (d : Disk) : Option Disk := do
  let d ← ((d.ensureDir maildir).getD d).ensureDir (maildirLocal maildir)
  d.ensureDir (maildir ++ ['/'] ++ "remote".toList)

structure Based (d : Disk) (usrLocal : CStr) (base : List Name) : Prop where
  located : d.locate usrLocal = some base
  dir : d.tree.isDir base = true

variable {d d' : Disk} {usrLocal path data dir : CStr} {base place : List Name} {c : Call}

/-! ### Calls -/

theorem locate_append {front : CStr} (hfront : front ≠ []) (rest : CStr) :
    d.locate (front ++ '/' :: rest) =
      (d.locate front).bind fun place => d.tree.walk place (components rest) := by
  rw [locate, locate, if_neg (by simp), if_neg hfront, List.head?_append_of_ne_nil _ hfront,
    components_append, Tree.walk_append]

theorem mkdir_eq_some (h : d.mkdir dir = some d') :
    ∃ place t, d.locate (dir.rdropWhile (· == '/')) = some place ∧ d.allows place = true ∧
      d.tree.mkdir place = some t ∧ d' = { d with tree := t } := by
  unfold mkdir at h
  cases hplace : d.locate (dir.rdropWhile (· == '/')) with
  | none => simp [hplace] at h
  | some place =>
      simp only [hplace] at h
      split_ifs at h with hallows
      obtain ⟨t, ht, rfl⟩ := Option.map_eq_some_iff.mp h
      exact ⟨place, t, rfl, hallows, ht, rfl⟩

theorem ensureDir_eq_some (h : d.ensureDir dir = some d') :
    d' = d ∨ d.mkdir dir = some d' := by
  unfold ensureDir at h
  split_ifs at h
  · exact .inl (Option.some.inj h).symm
  · exact .inr h

theorem append_eq_some (h : d.append path data = some d') :
    ∃ place t, d.locate path = some place ∧ d.allows place = true ∧
      d.tree.append data place = some t ∧ d' = { d with tree := t } := by
  unfold append at h
  cases hplace : d.locate path with
  | none => simp [hplace] at h
  | some place =>
      simp only [hplace] at h
      split_ifs at h with hallows
      obtain ⟨t, ht, rfl⟩ := Option.map_eq_some_iff.mp h
      exact ⟨place, t, rfl, hallows, ht, rfl⟩

structure Grows (d d' : Disk) : Prop where
  tree : d.tree.Grows d'.tree
  cwd : d'.cwd = d.cwd
  allows : d'.allows = d.allows

theorem Grows.refl (d : Disk) : d.Grows d := ⟨.refl _, rfl, rfl⟩

theorem attempt_grows (h : d.attempt c = some d') : d.Grows d' := by
  cases c with
  | ensure dir =>
      rcases ensureDir_eq_some h with rfl | h
      · exact .refl _
      · obtain ⟨place, t, -, -, ht, rfl⟩ := mkdir_eq_some h
        exact ⟨Tree.mkdir_grows ht, rfl, rfl⟩
  | append path data =>
      obtain ⟨place, t, -, -, ht, rfl⟩ := append_eq_some h
      exact ⟨Tree.append_grows ht, rfl, rfl⟩

theorem Grows.locate (h : d.Grows d') (hplace : d.locate path = some place) :
    d'.locate path = some place := by
  unfold Disk.locate at hplace ⊢
  rw [h.cwd]
  split_ifs at hplace ⊢ <;> exact h.tree.walk hplace

theorem Grows.based (h : d.Grows d') (hbase : d.Based usrLocal base) : d'.Based usrLocal base :=
  ⟨h.locate hbase.located, h.tree.dir hbase.dir⟩

theorem Based.ne_nil (h : d.Based usrLocal base) : usrLocal ≠ [] := by
  rintro rfl
  cases h.located

/-! ### Plain letters -/

def newDir : Name := ⟨"new".toList, by decide⟩

def curDir : Name := ⟨"cur".toList, by decide⟩

def tmpDir : Name := ⟨"tmp".toList, by decide⟩

def letterPath (usrLocal : CStr) (user name : Name) : CStr :=
  usrLocal ++ '/' :: (user.1 ++ '/' :: (newDir.1 ++ '/' :: name.1))

def letterPlace (base : List Name) (user name : Name) : List Name := name :: newDir :: user :: base

variable {user name : Name}

theorem Based.locate_user (h : d.Based usrLocal base) (user : Name) :
    d.locate (usrLocal ++ '/' :: user.1) = some (user :: base) := by
  rw [locate_append h.ne_nil, h.located, Option.bind_some, components_name,
    Tree.walk_down h.dir]

theorem Based.locate_sub (h : d.Based usrLocal base) (user sub : Name) :
    d.locate (usrLocal ++ '/' :: user.1 ++ '/' :: sub.1) =
      if d.tree.isDir (user :: base) = true then some (sub :: user :: base) else none := by
  rw [locate_append (by simp), h.locate_user, Option.bind_some, components_name]
  rfl

theorem Based.locate_letter (h : d.Based usrLocal base) (user name : Name) :
    d.locate (letterPath usrLocal user name) =
      if d.tree.isDir (user :: base) = true ∧ d.tree.isDir (newDir :: user :: base) = true then
        some (letterPlace base user name)
      else none := by
  have hpath : letterPath usrLocal user name =
      (usrLocal ++ '/' :: user.1 ++ '/' :: newDir.1) ++ '/' :: name.1 := by
    simp [letterPath]
  rw [hpath, locate_append (by simp), h.locate_sub]
  by_cases huser : d.tree.isDir (user :: base) = true
  · rw [if_pos huser, Option.bind_some, components_name]
    simp only [huser, true_and]
    rfl
  · rw [if_neg huser, if_neg fun h => huser h.1]
    rfl

inductive Plain (usrLocal : CStr) : Call → Prop
  | user (user : Name) : Plain usrLocal (.ensure (usrLocal ++ '/' :: user.1))
  | sub (user sub : Name) : Plain usrLocal (.ensure (usrLocal ++ '/' :: user.1 ++ '/' :: sub.1))
  | letter (user name : Name) (data : CStr) :
      Plain usrLocal (.append (letterPath usrLocal user name) data)

def letterEntry (e : Env) (domain : CStr) (hdomain : '/' ∉ domain) : Name :=
  ⟨letterName e domain, isName_letterName e domain, slash_notMem_letterName hdomain⟩

theorem filename_eq {e : Env} {letter : Letter} (huser : letter.rcptUsername = user.1)
    (hdomain : '/' ∉ letter.rcptDomain) :
    letter.filename e = letterPath e.usrLocal user (letterEntry e letter.rcptDomain hdomain) := by
  rw [Letter.filename, maildirGetFname_eq, huser]
  rfl

theorem maildirEnsureUser_eq (e : Env) (user : Name) :
    maildirEnsureUser e user.1 = [e.usrLocal ++ '/' :: user.1,
      e.usrLocal ++ '/' :: user.1 ++ '/' :: newDir.1,
      e.usrLocal ++ '/' :: user.1 ++ '/' :: curDir.1,
      e.usrLocal ++ '/' :: user.1 ++ '/' :: tmpDir.1] := by
  rw [maildirEnsureUser, List.append_assoc, List.singleton_append]
  rfl

theorem plain_of_mem_calls {e : Env} {letter : Letter} (huser : letter.rcptUsername = user.1)
    (hdomain : '/' ∉ letter.rcptDomain) (hc : c ∈ letter.calls e) : Plain e.usrLocal c := by
  rw [Letter.calls, List.mem_append, List.mem_singleton, filename_eq huser hdomain] at hc
  rcases hc with hc | rfl
  · obtain ⟨dir, hdir, rfl⟩ := List.mem_map.mp hc
    rw [huser, maildirEnsureUser_eq] at hdir
    simp only [List.mem_cons, List.not_mem_nil, or_false] at hdir
    rcases hdir with rfl | rfl | rfl | rfl
    · exact .user user
    · exact .sub user newDir
    · exact .sub user curDir
    · exact .sub user tmpDir
  · exact .letter user _ _

theorem letterPath_inj {user' name' : Name}
    (h : letterPath usrLocal user name = letterPath usrLocal user' name') :
    user = user' ∧ name = name' := by
  have hpieces := congrArg (List.splitOn '/') (List.cons.inj (List.append_cancel_left h)).2
  simp only [List.splitOn_append_cons_self_of_not_mem user.2.2,
    List.splitOn_append_cons_self_of_not_mem user'.2.2,
    List.splitOn_append_cons_self_of_not_mem newDir.2.2, List.splitOn_eq_singleton name.2.2,
    List.splitOn_eq_singleton name'.2.2, List.cons.injEq, true_and, and_true] at hpieces
  exact ⟨Subtype.ext hpieces.1, Subtype.ext hpieces.2⟩

theorem rdropWhile_name (front : CStr) (name : Name) :
    (front ++ '/' :: name.1).rdropWhile (· == '/') = front ++ '/' :: name.1 := by
  have hne : name.1 ≠ [] := by
    intro hnil
    have hname := name.2.1
    rw [hnil] at hname
    exact absurd hname (by decide)
  refine List.rdropWhile_eq_self_iff.mpr fun hl hlast => ?_
  rw [List.getLast_append_of_ne_nil _ (List.cons_ne_nil _ _), List.getLast_cons hne] at hlast
  have hmem := List.getLast_mem hne
  rw [beq_iff_eq.mp hlast] at hmem
  exact name.2.2 hmem

/-- The places that plain calls make are not too deep. -/
theorem Plain.place_length (hc : Plain usrLocal (.ensure dir)) (hbase : d.Based usrLocal base)
    (hplace : d.locate (dir.rdropWhile (· == '/')) = some place) :
    place.length < base.length + 3 := by
  generalize hcall : Call.ensure dir = call at hc
  cases hc with
  | user u =>
      cases hcall
      rw [rdropWhile_name, hbase.locate_user] at hplace
      cases hplace
      simp
  | sub u sub =>
      cases hcall
      rw [rdropWhile_name, hbase.locate_sub] at hplace
      split_ifs at hplace
      cases hplace
      simp
  | letter => cases hcall

theorem Plain.ensure_node (hc : Plain usrLocal (.ensure dir)) (hbase : d.Based usrLocal base)
    (h : d.ensureDir dir = some d') (user name : Name) :
    d'.tree.node (letterPlace base user name) = d.tree.node (letterPlace base user name) := by
  rcases ensureDir_eq_some h with rfl | h
  · rfl
  obtain ⟨place, t, hplace, -, ht, rfl⟩ := mkdir_eq_some h
  have hlen : place.length < base.length + 3 := hc.place_length hbase hplace
  refine (Tree.mkdir_eq_some ht).2 _ |>.trans (if_neg fun heq => ?_)
  rw [← heq] at hlen
  simp [letterPlace] at hlen

/-- Appending to an entry changes this entry. -/
theorem append_node (hbase : d.Based usrLocal base) {u n : Name}
    (h : d.append (letterPath usrLocal u n) data = some d') (user name : Name) :
    d'.tree.node (letterPlace base user name) =
      if letterPath usrLocal u n = letterPath usrLocal user name then
        some (.file (d.tree.read (letterPlace base user name) ++ data))
      else d.tree.node (letterPlace base user name) := by
  obtain ⟨place, t, hplace, -, ht, rfl⟩ := append_eq_some h
  rw [hbase.locate_letter] at hplace
  split_ifs at hplace
  cases hplace
  rw [(Tree.append_eq_some ht).2.2]
  by_cases hsame : letterPath usrLocal u n = letterPath usrLocal user name
  · obtain ⟨rfl, rfl⟩ := letterPath_inj hsame
    rw [if_pos rfl, if_pos rfl]
  · have hne : letterPlace base user name ≠ letterPlace base u n := by
      intro heq
      simp only [letterPlace, List.cons.injEq, true_and] at heq
      exact hsame (by rw [heq.1, heq.2.1])
    rw [if_neg hne, if_neg hsame]

/-! ### Runs -/

def appended (path : CStr) (done : List Call) : List CStr :=
  done.filterMap fun
    | .append p data => if p = path then some data else none
    | .ensure _ => none

theorem mem_appended {done : List Call} :
    data ∈ appended path done ↔ .append path data ∈ done := by
  unfold appended
  rw [List.mem_filterMap]
  constructor
  · rintro ⟨_ | ⟨p, t⟩, hc, heq⟩
    · cases heq
    · dsimp only at heq
      split_ifs at heq with hp
      cases heq
      exact hp ▸ hc
  · exact fun h => ⟨_, h, if_pos rfl⟩

/-- Every entry of a letter is what it was, and behind it what was appended. -/
def Collects (d : Disk) (usrLocal : CStr) (base : List Name) (d' : Disk) (done : List Call) :
    Prop :=
  ∀ user name, d'.tree.node (letterPlace base user name) =
    if appended (letterPath usrLocal user name) done = [] then
      d.tree.node (letterPlace base user name)
    else some (.file (d.tree.read (letterPlace base user name) ++
      (appended (letterPath usrLocal user name) done).flatten))

theorem serve_eq_ok {done done' : List Call} (h : serve (d, done) c = .ok (d', done')) :
    (d.attempt c = none ∧ d' = d ∧ done' = done) ∨
      (d.attempt c = some d' ∧ done' = done ++ [c]) := by
  obtain ⟨hstep, hlog⟩ := logged_eq_ok.mp h
  have hstep := Except.ok.inj hstep
  dsimp only at hstep hlog
  cases hattempt : d.attempt c with
  | none =>
      rw [hattempt] at hstep hlog
      exact .inl ⟨rfl, hstep.symm, by simpa using hlog⟩
  | some d₁ =>
      rw [hattempt] at hstep hlog
      obtain rfl : d₁ = d' := hstep
      exact .inr ⟨rfl, by simpa using hlog⟩

theorem serve_grows {done done' : List Call} (h : serve (d, done) c = .ok (d', done')) :
    d.Grows d' := by
  rcases serve_eq_ok h with ⟨-, rfl, -⟩ | ⟨hattempt, -⟩
  · exact .refl _
  · exact attempt_grows hattempt

theorem Grows.trans {d₁ : Disk} (h : d.Grows d₁) (h' : d₁.Grows d') : d.Grows d' :=
  ⟨h.tree.trans h'.tree, h'.cwd.trans h.cwd, h'.allows.trans h.allows⟩

theorem run_grows {calls done done' : List Call}
    (h : run serve (d, done) calls = .ok (d', done')) : d.Grows d' :=
  run_invariant (P := fun x => d.Grows x.1) (fun _ _ _ hx _ hok => hx.trans (serve_grows hok))
    (.refl d) (guarded_true _ calls) h

theorem appended_concat (path : CStr) (done : List Call) (c : Call) :
    appended path (done ++ [c]) = appended path done ++ appended path [c] :=
  List.filterMap_append

theorem Collects.read {done : List Call} (h : Collects d usrLocal base d' done)
    (user name : Name) : d'.tree.read (letterPlace base user name) =
      d.tree.read (letterPlace base user name) ++
        (appended (letterPath usrLocal user name) done).flatten := by
  have hnode := h user name
  split_ifs at hnode with hnil
  · rw [Tree.read, hnode, hnil, List.flatten_nil, List.append_nil]
    rfl
  · rw [Tree.read, hnode]

theorem Collects.serve {d₀ : Disk} {done done' : List Call}
    (h : Collects d₀ usrLocal base d done) (hbase : d.Based usrLocal base)
    (hc : Plain usrLocal c) (hok : Disk.serve (d, done) c = .ok (d', done')) :
    Collects d₀ usrLocal base d' done' := by
  rcases serve_eq_ok hok with ⟨-, rfl, rfl⟩ | ⟨hattempt, rfl⟩
  · exact h
  intro user name
  rw [appended_concat]
  cases c with
  | ensure dir =>
      rw [hc.ensure_node hbase hattempt, h user name]
      simp [appended]
  | append path data =>
      generalize hcall : Call.append path data = call at hc
      cases hc with
      | user | sub => cases hcall
      | letter u n data' =>
          cases hcall
          rw [append_node hbase hattempt, h.read]
          by_cases hsame : letterPath usrLocal u n = letterPath usrLocal user name
          · simp [appended, hsame]
          · rw [if_neg hsame, h user name]
            simp [appended, hsame]

/-- Whatever the order of the calls: an entry of a letter holds what it held, and
behind it the letters whose calls succeeded, in their order. -/
theorem collects_of_run {calls done : List Call} (hbase : d.Based usrLocal base)
    (hcalls : ∀ c ∈ calls, Plain usrLocal c) (hrun : run serve (d, []) calls = .ok (d', done)) :
    Collects d usrLocal base d' done := by
  have hstart : Collects d usrLocal base d [] := fun user name => by simp [appended]
  refine (run_invariant_of_mem (P := fun x => x.1.Based usrLocal base ∧
    Collects d usrLocal base x.1 x.2) (G := fun _ _ => True) ?_ ⟨hbase, hstart⟩
    (guarded_true _ calls) hrun).2
  rintro ⟨d₁, done₁⟩ c hc ⟨d₂, done₂⟩ ⟨hbase₁, hcollects⟩ - hok
  exact ⟨(serve_grows hok).based hbase₁, hcollects.serve hbase₁ (hcalls c hc) hok⟩

/-! ### Spools -/

/-- The directory holds mailboxes: what has to be a directory is one, and the
letters are none. The kernel lets everything be made. -/
structure Sound (d : Disk) (base : List Name) : Prop where
  user : ∀ user, d.tree.node (user :: base) ≠ none → d.tree.isDir (user :: base) = true
  new : ∀ user, d.tree.node (newDir :: user :: base) ≠ none →
    d.tree.isDir (newDir :: user :: base) = true
  letter : ∀ user name, d.tree.isDir (letterPlace base user name) = false
  allows : ∀ place, d.allows place = true

theorem Sound.of_mkdir {t : Tree Name Char} (h : d.Sound base) (ht : d.tree.mkdir place = some t)
    (hlen : place.length < base.length + 3) : Sound { d with tree := t } base := by
  have hgrows := Tree.mkdir_grows ht
  have hnode := (Tree.mkdir_eq_some ht).2
  have hdir : ∀ q, (d.tree.node q ≠ none → d.tree.isDir q = true) → t.node q ≠ none →
      t.isDir q = true := by
    intro q hq hne
    rw [hnode] at hne
    by_cases heq : q = place
    · rw [Tree.isDir_iff, hnode, if_pos heq]
    · rw [if_neg heq] at hne
      exact hgrows.dir (hq hne)
  refine ⟨fun user => hdir _ (h.user user), fun user => hdir _ (h.new user), ?_, h.allows⟩
  intro user name
  have hne : letterPlace base user name ≠ place := by
    rintro rfl
    simp [letterPlace] at hlen
  rw [← h.letter user name]
  simp only [Tree.isDir, hnode, if_neg hne]

theorem Sound.of_append {t : Tree Name Char} {u n : Name} (h : d.Sound base)
    (ht : d.tree.append data (letterPlace base u n) = some t) :
    Sound { d with tree := t } base := by
  obtain ⟨hno, -, hnode⟩ := Tree.append_eq_some ht
  have hkeep : ∀ q, q.length < base.length + 3 → t.node q = d.tree.node q := by
    intro q hq
    refine (hnode q).trans (if_neg fun heq => ?_)
    rw [heq] at hq
    simp [letterPlace] at hq
  have hdir : ∀ q, q.length < base.length + 3 → (d.tree.node q ≠ none → d.tree.isDir q = true) →
      t.node q ≠ none → t.isDir q = true := by
    intro q hq hold hne
    rw [hkeep q hq] at hne
    rw [Tree.isDir_iff, hkeep q hq]
    exact Tree.isDir_iff.mp (hold hne)
  refine ⟨fun user => hdir _ (by simp) (h.user user), fun user => hdir _ (by simp) (h.new user),
    fun user name => ?_, h.allows⟩
  by_cases heq : letterPlace base user name = letterPlace base u n
  · simp [Tree.isDir, hnode, heq]
  · rw [← h.letter user name]
    simp only [Tree.isDir, hnode, if_neg heq]

theorem Sound.serve {done done' : List Call} (h : d.Sound base) (hbase : d.Based usrLocal base)
    (hc : Plain usrLocal c) (hok : Disk.serve (d, done) c = .ok (d', done')) :
    d'.Sound base := by
  rcases serve_eq_ok hok with ⟨-, rfl, -⟩ | ⟨hattempt, -⟩
  · exact h
  cases c with
  | ensure dir =>
      rcases ensureDir_eq_some hattempt with rfl | hmkdir
      · exact h
      · obtain ⟨place, t, hplace, -, ht, rfl⟩ := mkdir_eq_some hmkdir
        exact h.of_mkdir ht (hc.place_length hbase hplace)
  | append path data =>
      generalize hcall : Call.append path data = call at hc
      cases hc with
      | user | sub => cases hcall
      | letter u n data' =>
          cases hcall
          obtain ⟨place, t, hplace, -, ht, rfl⟩ := append_eq_some hattempt
          rw [hbase.locate_letter] at hplace
          split_ifs at hplace
          cases hplace
          exact h.of_append ht

theorem ensure_serves {done done' : List Call} (hplace : d.locate dir = some place)
    (htrim : dir.rdropWhile (· == '/') = dir) (hallows : d.allows place = true)
    (hparent : ∃ name rest, place = name :: rest ∧ d.tree.isDir rest = true)
    (hok : Disk.serve (d, done) (.ensure dir) = .ok (d', done')) :
    d'.tree.node place = some ((d.tree.node place).getD .dir) := by
  obtain ⟨name, rest, rfl, hrest⟩ := hparent
  cases hnode : d.tree.node (name :: rest) with
  | some x =>
      have hthere : d.attempt (.ensure dir) = some d := by
        simp [attempt, ensureDir, hplace, hnode]
      rcases serve_eq_ok hok with ⟨hfailed, -⟩ | ⟨hattempt, -⟩
      · cases hthere.symm.trans hfailed
      · cases hthere.symm.trans hattempt
        exact hnode
  | none =>
      have hmade : d.attempt (.ensure dir) =
          some { d with tree := d.tree.put name rest .dir } := by
        simp [attempt, ensureDir, mkdir, hplace, htrim, hallows, hnode, Tree.mkdir, hrest]
      rcases serve_eq_ok hok with ⟨hfailed, -⟩ | ⟨hattempt, -⟩
      · cases hmade.symm.trans hfailed
      · cases hmade.symm.trans hattempt
        have hno : d.tree.isDir (name :: rest) = false := by simp [Tree.isDir, hnode]
        rw [Tree.node_put hrest hno, if_pos rfl]
        rfl

/-- A directory that is asked for is there, if the one above it is. -/
theorem Sound.ensure {done done' : List Call} (h : d.Sound base)
    (hplace : d.locate dir = some place) (htrim : dir.rdropWhile (· == '/') = dir)
    (hdir : d.tree.node place ≠ none → d.tree.isDir place = true)
    (hparent : ∃ name rest, place = name :: rest ∧ d.tree.isDir rest = true)
    (hok : Disk.serve (d, done) (.ensure dir) = .ok (d', done')) :
    d'.tree.isDir place = true := by
  have hnode := ensure_serves hplace htrim (h.allows place) hparent hok
  rw [Tree.isDir_iff, hnode]
  cases hold : d.tree.node place with
  | none => rfl
  | some x => rw [Option.getD_some, ← hold, Tree.isDir_iff.mp (hdir (by simp [hold]))]

structure Ready (d : Disk) (usrLocal : CStr) (base : List Name) : Prop
    extends Based d usrLocal base, Sound d base

theorem Ready.of_run {calls done done' : List Call} (h : d.Ready usrLocal base)
    (hcalls : ∀ c ∈ calls, Plain usrLocal c)
    (hrun : run Disk.serve (d, done) calls = .ok (d', done')) : d'.Ready usrLocal base := by
  refine run_invariant_of_mem (P := fun x => x.1.Ready usrLocal base) (G := fun _ _ => True) ?_ h
    (guarded_true _ calls) hrun
  rintro ⟨d₁, done₁⟩ c hc ⟨d₂, done₂⟩ h₁ - hok
  exact ⟨(serve_grows hok).based h₁.toBased, h₁.toSound.serve h₁.toBased (hcalls c hc) hok⟩

theorem mem_done_of_run {calls done done' : List Call}
    (hrun : run Disk.serve (d, done) calls = .ok (d', done')) (hc : c ∈ done) : c ∈ done' := by
  refine run_invariant (P := fun x => c ∈ x.2) ?_ hc (guarded_true _ calls) hrun
  rintro ⟨d₁, done₁⟩ c₁ ⟨d₂, done₂⟩ hmem - hok
  rcases serve_eq_ok hok with ⟨-, -, rfl⟩ | ⟨-, rfl⟩
  · exact hmem
  · exact List.mem_append_left _ hmem

/-- The mailbox of a user who is asked for is there from then on. -/
theorem Ready.user_of_run {calls done done' : List Call} (h : d.Ready usrLocal base)
    (hcalls : ∀ c ∈ calls, Plain usrLocal c) (user : Name)
    (hmem : .ensure (usrLocal ++ '/' :: user.1) ∈ calls)
    (hrun : run Disk.serve (d, done) calls = .ok (d', done')) :
    d'.tree.isDir (user :: base) = true := by
  obtain ⟨before, behind, rfl⟩ := List.append_of_mem hmem
  obtain ⟨⟨d₁, done₁⟩, ⟨d₂, done₂⟩, hbefore, hok, hbehind⟩ := run_around hrun
  have h₁ := h.of_run (fun c hc => hcalls c (by simp [hc])) hbefore
  have hdir : d₂.tree.isDir (user :: base) = true := by
    refine h₁.toSound.ensure (h₁.locate_user user) (rdropWhile_name _ _) (h₁.user user) ?_ hok
    exact ⟨user, base, rfl, h₁.dir⟩
  exact (run_grows hbehind).tree.dir hdir

theorem Ready.new_of_run {calls done done' : List Call} (h : d.Ready usrLocal base)
    (hcalls : ∀ c ∈ calls, Plain usrLocal c) {user : Name}
    (huser : d.tree.isDir (user :: base) = true)
    (hmem : .ensure (usrLocal ++ '/' :: user.1 ++ '/' :: newDir.1) ∈ calls)
    (hrun : run Disk.serve (d, done) calls = .ok (d', done')) :
    d'.tree.isDir (newDir :: user :: base) = true := by
  obtain ⟨before, behind, rfl⟩ := List.append_of_mem hmem
  obtain ⟨⟨d₁, done₁⟩, ⟨d₂, done₂⟩, hbefore, hok, hbehind⟩ := run_around hrun
  have h₁ := h.of_run (fun c hc => hcalls c (by simp [hc])) hbefore
  have huser₁ := (run_grows hbefore).tree.dir huser
  have hdir : d₂.tree.isDir (newDir :: user :: base) = true := by
    refine h₁.toSound.ensure ?_ (rdropWhile_name _ _) (h₁.new user) ?_ hok
    · rw [h₁.locate_sub, if_pos huser₁]
    · exact ⟨newDir, user :: base, rfl, huser₁⟩
  exact (run_grows hbehind).tree.dir hdir

/-- In a mailbox that is there, a letter is appended. -/
theorem Ready.append_of_run {calls done done' : List Call} (h : d.Ready usrLocal base)
    (hcalls : ∀ c ∈ calls, Plain usrLocal c) {user name : Name}
    (huser : d.tree.isDir (user :: base) = true)
    (hnew : d.tree.isDir (newDir :: user :: base) = true)
    (hmem : .append (letterPath usrLocal user name) data ∈ calls)
    (hrun : run Disk.serve (d, done) calls = .ok (d', done')) :
    .append (letterPath usrLocal user name) data ∈ done' := by
  obtain ⟨before, behind, rfl⟩ := List.append_of_mem hmem
  obtain ⟨⟨d₁, done₁⟩, ⟨d₂, done₂⟩, hbefore, hok, hbehind⟩ := run_around hrun
  have h₁ := h.of_run (fun c hc => hcalls c (by simp [hc])) hbefore
  have huser₁ := (run_grows hbefore).tree.dir huser
  have hnew₁ := (run_grows hbefore).tree.dir hnew
  refine mem_done_of_run hbehind ?_
  rcases serve_eq_ok hok with ⟨hfailed, -⟩ | ⟨-, rfl⟩
  · have hplace := h₁.locate_letter user name
    rw [if_pos ⟨huser₁, hnew₁⟩] at hplace
    obtain ⟨t, ht⟩ := Tree.exists_append hnew₁ (h₁.letter user name) data
    simp [attempt, append, hplace, h₁.allows, letterPlace, ht] at hfailed
  · simp

/-- The calls of a save may be scattered among others: the letter is in its
file. -/
theorem Ready.saved {e : Env} {letter : Letter} {user : Name} {calls done : List Call}
    (h : d.Ready e.usrLocal base) (hcalls : ∀ c ∈ calls, Plain e.usrLocal c)
    (huser : letter.rcptUsername = user.1) (hdomain : '/' ∉ letter.rcptDomain)
    (hsub : (letter.calls e).Sublist calls)
    (hrun : run Disk.serve (d, []) calls = .ok (d', done)) :
    .append (letter.filename e) letter.text ∈ done := by
  have hsaves : letter.calls e = [.ensure (e.usrLocal ++ '/' :: user.1),
      .ensure (e.usrLocal ++ '/' :: user.1 ++ '/' :: newDir.1)] ++
      ([.ensure (e.usrLocal ++ '/' :: user.1 ++ '/' :: curDir.1),
      .ensure (e.usrLocal ++ '/' :: user.1 ++ '/' :: tmpDir.1)] ++
      [.append (letter.filename e) letter.text]) := by
    rw [Letter.calls, huser, maildirEnsureUser_eq]
    rfl
  rw [hsaves] at hsub
  obtain ⟨front, rest, rfl, hfront, hrest⟩ := List.append_sublist_iff.mp hsub
  obtain ⟨first, second, rfl, hfirst, hsecond⟩ := List.cons_sublist_iff.mp hfront
  rw [List.append_assoc, run_append] at hrun
  obtain ⟨⟨d₁, done₁⟩, hrun₁, hrun⟩ := bind_eq_ok.mp hrun
  rw [run_append] at hrun
  obtain ⟨⟨d₂, done₂⟩, hrun₂, hrun₃⟩ := bind_eq_ok.mp hrun
  have hplain₁ : ∀ c ∈ first, Plain e.usrLocal c := fun c hc => hcalls c (by simp [hc])
  have hplain₂ : ∀ c ∈ second, Plain e.usrLocal c := fun c hc => hcalls c (by simp [hc])
  have hplain₃ : ∀ c ∈ rest, Plain e.usrLocal c := fun c hc => hcalls c (by simp [hc])
  have huser₁ := h.user_of_run hplain₁ user hfirst hrun₁
  have h₁ := h.of_run hplain₁ hrun₁
  have hnew₂ := h₁.new_of_run hplain₂ huser₁ (hsecond.subset (by simp)) hrun₂
  have huser₂ := (run_grows hrun₂).tree.dir huser₁
  rw [filename_eq huser hdomain] at hrest ⊢
  exact (h₁.of_run hplain₂ hrun₂).append_of_run hplain₃ huser₂ hnew₂ (hrest.subset (by simp)) hrun₃

end Disk

def written (done : List Call) : List (CStr × CStr) :=
  done.filterMap fun
    | .append path data => some (path, data)
    | .ensure _ => none

theorem mem_written {done : List Call} {path data : CStr} :
    (path, data) ∈ written done ↔ .append path data ∈ done := by
  unfold written
  rw [List.mem_filterMap]
  constructor
  · rintro ⟨_ | ⟨p, t⟩, hc, heq⟩
    · cases heq
    · cases heq
      exact hc
  · exact fun h => ⟨_, h, rfl⟩

theorem written_calls {e : Env} {letter : Letter} {d d' : Disk} {done : List Call}
    (hrun : run Disk.serve (d, []) (letter.calls e) = .ok (d', done)) :
    written done = if .append (letter.filename e) letter.text ∈ done then
      [(letter.filename e, letter.text)] else [] := by
  rw [Letter.calls, run_append] at hrun
  obtain ⟨⟨d₁, done₁⟩, hdirs, hlast⟩ := bind_eq_ok.mp hrun
  have hnone : written done₁ = [] := by
    refine run_invariant_of_mem (P := fun x => written x.2 = []) (G := fun _ _ => True) ?_ rfl
      (guarded_true _ _) hdirs
    rintro ⟨d₂, done₂⟩ c hc ⟨d₃, done₃⟩ hnone - hok
    obtain ⟨dir, -, rfl⟩ := List.mem_map.mp hc
    rcases Disk.serve_eq_ok hok with ⟨-, -, rfl⟩ | ⟨-, rfl⟩
    · exact hnone
    · exact List.filterMap_append.trans (by rw [show List.filterMap _ done₂ = [] from hnone]; rfl)
  obtain ⟨⟨d₂, done₂⟩, hok, hend⟩ := bind_eq_ok.mp hlast
  cases hend
  rcases Disk.serve_eq_ok hok with ⟨-, -, rfl⟩ | ⟨-, rfl⟩
  · rw [hnone, if_neg fun hmem => ?_]
    have hwritten := mem_written.mpr hmem
    rw [hnone] at hwritten
    cases hwritten
  · rw [if_pos (by simp)]
    exact List.filterMap_append.trans (by rw [show List.filterMap _ done₁ = [] from hnone]; rfl)

/-- The end of the mail input asks for the calls that save the letter, and
replies and records as the disk has served them, if `fopen` answers as the disk
does. -/
theorem saveLetter_serves {e : Env} {s : Session} {letter : Letter} {d d' : Disk}
    {done : List Call} (hst : s.state = .processDataEnd) (hletter : s.letter = .live letter)
    (hrun : run Disk.serve (d, []) (letter.calls e) = .ok (d', done))
    (hopen : e.creatable (letter.filename e) = true ↔
      .append (letter.filename e) letter.text ∈ done) :
    ∃ s', saveLetter e s = .ok s' ∧ s'.dirs = s.dirs ++ maildirEnsureUser e letter.rcptUsername ∧
      s'.files = s.files ++ written done ∧
      s'.replies = s.replies ++ [if written done = [] then response554 else responseSaved] := by
  have hdone := written_calls hrun
  simp only [← hopen] at hdone
  rcases s with ⟨⟨sendBuf, recvBuf, state, oldState, letterPtr, watch⟩, replies, dirs, files, wire⟩
  obtain rfl : state = .processDataEnd := hst
  obtain rfl : letterPtr = .live letter := hletter
  rw [hdone]
  cases hfile : e.creatable (letter.filename e) with
  | false => exact ⟨_, if_pos hfile, rfl, (List.append_nil _).symm, rfl⟩
  | true =>
      have hne : ¬e.creatable (letter.filename e) = false := by simp [hfile]
      exact ⟨_, (if_neg hne).trans rfl, rfl, rfl, rfl⟩

/-! ### A spool without letters -/

namespace Disk

variable {d d' : Disk} {maildir : CStr} {place : List Name}

def localDir : Name := ⟨"local".toList, by decide⟩

def remoteDir : Name := ⟨"remote".toList, by decide⟩

theorem ensureDir_entry (hmaildir : maildir ≠ []) (hplace : d.locate maildir = some place)
    (hdir : d.tree.isDir place = true) (name : Name)
    (h : d.ensureDir (maildir ++ ['/'] ++ name.1) = some d') :
    d.Grows d' ∧ d'.tree.node (name :: place) = some ((d.tree.node (name :: place)).getD .dir) ∧
      ∀ q, q ≠ name :: place → d'.tree.node q = d.tree.node q := by
  have hlocate : d.locate (maildir ++ '/' :: name.1) = some (name :: place) := by
    rw [locate_append hmaildir, hplace, Option.bind_some, components_name, Tree.walk_down hdir]
  rw [List.append_assoc, List.singleton_append] at h
  refine ⟨attempt_grows (show d.attempt (.ensure _) = some d' from h), ?_⟩
  unfold ensureDir at h
  split_ifs at h with hstat
  · cases h
    rw [hlocate, Option.bind_some] at hstat
    obtain ⟨x, hx⟩ := Option.isSome_iff_exists.mp hstat
    exact ⟨by rw [hx, Option.getD_some], fun _ _ => rfl⟩
  · obtain ⟨made, t, hmade, -, ht, rfl⟩ := mkdir_eq_some h
    rw [rdropWhile_name, hlocate] at hmade
    cases hmade
    obtain ⟨hnone, hnode⟩ := Tree.mkdir_eq_some ht
    exact ⟨by simp [hnode, hnone], fun q hq => (hnode q).trans (if_neg hq)⟩

/-- What `maildir_init` leaves where there was no mail before. -/
theorem ready_of_maildirInit (hplace : d.locate maildir = some place)
    (hdir : d.tree.isDir place = true) (hlocal : d.tree.node (localDir :: place) = none)
    (hallows : ∀ q, d.allows q = true) (h : d.maildirInit maildir = some d') :
    d'.Ready (maildirLocal maildir) (localDir :: place) := by
  have hmaildir : maildir ≠ [] := by
    rintro rfl
    cases hplace
  have hthere : (d.ensureDir maildir).getD d = d := by
    simp [ensureDir, hplace, Tree.isDir_iff.mp hdir]
  obtain ⟨d₁, h₁, h₂⟩ := Option.bind_eq_some_iff.mp h
  rw [hthere] at h₁
  obtain ⟨hgrows₁, hmade, hnode₁⟩ := ensureDir_entry hmaildir hplace hdir localDir h₁
  obtain ⟨hgrows₂, -, hnode₂⟩ := ensureDir_entry hmaildir (hgrows₁.locate hplace)
    (hgrows₁.tree.dir hdir) remoteDir h₂
  have hgrows := hgrows₁.trans hgrows₂
  have hbase : d'.tree.isDir (localDir :: place) = true := by
    refine hgrows₂.tree.dir (Tree.isDir_iff.mpr ?_)
    rw [hmade, hlocal, Option.getD_none]
  have hbelow : ∀ (user : Name) (more : List Name),
      d'.tree.node (more ++ user :: localDir :: place) = none := by
    intro user more
    have hne : ∀ name : Name, more ++ user :: localDir :: place ≠ name :: place := by
      intro name heq
      have hlen := congrArg List.length heq
      simp only [List.length_append, List.length_cons] at hlen
      omega
    rw [hnode₂ _ (hne _), hnode₁ _ (hne _)]
    exact Tree.none_below (by simp [hlocal]) user more
  refine ⟨⟨?_, hbase⟩, ⟨fun user hne => absurd (hbelow user []) hne,
    fun user hne => absurd (hbelow user [newDir]) hne, fun user name => ?_, fun q => ?_⟩⟩
  · rw [maildirLocal, List.append_assoc, List.singleton_append,
      locate_append (show maildir ≠ [] from hmaildir), hgrows.locate hplace, Option.bind_some]
    exact (congrArg _ (components_name localDir)).trans
      (Tree.walk_down (hgrows.tree.dir hdir) localDir)
  · rw [Tree.isDir, show d'.tree.node (letterPlace _ user name) = none from
      hbelow user [name, newDir]]
  · rw [hgrows.allows]
    exact hallows q

def emptyDisk : Disk where
  tree := Tree.empty.put ⟨"maildir".toList, by decide⟩ [] .dir
  cwd := []
  allows := fun _ => true

def sampleDisk : Disk := (emptyDisk.maildirInit "maildir".toList).getD emptyDisk

def sampleBase : List Name := [localDir, ⟨"maildir".toList, by decide⟩]

theorem sampleDisk_ready : sampleDisk.Ready sampleEnv.usrLocal sampleBase := by
  have hplace : emptyDisk.locate "maildir".toList = some (sampleBase.drop 1) := by decide +kernel
  exact ready_of_maildirInit hplace (by decide +kernel) (by decide +kernel) (fun _ => rfl) rfl

end Disk

end SmtpProj.Server
