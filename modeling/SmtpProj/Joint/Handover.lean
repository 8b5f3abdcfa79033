import SmtpProj.Client.Master
import SmtpProj.Server.Spool

/-!
How letters pass from the server to the client.

They share the spool: the server appends to files in the directories of its
users, and the client lists these directories. What `readdir` lists is given
here as it has to be, in any order, and the rest is computed: the paths of the
client's scan are the paths of the server's files, and the scan comes to a
letter exactly if something was there or was appended.

A user whose name leads into a mailbox is another matter. The directories made
for it are listed with the letters of that mailbox, and the scan ends at them.
-/

namespace SmtpProj.Joint

open Lib Server Server.Disk

/-- What the client's loops over the spool find, directory by directory. -/
structure Lists (d : Disk) (base : List Name) (dirs : List (CStr × List CStr)) : Prop where
  users : ∀ text, text ∈ dirs.map Prod.fst ↔
    Client.isDots text = true ∨ ∃ user : Name, text = user.1 ∧ d.tree.node (user :: base) ≠ none
  letters : ∀ user : Name, ∀ names, (user.1, names) ∈ dirs → ∀ text, text ∈ names ↔
    d.tree.isDir (newDir :: user :: base) = true ∧
      (Client.isDots text = true ∨
        ∃ name : Name, text = name.1 ∧ d.tree.node (letterPlace base user name) ≠ none)

variable {d d' : Disk} {usrLocal : CStr} {base : List Name} {dirs : List (CStr × List CStr)}
  {calls done : List Call}

@[simp] theorem not_isDots (name : Name) : Client.isDots name.1 = false := by
  have hname := name.2.1
  simp only [Place.isName, decide_eq_true_eq] at hname
  exact decide_eq_false (not_or.mpr hname.2)

/-- The path that the client puts together is the server's. -/
theorem clientPath_eq (usrLocal : CStr) (user name : Name) :
    Client.getUserNewDirFullPath (usrLocal ++ ['/']) user.1 ++ name.1 =
      letterPath usrLocal user name := by
  simp [Client.getUserNewDirFullPath, letterPath, newDir]

/-- The scan comes to the entries of the mailboxes. -/
theorem mem_listedLetters_iff (hlists : Lists d base dirs) (letter : CStr × CStr) :
    letter ∈ Client.listedLetters (usrLocal ++ ['/']) dirs ↔ ∃ user name : Name,
      letter = (letterPath usrLocal user name, name.1) ∧
        d.tree.node (letterPlace base user name) ≠ none := by
  simp only [Client.listedLetters, List.mem_flatMap, List.mem_filter, List.mem_map,
    Bool.not_eq_true']
  constructor
  · rintro ⟨⟨text, names⟩, ⟨hdir, hdots⟩, entry, ⟨hentry, hentryDots⟩, rfl⟩
    have huser := (hlists.users text).mp (List.mem_map_of_mem hdir)
    simp only [hdots, Bool.false_eq_true, false_or] at huser
    obtain ⟨user, rfl, -⟩ := huser
    have hname := ((hlists.letters user names hdir entry).mp hentry).2
    simp only [hentryDots, Bool.false_eq_true, false_or] at hname
    obtain ⟨name, rfl, hnode⟩ := hname
    exact ⟨user, name, by rw [clientPath_eq], hnode⟩
  · rintro ⟨user, name, rfl, hnode⟩
    have hnew : d.tree.node (newDir :: user :: base) = some .dir := d.tree.parent hnode
    have huser : d.tree.node (user :: base) = some .dir := d.tree.parent (by rw [hnew]; simp)
    obtain ⟨⟨text, names⟩, hdir, htext⟩ := List.mem_map.mp
      ((hlists.users user.1).mpr (.inr ⟨user, rfl, by rw [huser]; simp⟩))
    obtain rfl : text = user.1 := htext
    refine ⟨(user.1, names), ⟨hdir, not_isDots user⟩, name.1, ⟨?_, not_isDots name⟩, ?_⟩
    · exact (hlists.letters user names hdir name.1).mpr
        ⟨Tree.isDir_iff.mpr hnew, .inr ⟨name, rfl, hnode⟩⟩
    · rw [clientPath_eq]

/-- For plain names of users and letters, whatever the order in which the
workers' calls come: the next scan of the client comes to exactly the entries
that were there and those that the server has appended to, by the server's
paths, and each of them holds what it held and behind it what was appended. -/
theorem spool_hands_over (hbase : d.Based usrLocal base)
    (hcalls : ∀ c ∈ calls, Plain usrLocal c) (hrun : run Disk.serve (d, []) calls = .ok (d', done))
    (hlists : Lists d' base dirs) :
    (∀ letter, letter ∈ Client.listedLetters (usrLocal ++ ['/']) dirs ↔ ∃ user name : Name,
      letter = (letterPath usrLocal user name, name.1) ∧
        (d.tree.node (letterPlace base user name) ≠ none ∨
          ∃ data, .append (letterPath usrLocal user name) data ∈ done)) ∧
      ∀ user name : Name, d'.tree.read (letterPlace base user name) =
        d.tree.read (letterPlace base user name) ++
          (appended (letterPath usrLocal user name) done).flatten := by
  have hcollects := collects_of_run hbase hcalls hrun
  refine ⟨fun letter => ?_, fun user name => hcollects.read user name⟩
  rw [mem_listedLetters_iff hlists]
  refine exists_congr fun user => exists_congr fun name => and_congr_right fun _ => ?_
  simp only [← mem_appended]
  rw [hcollects user name]
  split_ifs with hnil
  · simp [hnil]
  · exact iff_of_true (by simp) (.inr (List.exists_mem_of_ne_nil _ hnil))

/-- In a spool that holds mailboxes only and refuses nothing, a save for a plain
user and domain is not in vain, wherever the plain calls of other workers come
between its own: the next scan of the client comes to the letter, and finds its
text. -/
theorem saved_letter_found {e : Env} {letter : Letter} {user : Name}
    (hspool : d.Ready e.usrLocal base) (hcalls : ∀ c ∈ calls, Plain e.usrLocal c)
    (huser : letter.rcptUsername = user.1) (hdomain : '/' ∉ letter.rcptDomain)
    (hsaved : (letter.calls e).Sublist calls)
    (hrun : run Disk.serve (d, []) calls = .ok (d', done)) (hlists : Lists d' base dirs) :
    (letter.filename e, letterName e letter.rcptDomain) ∈
        Client.listedLetters (e.usrLocal ++ ['/']) dirs ∧
      ∃ place before behind, d'.locate (letter.filename e) = some place ∧
        d'.tree.node place = some (.file (before ++ letter.text ++ behind)) := by
  have hdone := hspool.saved hcalls huser hdomain hsaved hrun
  have hcollects := collects_of_run hspool.toBased hcalls hrun
  rw [filename_eq huser hdomain] at hdone ⊢
  have hmem := mem_appended.mpr hdone
  have hnode := hcollects user (letterEntry e letter.rcptDomain hdomain)
  rw [if_neg (List.ne_nil_of_mem hmem)] at hnode
  obtain ⟨first, rest, hsplit⟩ := List.append_of_mem hmem
  refine ⟨(mem_listedLetters_iff hlists _).mpr ⟨user, _, rfl, by simp [hnode]⟩,
    letterPlace base user (letterEntry e letter.rcptDomain hdomain),
    d.tree.read (letterPlace base user (letterEntry e letter.rcptDomain hdomain)) ++ first.flatten,
    rest.flatten, ?_, ?_⟩
  · have hnew := d'.tree.parent (show d'.tree.node (letterPlace base user _) ≠ none by
      rw [hnode]; simp)
    have huser' := d'.tree.parent (show d'.tree.node (newDir :: user :: base) ≠ none by
      rw [hnew]; simp)
    rw [((run_grows hrun).based hspool.toBased).locate_letter,
      if_pos ⟨Tree.isDir_iff.mpr huser', Tree.isDir_iff.mpr hnew⟩]
  · rw [hnode, hsplit]
    simp

def sampleLetter : Letter :=
  ⟨"a@b.c".toList, "bob@d.e".toList, "bob".toList, "d.e".toList, "Hello\r\n".toList⟩

def bob : Name := ⟨"bob".toList, by decide⟩

def sampleDirs : List (CStr × List CStr) :=
  [(".".toList, []), ("..".toList, []),
    ("bob".toList, [".".toList, "..".toList, "1.0.d.e.mbox".toList])]

def sampleSpool : Disk :=
  match run Disk.serve (sampleDisk, []) (sampleLetter.calls sampleEnv) with
  | .ok (d, _) => d
  | .error _ => sampleDisk

def sampleEntry : Name := letterEntry sampleEnv "d.e".toList (by decide)

theorem update_ne_none_iff {node : List Name → Option (Node Char)} {place q : List Name}
    {x : Node Char} : Function.update node place (some x) q ≠ none ↔ q = place ∨ node q ≠ none := by
  rw [Function.update_apply]
  split_ifs with hq <;> simp [hq]

theorem sampleSpool_node (q : List Name) : sampleSpool.tree.node (q ++ sampleBase) ≠ none ↔
    q ∈ [[sampleEntry, newDir, bob], [tmpDir, bob], [curDir, bob], [newDir, bob], [bob], []] := by
  have hnode : sampleSpool.tree.node = Function.update (Function.update (Function.update
      (Function.update (Function.update (Function.update (Function.update (Function.update
        Tree.empty.node (sampleBase.drop 1) (some .dir)) ([] ++ sampleBase) (some .dir))
        (remoteDir :: sampleBase.drop 1) (some .dir)) ([bob] ++ sampleBase) (some .dir))
        ([newDir, bob] ++ sampleBase) (some .dir)) ([curDir, bob] ++ sampleBase) (some .dir))
        ([tmpDir, bob] ++ sampleBase) (some .dir)) ([sampleEntry, newDir, bob] ++ sampleBase)
        (some (.file sampleLetter.text)) := rfl
  have hempty : Tree.empty.node (q ++ sampleBase) = (none : Option (Node Char)) := by
    cases q <;> rfl
  have hshort : q ++ sampleBase ≠ sampleBase.drop 1 ∧
      q ++ sampleBase ≠ remoteDir :: sampleBase.drop 1 := by
    constructor
    · intro heq
      have hlen := congrArg List.length heq
      simp [sampleBase] at hlen
    · intro heq
      have hlast : q = [] := by
        have hlen := congrArg List.length heq
        simpa [sampleBase] using hlen
      rw [hlast] at heq
      exact absurd heq (by decide)
  simp only [hnode, update_ne_none_iff, List.append_left_inj, hempty, hshort, List.mem_cons,
    List.not_mem_nil, ne_eq, not_true_eq_false, or_false, false_or]

theorem sampleSpool_lists : Lists sampleSpool sampleBase sampleDirs where
  users text := by
    have huser : ∀ user : Name, sampleSpool.tree.node (user :: sampleBase) ≠ none ↔ user = bob :=
      fun user => (sampleSpool_node [user]).trans (by simp)
    simp only [huser]
    simp [sampleDirs, Client.isDots, bob, or_assoc]
  letters user names hdir text := by
    have hname : ∀ name : Name, sampleSpool.tree.node (letterPlace sampleBase bob name) ≠ none ↔
        name = sampleEntry := fun name => (sampleSpool_node [name, newDir, bob]).trans (by simp)
    have hbob : user = bob ∧ names = [".".toList, "..".toList, "1.0.d.e.mbox".toList] := by
      have hdots := not_isDots user
      simp only [sampleDirs, List.mem_cons, Prod.mk.injEq, List.not_mem_nil, or_false] at hdir
      rcases hdir with ⟨huser, -⟩ | ⟨huser, -⟩ | ⟨huser, hnames⟩
      · rw [huser] at hdots
        exact absurd hdots (by decide)
      · rw [huser] at hdots
        exact absurd hdots (by decide)
      · exact ⟨Subtype.ext huser, hnames⟩
    obtain ⟨rfl, rfl⟩ := hbob
    have hdir : sampleSpool.tree.isDir (newDir :: bob :: sampleBase) = true := by decide +kernel
    have hentry : sampleEntry.1 = "1.0.d.e.mbox".toList := by decide +kernel
    simp only [hname, hdir, true_and]
    simp [Client.isDots, hentry, or_assoc]

theorem sampleLetter_plain : ∀ c ∈ sampleLetter.calls sampleEnv, Plain sampleEnv.usrLocal c :=
  fun _ => plain_of_mem_calls (show sampleLetter.rcptUsername = bob.1 from rfl) (by decide)

/-- The one letter of a spool. -/
theorem sampleLetter_found :
    (sampleLetter.filename sampleEnv, letterName sampleEnv "d.e".toList) ∈
        Client.listedLetters (sampleEnv.usrLocal ++ ['/']) sampleDirs ∧
      ∃ place before behind, sampleSpool.locate (sampleLetter.filename sampleEnv) = some place ∧
        sampleSpool.tree.node place = some (.file (before ++ sampleLetter.text ++ behind)) :=
  saved_letter_found sampleDisk_ready sampleLetter_plain
    (show sampleLetter.rcptUsername = bob.1 from rfl) (by decide) (.refl _) rfl sampleSpool_lists

/-- What the client's scan comes to in this spool, and nothing else. -/
theorem sampleSpool_handed_over : ∃ done : List Call, ∀ letter,
    letter ∈ Client.listedLetters (sampleEnv.usrLocal ++ ['/']) sampleDirs ↔ ∃ user name : Name,
      letter = (letterPath sampleEnv.usrLocal user name, name.1) ∧
        (sampleDisk.tree.node (letterPlace sampleBase user name) ≠ none ∨
          ∃ data, .append (letterPath sampleEnv.usrLocal user name) data ∈ done) :=
  ⟨_, (spool_hands_over sampleDisk_ready.toBased sampleLetter_plain rfl sampleSpool_lists).1⟩

/-! ### Users within a mailbox -/

/-- What a directory in a mailbox is called is no name of a letter. -/
theorem emailDomain_newDir : Client.emailDomain newDir.1 = .error .badPointer := by decide

/-- A scan that comes to a name it cannot read ends there, or before. -/
theorem getDomainsMails_error {mailDir path name : CStr} {halt : Client.Halt}
    (hmem : (path, name) ∈ Client.listedLetters mailDir dirs)
    (hname : Client.emailDomain name = .error halt) (t : Client.MailTable) :
    ∃ why, Client.getDomainsMails mailDir dirs t = .error why := by
  cases hscan : Client.getDomainsMails mailDir dirs t with
  | error why => exact ⟨why, rfl⟩
  | ok t' =>
      obtain ⟨before, behind, hsplit⟩ := List.append_of_mem hmem
      rw [Client.getDomainsMails, hsplit] at hscan
      obtain ⟨t₁, t₂, -, hstep, -⟩ := run_around hscan
      rw [Client.MailTable.addLetter, hname] at hstep
      cases hstep

/-- A letter for a user whose name is a path into the mailbox of another: once
its directories were asked for, every later scan of the client ends the master
process, whatever else the server does and in whatever order it is listed. -/
theorem nested_user_ends_scans {e : Env} {letter : Letter} {user : Name} {done₀ : List Call}
    {procNum : ℕ} (hbase : d.Based e.usrLocal base)
    (hbox : d.tree.isDir (newDir :: user :: base) = true)
    (hallows : d.allows (newDir :: newDir :: user :: base) = true)
    (huser : letter.rcptUsername = user.1 ++ "/new".toList)
    (hcalls : ∀ c ∈ letter.calls e, c ∈ calls)
    (hrun : run Disk.serve (d, done₀) calls = .ok (d', done)) (hlists : Lists d' base dirs)
    (m : Client.Master) (hm : m.Scans) :
    ∃ halt, m.step (e.usrLocal ++ ['/']) procNum dirs = .error halt := by
  have hcall : .ensure (letterPath e.usrLocal user newDir) ∈ calls := by
    refine hcalls _ (List.mem_append_left _ (List.mem_map_of_mem ?_))
    simp [maildirEnsureUser, huser, letterPath, newDir]
  have hthere : d'.tree.node (letterPlace base user newDir) ≠ none := by
    obtain ⟨before, behind, rfl⟩ := List.append_of_mem hcall
    obtain ⟨⟨d₁, done₁⟩, ⟨d₂, done₂⟩, hbefore, hok, hbehind⟩ := run_around hrun
    have hgrows := run_grows hbefore
    have hbox₁ := hgrows.tree.dir hbox
    have hnew₁ := Tree.isDir_iff.mp hbox₁
    have huser₁ : d₁.tree.isDir (user :: base) = true :=
      Tree.isDir_iff.mpr (d₁.tree.parent (by rw [hnew₁]; simp))
    have hplace := (hgrows.based hbase).locate_letter user newDir
    rw [if_pos ⟨huser₁, hbox₁⟩] at hplace
    have htrim : (letterPath e.usrLocal user newDir).rdropWhile (· == '/') =
        letterPath e.usrLocal user newDir := by
      simpa [letterPath] using rdropWhile_name (e.usrLocal ++ '/' :: (user.1 ++ '/' :: newDir.1))
        newDir
    have hnode := ensure_serves hplace htrim (by rw [hgrows.allows]; exact hallows)
      ⟨newDir, _, rfl, hbox₁⟩ hok
    exact (run_grows hbehind).tree.ne_none (by rw [hnode]; simp)
  have hlisted : (letterPath e.usrLocal user newDir, newDir.1) ∈
      Client.listedLetters (e.usrLocal ++ ['/']) dirs :=
    (mem_listedLetters_iff hlists _).mpr ⟨user, newDir, rfl, hthere⟩
  obtain ⟨why, hscan⟩ := getDomainsMails_error hlisted emailDomain_newDir m.table
  refine ⟨why, ?_⟩
  unfold Client.Master.step
  rw [hm.1]
  simp only [hm, if_true, Client.Master.scan, hscan]
  rfl

def nestedLetter : Letter :=
  ⟨"a@b.c".toList, "bob/new@d.e".toList, "bob/new".toList, "d.e".toList, "Hello\r\n".toList⟩

def boxDisk : Disk where
  tree := ((emptyDisk.tree.put localDir (sampleBase.drop 1) .dir).put bob sampleBase .dir).put
    newDir (bob :: sampleBase) .dir
  cwd := []
  allows := fun _ => true

def nestedSpool : Disk :=
  match run Disk.serve (boxDisk, []) (nestedLetter.calls sampleEnv) with
  | .ok (d, _) => d
  | .error _ => boxDisk

def nestedDirs : List (CStr × List CStr) :=
  [(".".toList, []), ("..".toList, []),
    ("bob".toList, [".".toList, "..".toList, "tmp".toList, "cur".toList, "new".toList])]

theorem nestedSpool_node (q : List Name) : nestedSpool.tree.node (q ++ sampleBase) ≠ none ↔
    q ∈ [[sampleEntry, newDir, newDir, bob], [tmpDir, newDir, bob], [curDir, newDir, bob],
      [newDir, newDir, bob], [newDir, bob], [bob], []] := by
  have hnode : nestedSpool.tree.node = Function.update (Function.update (Function.update
      (Function.update (Function.update (Function.update (Function.update (Function.update
        Tree.empty.node (sampleBase.drop 1) (some .dir)) ([] ++ sampleBase) (some .dir))
        ([bob] ++ sampleBase) (some .dir)) ([newDir, bob] ++ sampleBase) (some .dir))
        ([newDir, newDir, bob] ++ sampleBase) (some .dir))
        ([curDir, newDir, bob] ++ sampleBase) (some .dir))
        ([tmpDir, newDir, bob] ++ sampleBase) (some .dir))
        ([sampleEntry, newDir, newDir, bob] ++ sampleBase)
        (some (.file nestedLetter.text)) := rfl
  have hempty : Tree.empty.node (q ++ sampleBase) = (none : Option (Node Char)) := by
    cases q <;> rfl
  have hshort : q ++ sampleBase ≠ sampleBase.drop 1 := by
    intro heq
    have hlen := congrArg List.length heq
    simp [sampleBase] at hlen
  simp only [hnode, update_ne_none_iff, List.append_left_inj, hempty, hshort, List.mem_cons,
    List.not_mem_nil, ne_eq, not_true_eq_false, or_false]

theorem nestedSpool_lists : Lists nestedSpool sampleBase nestedDirs where
  users text := by
    have huser : ∀ user : Name, nestedSpool.tree.node (user :: sampleBase) ≠ none ↔ user = bob :=
      fun user => (nestedSpool_node [user]).trans (by simp)
    simp only [huser]
    simp [nestedDirs, Client.isDots, bob, or_assoc]
  letters user names hdir text := by
    have hname : ∀ name : Name, nestedSpool.tree.node (letterPlace sampleBase bob name) ≠ none ↔
        name = tmpDir ∨ name = curDir ∨ name = newDir :=
      fun name => (nestedSpool_node [name, newDir, bob]).trans (by simp)
    have hbob : user = bob ∧
        names = [".".toList, "..".toList, "tmp".toList, "cur".toList, "new".toList] := by
      have hdots := not_isDots user
      simp only [nestedDirs, List.mem_cons, Prod.mk.injEq, List.not_mem_nil, or_false] at hdir
      rcases hdir with ⟨huser, -⟩ | ⟨huser, -⟩ | ⟨huser, hnames⟩
      · rw [huser] at hdots
        exact absurd hdots (by decide)
      · rw [huser] at hdots
        exact absurd hdots (by decide)
      · exact ⟨Subtype.ext huser, hnames⟩
    obtain ⟨rfl, rfl⟩ := hbob
    have hdir : nestedSpool.tree.isDir (newDir :: bob :: sampleBase) = true := by decide +kernel
    simp only [hname, hdir, true_and, and_or_left, exists_or, exists_eq_right]
    simp [Client.isDots, tmpDir, curDir, newDir, or_assoc]

/-- An address that the server takes, and the end of the master at its next
scan. -/
theorem nestedLetter_ends_scan :
    patternEmail "bob/new@d.e".toList = some (nestedLetter.rcptUsername, nestedLetter.rcptDomain) ∧
      ∃ halt, Client.Master.step (sampleEnv.usrLocal ++ ['/']) 1 nestedDirs
        ⟨⟨fun _ => ⟨[], fun _ => none, 0⟩, 0⟩, fun _ => [], 0, []⟩ = .error halt := by
  refine ⟨by decide +kernel, ?_⟩
  have hbase : boxDisk.Based sampleEnv.usrLocal sampleBase :=
    ⟨by decide +kernel, by decide +kernel⟩
  have hbox : boxDisk.tree.isDir (newDir :: bob :: sampleBase) = true := by decide +kernel
  exact nested_user_ends_scans hbase hbox rfl (show nestedLetter.rcptUsername = _ from rfl)
    (fun _ hc => hc) (show run Disk.serve (boxDisk, []) _ = .ok (nestedSpool, _) from rfl)
    nestedSpool_lists _ ⟨rfl, le_rfl⟩

end SmtpProj.Joint
