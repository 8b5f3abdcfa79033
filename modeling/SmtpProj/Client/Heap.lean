import SmtpProj.Lib.Buffer
import SmtpProj.Client.Master

/-!
The strings on the heap, from the directories to the list of a domain.

Each function on the way of a letter asks for a block and copies a string into
it. A string takes a byte more than its length, and all formulas but the first
leave it out, most by `malloc(strlen(s))` in front of `strcpy`: the terminator
is written one byte behind the block. So a call goes well only where it has
nothing to copy.
-/

namespace SmtpProj.Client

open Lib

/-! ### Blocks -/

/-- `malloc(strlen(s))` and `strcpy`. -/
def strlenCopy (s : CStr) : Buffer := (Buffer.malloc s.length).strcpy s

def userDirFullPath (mailDir user : CStr) : Buffer :=
  (((Buffer.malloc (mailDir.length + 2 + user.length)).strcpy mailDir).strcat user).strcat
    "/".toList

def userDirNew (mailDir user : CStr) : Buffer :=
  let full := (userDirFullPath mailDir user).text
  ((Buffer.malloc (full.length + 4)).strcpy full).strcat "new/".toList

def mailDomain (firstPart secondPart : CStr) : Buffer :=
  (((Buffer.malloc (firstPart.length + secondPart.length + 1)).strcpy firstPart).strcat
    ".".toList).strcat secondPart

def emailFullName (userDirNew name : CStr) : Buffer :=
  ((Buffer.malloc (userDirNew.length + name.length)).strcpy userDirNew).strcat name

def sizeofNode : ℕ := 16

def newNode : Buffer := (Buffer.malloc sizeofNode).assign sizeofNode

/-! ### Calls -/

def blocksOfUserDir (mailDir user : CStr) : List Buffer :=
  [userDirFullPath mailDir user, userDirNew mailDir user]

/-- The blocks of `get_domain_name_from_email_full_path`; with less than four
pieces it does not come to `malloc`. -/
def blocksOfDomainName (emailPath : CStr) : List Buffer :=
  match strSplit '.' emailPath with
  | .ok (_ :: _ :: firstPart :: secondPart :: _) => [mailDomain firstPart secondPart]
  | _ => []

def blocksOfAddFirst (val : CStr) : List Buffer := [newNode, strlenCopy val]

def blocksOfMailProcIdx (procNum : ℕ) (domain : CStr) (procs : ℕ → List CStr) : List Buffer :=
  match (List.range procNum).find? fun j => (procs j).contains domain with
  | some _ => []
  | none => [strlenCopy domain]

def MailTable.blocksOfLetter (userDirNew name : CStr) (t : MailTable) : List Buffer :=
  emailFullName userDirNew name :: blocksOfDomainName name ++
    match emailDomain name with
    | .error _ => []
    | .ok domain =>
        match t.findDomain domain with
        | none => [strlenCopy domain, strlenCopy (userDirNew ++ name)]
        | some i =>
            if (t.domainsMails i).paths.contains (some (userDirNew ++ name)) then []
            else [strlenCopy (userDirNew ++ name)]

def blocksOfLetters (userDirNew : CStr) : List CStr → MailTable → List Buffer
  | [], _ => []
  | name :: names, t =>
      t.blocksOfLetter userDirNew name ++
        match t.addLetter (userDirNew ++ name, name) with
        | .ok t => blocksOfLetters userDirNew names t
        | .error _ => []

def blocksOfDomainsMails (mailDir : CStr) : List (CStr × List CStr) → MailTable → List Buffer
  | [], _ => []
  | (user, names) :: dirs, t =>
      if isDots user then blocksOfDomainsMails mailDir dirs t
      else
        let dirNew := getUserNewDirFullPath mailDir user
        let names := names.filter fun name => !isDots name
        blocksOfUserDir mailDir user ++ blocksOfLetters dirNew names t ++
          match run MailTable.addLetter t (names.map fun name => (dirNew ++ name, name)) with
          | .ok t => blocksOfDomainsMails mailDir dirs t
          | .error _ => []

/-- The blocks of `register_new_email`: the path, the domain of a new
descriptor with the node of its list, and those of `add_first` unless the
session is done. -/
def Child.blocksOfRegister (connected : Option ℕ) (path : CStr) (c : Child) : List Buffer :=
  strlenCopy path :: blocksOfDomainName path ++
    match emailDomain path with
    | .error _ => []
    | .ok domain =>
        (if (c.findDomain domain).isSome then [] else [strlenCopy domain, newNode]) ++
          match c.registerNewEmail connected path with
          | .error _ => []
          | .ok c' =>
              if (c'.dscrptrs ((c.findDomain domain).getD c.readyDomainsCount)).state = .done
              then [] else blocksOfAddFirst path

inductive HeapCall
  | getUserNewDirFullPath (mailDir user : CStr)
  | getDomainNameFromEmailFullPath (emailPath : CStr)
  | getDomainsMails (mailDir : CStr) (dirs : List (CStr × List CStr)) (t : MailTable)
  | getMailProcIdx (procNum : ℕ) (domain : CStr) (procs : ℕ → List CStr)
  | registerNewEmail (connected : Option ℕ) (path : CStr) (c : Child)
  | addFirst (val : CStr)

namespace HeapCall

def blocks : HeapCall → List Buffer
  | getUserNewDirFullPath mailDir user => blocksOfUserDir mailDir user
  | getDomainNameFromEmailFullPath emailPath => blocksOfDomainName emailPath
  | getDomainsMails mailDir dirs t => blocksOfDomainsMails mailDir dirs t
  | getMailProcIdx procNum domain procs => blocksOfMailProcIdx procNum domain procs
  | registerNewEmail connected path c => c.blocksOfRegister connected path
  | addFirst val => blocksOfAddFirst val

def CopiesNothing : HeapCall → Prop
  | getUserNewDirFullPath _ _ => False
  | getDomainNameFromEmailFullPath emailPath =>
      ∀ p₀ p₁ p₂ p₃ rest, strSplit '.' emailPath ≠ .ok (p₀ :: p₁ :: p₂ :: p₃ :: rest)
  | getDomainsMails _ dirs _ => ∀ dir ∈ dirs, isDots dir.1
  | getMailProcIdx procNum domain procs => ∃ j < procNum, domain ∈ procs j
  | registerNewEmail _ _ _ => False
  | addFirst _ => False

end HeapCall

variable {mailDir user s firstPart secondPart name : CStr} {b : Buffer}

/-! ### One block -/

@[simp] theorem strlenCopy_eq (s : CStr) : strlenCopy s = Buffer.holding s.length s :=
  Buffer.strcpy_malloc _ _

theorem userDirFullPath_eq (mailDir user : CStr) : userDirFullPath mailDir user =
    Buffer.holding (mailDir.length + 2 + user.length) (mailDir ++ user ++ "/".toList) := by
  simp only [userDirFullPath, Buffer.strcpy_malloc, Buffer.strcat_holding]

theorem userDirNew_eq (mailDir user : CStr) : userDirNew mailDir user =
    Buffer.holding ((mailDir ++ user ++ "/".toList).length + 4)
      (getUserNewDirFullPath mailDir user) := by
  simp only [userDirNew, userDirFullPath_eq, Buffer.text_holding, Buffer.strcpy_malloc,
    Buffer.strcat_holding]
  rfl

theorem mailDomain_eq (firstPart secondPart : CStr) : mailDomain firstPart secondPart =
    Buffer.holding (firstPart.length + secondPart.length + 1)
      (firstPart ++ ".".toList ++ secondPart) := by
  simp only [mailDomain, Buffer.strcpy_malloc, Buffer.strcat_holding]

theorem emailFullName_eq (userDirNew name : CStr) : emailFullName userDirNew name =
    Buffer.holding (userDirNew.length + name.length) (userDirNew ++ name) := by
  simp only [emailFullName, Buffer.strcpy_malloc, Buffer.strcat_holding]

/-- A block whose terminator is written behind it. -/
def OneShort (b : Buffer) : Prop := b.written = b.size + 1

theorem OneShort.not_fits (h : OneShort b) : ¬ b.Fits := by
  rw [Buffer.Fits, h]
  omega

/-- The only formula that counts the separator and the terminator. -/
theorem userDirFullPath_fits (mailDir user : CStr) : (userDirFullPath mailDir user).Fits := by
  rw [userDirFullPath_eq, Buffer.fits_holding]
  simp only [List.length_append, show "/".toList.length = 1 from rfl]
  omega

theorem newNode_fits : newNode.Fits := Buffer.fits_assign_malloc _

theorem strlenCopy_short (s : CStr) : OneShort (strlenCopy s) := by
  rw [strlenCopy_eq]
  rfl

theorem userDirNew_short (mailDir user : CStr) : OneShort (userDirNew mailDir user) := by
  rw [userDirNew_eq, OneShort, Buffer.written_holding, Buffer.size_holding, getUserNewDirFullPath,
    List.length_append]
  rfl

theorem mailDomain_short (firstPart secondPart : CStr) :
    OneShort (mailDomain firstPart secondPart) := by
  rw [mailDomain_eq, OneShort, Buffer.written_holding, Buffer.size_holding]
  simp only [List.length_append, show ".".toList.length = 1 from rfl]
  omega

theorem emailFullName_short (userDirNew name : CStr) :
    OneShort (emailFullName userDirNew name) := by
  rw [emailFullName_eq, OneShort, Buffer.written_holding, Buffer.size_holding,
    List.length_append]

theorem getDomainNameFromEmailFullPath_block {emailPath domain : CStr}
    (h : getDomainNameFromEmailFullPath emailPath = .ok domain) :
    ∃ b ∈ blocksOfDomainName emailPath, b.text = domain := by
  obtain ⟨ts, hts, h⟩ := bind_eq_ok.mp h
  split at h
  next firstPart secondPart rest =>
    cases h
    refine ⟨mailDomain firstPart secondPart, ?_, ?_⟩
    · simp [blocksOfDomainName, hts]
    · rw [mailDomain_eq]
      rfl
  next => cases h
  next => cases h

/-! ### All blocks of a call -/

/-- The formulas of a call: a block has room, or is a byte short. -/
def Sized (b : Buffer) : Prop := b.Fits ∨ OneShort b

theorem blocksOfDomainName_sized : ∀ b ∈ blocksOfDomainName s, Sized b := by
  intro b h
  unfold blocksOfDomainName at h
  split at h
  · rw [List.mem_singleton] at h
    exact .inr (h ▸ mailDomain_short _ _)
  · cases h

theorem blocksOfUserDir_sized : ∀ b ∈ blocksOfUserDir mailDir user, Sized b := by
  rw [blocksOfUserDir, List.forall_mem_cons, List.forall_mem_singleton]
  exact ⟨.inl (userDirFullPath_fits mailDir user), .inr (userDirNew_short mailDir user)⟩

theorem blocksOfAddFirst_sized : ∀ b ∈ blocksOfAddFirst s, Sized b := by
  rw [blocksOfAddFirst, List.forall_mem_cons, List.forall_mem_singleton]
  exact ⟨.inl newNode_fits, .inr (strlenCopy_short s)⟩

theorem blocksOfLetter_sized (userDirNew name : CStr) (t : MailTable) :
    ∀ b ∈ t.blocksOfLetter userDirNew name, Sized b := by
  rw [MailTable.blocksOfLetter, List.forall_mem_append, List.forall_mem_cons]
  refine ⟨⟨.inr (emailFullName_short _ _), blocksOfDomainName_sized⟩, ?_⟩
  split
  · exact List.forall_mem_nil _
  · split
    · rw [List.forall_mem_cons, List.forall_mem_singleton]
      exact ⟨.inr (strlenCopy_short _), .inr (strlenCopy_short _)⟩
    · split
      · exact List.forall_mem_nil _
      · exact (List.forall_mem_singleton).mpr (.inr (strlenCopy_short _))

theorem blocksOfLetters_sized (userDirNew : CStr) (names : List CStr) (t : MailTable) :
    ∀ b ∈ blocksOfLetters userDirNew names t, Sized b := by
  induction names generalizing t with
  | nil => exact List.forall_mem_nil _
  | cons name names ih =>
      rw [blocksOfLetters, List.forall_mem_append]
      refine ⟨blocksOfLetter_sized _ _ _, ?_⟩
      split
      · exact ih _
      · exact List.forall_mem_nil _

theorem blocksOfDomainsMails_sized (mailDir : CStr) (dirs : List (CStr × List CStr))
    (t : MailTable) : ∀ b ∈ blocksOfDomainsMails mailDir dirs t, Sized b := by
  induction dirs generalizing t with
  | nil => exact List.forall_mem_nil _
  | cons dir dirs ih =>
      rw [blocksOfDomainsMails]
      split
      · exact ih _
      · rw [List.forall_mem_append, List.forall_mem_append]
        refine ⟨⟨blocksOfUserDir_sized, blocksOfLetters_sized _ _ _⟩, ?_⟩
        split
        · exact ih _
        · exact List.forall_mem_nil _

theorem blocksOfRegister_sized (connected : Option ℕ) (path : CStr) (c : Child) :
    ∀ b ∈ c.blocksOfRegister connected path, Sized b := by
  rw [Child.blocksOfRegister, List.forall_mem_append, List.forall_mem_cons]
  refine ⟨⟨.inr (strlenCopy_short path), blocksOfDomainName_sized⟩, ?_⟩
  split
  · exact List.forall_mem_nil _
  · rw [List.forall_mem_append]
    constructor
    · split_ifs
      · exact List.forall_mem_nil _
      · rw [List.forall_mem_cons, List.forall_mem_singleton]
        exact ⟨.inr (strlenCopy_short _), .inl newNode_fits⟩
    · split
      · exact List.forall_mem_nil _
      · split_ifs
        · exact List.forall_mem_nil _
        · exact blocksOfAddFirst_sized

/-- No call writes more than one byte behind a block. -/
theorem heapCall_sized (call : HeapCall) : ∀ b ∈ call.blocks, Sized b := by
  cases call with
  | getUserNewDirFullPath mailDir user => exact blocksOfUserDir_sized
  | getDomainNameFromEmailFullPath emailPath => exact blocksOfDomainName_sized
  | getDomainsMails mailDir dirs t => exact blocksOfDomainsMails_sized mailDir dirs t
  | getMailProcIdx procNum domain procs =>
      intro b h
      simp only [HeapCall.blocks, blocksOfMailProcIdx] at h
      split at h
      · cases h
      · rw [List.mem_singleton] at h
        exact .inr (h ▸ strlenCopy_short domain)
  | registerNewEmail connected path c => exact blocksOfRegister_sized connected path c
  | addFirst val => exact blocksOfAddFirst_sized

/-! ### When everything fits -/

theorem blocksOfDomainName_fit_iff : (∀ b ∈ blocksOfDomainName s, b.Fits) ↔
    ∀ p₀ p₁ p₂ p₃ rest, strSplit '.' s ≠ .ok (p₀ :: p₁ :: p₂ :: p₃ :: rest) := by
  constructor
  · intro h p₀ p₁ p₂ p₃ rest hsplit
    refine (mailDomain_short p₂ p₃).not_fits (h _ ?_)
    simp [blocksOfDomainName, hsplit]
  · intro h b hb
    unfold blocksOfDomainName at hb
    split at hb
    next hsplit => exact absurd hsplit (h _ _ _ _ _)
    next => cases hb

theorem blocksOfDomainsMails_fit_iff {dirs : List (CStr × List CStr)} {t : MailTable} :
    (∀ b ∈ blocksOfDomainsMails mailDir dirs t, b.Fits) ↔ ∀ dir ∈ dirs, isDots dir.1 := by
  induction dirs generalizing t with
  | nil => simp [blocksOfDomainsMails]
  | cons dir dirs ih =>
      obtain ⟨user, names⟩ := dir
      rw [List.forall_mem_cons, blocksOfDomainsMails]
      split_ifs with hdots
      · rw [ih]
        exact ⟨fun h => ⟨hdots, h⟩, fun h => h.2⟩
      · refine ⟨fun h => ?_, fun h => absurd h.1 hdots⟩
        refine absurd (h (userDirNew mailDir user) ?_) (userDirNew_short mailDir user).not_fits
        simp [blocksOfUserDir]

theorem blocksOfMailProcIdx_fit_iff {procNum : ℕ} {domain : CStr} {procs : ℕ → List CStr} :
    (∀ b ∈ blocksOfMailProcIdx procNum domain procs, b.Fits) ↔
      ∃ j < procNum, domain ∈ procs j := by
  unfold blocksOfMailProcIdx
  cases hfind : (List.range procNum).find? fun j => (procs j).contains domain with
  | some j =>
      have hj : j < procNum := List.mem_range.mp (List.mem_of_find?_eq_some hfind)
      have hmem : domain ∈ procs j := by simpa using List.find?_some hfind
      simpa using ⟨j, hj, hmem⟩
  | none =>
      refine ⟨fun h => absurd (h _ (by simp)) (strlenCopy_short domain).not_fits, ?_⟩
      rintro ⟨j, hj, hmem⟩
      exact absurd hmem (by simpa using List.find?_eq_none.mp hfind j (List.mem_range.mpr hj))

/-- All that a call writes is within its blocks exactly if it copies nothing. -/
theorem heapCall_fits_iff (call : HeapCall) :
    (∀ b ∈ call.blocks, b.Fits) ↔ call.CopiesNothing := by
  cases call with
  | getUserNewDirFullPath mailDir user =>
      refine ⟨fun h => absurd (h (userDirNew mailDir user) ?_)
        (userDirNew_short mailDir user).not_fits, False.elim⟩
      simp [HeapCall.blocks, blocksOfUserDir]
  | getDomainNameFromEmailFullPath emailPath => exact blocksOfDomainName_fit_iff
  | getDomainsMails mailDir dirs t => exact blocksOfDomainsMails_fit_iff
  | getMailProcIdx procNum domain procs => exact blocksOfMailProcIdx_fit_iff
  | registerNewEmail connected path c =>
      refine ⟨fun h => absurd (h (strlenCopy path) ?_) (strlenCopy_short path).not_fits,
        False.elim⟩
      simp [HeapCall.blocks, Child.blocksOfRegister]
  | addFirst val =>
      refine ⟨fun h => absurd (h (strlenCopy val) ?_) (strlenCopy_short val).not_fits,
        False.elim⟩
      simp [HeapCall.blocks, blocksOfAddFirst]

/-- The `new` directory of a user: 24 bytes are asked for, and 25 written. -/
theorem bob_one_short :
    (HeapCall.getUserNewDirFullPath "/tmp/mail/local/".toList "bob".toList).blocks.map
        (fun b => (b.size, b.written)) = [(21, 21), (24, 25)] ∧
      ¬ ∀ b ∈ (HeapCall.getUserNewDirFullPath "/tmp/mail/local/".toList "bob".toList).blocks,
        b.Fits := by
  decide

end SmtpProj.Client
