import SmtpProj.Server.Address
import SmtpProj.Server.Saving

/-!
The dialogue that a server connection carries on, without the server.

A `Dialogue` knows what was said so far and nothing of automata, letters that
are allocated and freed, or buffers: it is in one of a few phases, which hold
the sender, the recipient and the text as far as they are known. An address is
only built with the way it is split. A phase has an answer to a request, or it
refuses it.

The code refines this dialogue, whatever the machine is, as long as its passes
stay inside their fields and no text is short. What a connection replies and
saves is what the dialogue does, over whole runs, and where the dialogue refuses
a request the process ends, for the reason that belongs to the refusal.
-/

namespace SmtpProj.Server

open Lib

/-! ### The dialogue -/

structure Address where
  text : CStr
  username : CStr
  domain : CStr
  splits : SplitsFirst text username domain

structure Mail where
  sender : CStr
  recipient : Address
  body : CStr

def Mail.add (m : Mail) (chunk : CStr) : Mail :=
  { m with body := m.body ++ chunk ++ crlf }

inductive Request
  | hello
  | mail (sender : CStr)
  | rcpt (recipient : CStr)
  | data
  | text (chunk : CStr)
  | dot
  | reset
  | verify
  | quit
  | other
  deriving DecidableEq

inductive Heard
  | nothing
  | overdue
  | chunk (text : CStr)
  deriving DecidableEq

/-- Where the dialogue is. A letter of an earlier transaction may be `kept`. -/
inductive Phase
  | fresh
  | waiting (named kept : Bool)
  | sender (sender : CStr)
  | addressed (sender : CStr) (recipient : Address)
  | text (mail : Mail)
  | closed

inductive Refusal
  | outOfOrder
  | nothingKept
  | noAddress
  deriving DecidableEq

/-- The answer to a request: the next phase, the replies, and the messages that
were put in a place. -/
structure Answer where
  phase : Phase
  replies : List CStr
  stored : List (CStr × Mail)

abbrev Store := Mail → Option CStr

/-- The end of a message: it is put in its place, or the letter is kept. -/
def Mail.finish (store : Store) (m : Mail) : Answer :=
  match store m with
  | some place => ⟨.waiting true false, [responseSaved], [(place, m)]⟩
  | none => ⟨.waiting false true, [response554], []⟩

/-! ### Addresses -/

variable {cs user domain : CStr} {c : Char}

/-- The text up to the first `@` is the shortest that has one behind it. -/
theorem length_takeWhile_at_le (h : user ++ '@' :: domain = cs) :
    (cs.takeWhile (· != '@')).length ≤ user.length := by
  induction user generalizing cs with
  | nil =>
      subst h
      simp
  | cons d ds ih =>
      subst h
      rw [List.cons_append, List.takeWhile_cons]
      split
      · exact Nat.succ_le_succ (ih rfl)
      · exact Nat.zero_le _

theorem splitsFirst_behind (hat : '@' ∈ cs) (hdom : (cs.dropWhile (· != '@')).drop 1 ≠ []) :
    SplitsFirst (c :: cs) (c :: cs.takeWhile (· != '@')) ((cs.dropWhile (· != '@')).drop 1) where
  joined := by
    have hdrop : cs.dropWhile (· != '@') = '@' :: (cs.dropWhile (· != '@')).drop 1 := by
      cases hrest : cs.dropWhile (· != '@') with
      | nil =>
          have hall := List.dropWhile_eq_nil_iff.mp hrest _ hat
          simp at hall
      | cons d ds =>
          have hhead := List.head?_dropWhile_not (· != '@') cs
          rw [hrest] at hhead
          simpa using hhead
    rw [List.cons_append, ← hdrop, List.takeWhile_append_dropWhile]
  username_ne := List.cons_ne_nil _ _
  domain_ne := hdom
  shortest := by
    rintro user domain ⟨hjoined, huser, -⟩
    obtain ⟨d, ds, rfl⟩ := List.exists_cons_of_ne_nil huser
    exact Nat.succ_le_succ (length_takeWhile_at_le (List.cons.inj hjoined).2)

def Address.parse : CStr → Option Address
  | [] => none
  | c :: cs =>
      if h : '@' ∈ cs ∧ (cs.dropWhile (· != '@')).drop 1 ≠ [] then
        some ⟨c :: cs, _, _, splitsFirst_behind (c := c) h.1 h.2⟩
      else none

theorem Address.parse_text {text : CStr} {a : Address} (h : Address.parse text = some a) :
    a.text = text := by
  cases text with
  | nil => cases h
  | cons c cs =>
      rw [Address.parse] at h
      split_ifs at h
      cases h
      rfl

theorem Address.parse_of_splits {text : CStr} (h : Splits text user domain) :
    ∃ a, Address.parse text = some a := by
  obtain ⟨rfl, huser, hdom⟩ := h
  obtain ⟨c, cs, rfl⟩ := List.exists_cons_of_ne_nil huser
  have hat : '@' ∈ cs ++ '@' :: domain := by simp
  have hrest : ((cs ++ '@' :: domain).dropWhile (· != '@')).drop 1 ≠ [] := by
    have hle : ((cs ++ '@' :: domain).takeWhile (· != '@')).length ≤ cs.length :=
      length_takeWhile_at_le rfl
    have hsum := congrArg List.length
      (List.takeWhile_append_dropWhile (p := (· != '@')) (l := cs ++ '@' :: domain))
    have hpos := List.length_pos_iff.mpr hdom
    rw [List.length_append, List.length_append, List.length_cons] at hsum
    refine List.length_pos_iff.mp ?_
    rw [List.length_drop]
    omega
  exact ⟨_, dif_pos ⟨hat, hrest⟩⟩

/-- The address pattern finds the halves of an address. -/
theorem patternEmail_eq_parse {text : CStr} (hline : '\n' ∉ text) :
    patternEmail text = (Address.parse text).map fun a => (a.username, a.domain) := by
  cases hparse : Address.parse text with
  | some a =>
      have hsplits := a.splits
      rw [Address.parse_text hparse] at hsplits
      exact patternEmail_of_splitsFirst hline hsplits
  | none =>
      cases hemail : patternEmail text with
      | none => rfl
      | some halves =>
          obtain ⟨hjoined, huser, hdom⟩ := patternEmail_eq_some hline hemail
          obtain ⟨a, ha⟩ := Address.parse_of_splits ⟨hjoined.symm, huser, hdom⟩
          cases hparse.symm.trans ha

/-! ### The steps of the dialogue -/

def Phase.answer (store : Store) : Phase → Request → Except Refusal Answer
  | .text m, .text more =>
      if dataMark <:+ more then .ok ((m.add more).finish store)
      else .ok ⟨.text (m.add more), [], []⟩
  | .text m, .dot => .ok (m.finish store)
  | .text _, _ => .error .outOfOrder
  | p, .text _ => .ok ⟨p, [response500], []⟩
  | .fresh, _ => .error .outOfOrder
  | .closed, _ => .error .outOfOrder
  | p, .verify => .ok ⟨p, [response502], []⟩
  | _, .quit => .ok ⟨.closed, [response221], []⟩
  | .waiting _ false, .reset => .error .nothingKept
  | _, .reset => .ok ⟨.waiting false false, [response250], []⟩
  | .waiting false kept, .hello => .ok ⟨.waiting true kept, [responseHelo], []⟩
  | .waiting true _, .mail who => .ok ⟨.sender who, [response250], []⟩
  | .sender who, .rcpt arg =>
      match Address.parse arg with
      | some a => .ok ⟨.addressed who a, [response250], []⟩
      | none => .error .noAddress
  | .addressed who a, .data => .ok ⟨.text ⟨who, a, []⟩, [response354], []⟩
  | _, _ => .error .outOfOrder

def request (chunk : CStr) : Request :=
  match patternScan chunk with
  | (.ptHelo, _) => .hello
  | (.ptEhlo, _) => .hello
  | (.ptMail, some sender) => .mail sender
  | (.ptRcpt, some recipient) => .rcpt recipient
  | (.ptData, _) => .data
  | (.ptDataRecv, _) => .text chunk
  | (.ptDataEnd, _) => .dot
  | (.ptRset, _) => .reset
  | (.ptVrfy, _) => .verify
  | (.ptQuit, _) => .quit
  | _ => .other

/-- The first round greets; a peer that is silent for too long is left. -/
def Phase.hear (store : Store) : Phase → Heard → Except Refusal Answer
  | .fresh, .nothing => .ok ⟨.waiting false false, [response220], []⟩
  | .fresh, .overdue => .ok ⟨.closed, [response220, responseTimeout], []⟩
  | p, .nothing => .ok ⟨p, [], []⟩
  | _, .overdue => .ok ⟨.closed, [responseTimeout], []⟩
  | p, .chunk said => p.answer store (request said)

structure Dialogue where
  phase : Phase
  replies : List CStr
  stored : List (CStr × Mail)

def Dialogue.start : Dialogue := ⟨.fresh, [], []⟩

def Dialogue.step (d : Dialogue) (x : Store × Heard) : Except Refusal Dialogue :=
  d.phase.hear x.1 x.2 >>= fun a => .ok ⟨a.phase, d.replies ++ a.replies, d.stored ++ a.stored⟩

/-! ### What the code has of it -/

def Mail.letter (m : Mail) : Letter :=
  ⟨m.sender, m.recipient.text, m.recipient.username, m.recipient.domain, m.body⟩

def Env.store (e : Env) : Store := fun m =>
  if e.creatable (m.letter.filename e) = true then some (m.letter.filename e) else none

/-- How an allocated letter belongs to a phase. -/
inductive Matches : Phase → ServerState → LetterPtr → Prop
  | fresh : Matches .fresh .init .none
  | greeted {kept : Bool} {p : LetterPtr} (hp : kept = true ↔ ∃ letter, p = .live letter) :
      Matches (.waiting false kept) .ready p
  | named {kept : Bool} {p : LetterPtr} (hp : kept = true ↔ ∃ letter, p = .live letter) :
      Matches (.waiting true kept) .expectMail p
  | sender (sender : CStr) :
      Matches (.sender sender) .expectRcpt (.live { letterCreate with mailFrom := sender })
  | addressed (sender : CStr) (recipient : Address) :
      Matches (.addressed sender recipient) .expectData
        (.live (Mail.letter ⟨sender, recipient, []⟩))
  | text (m : Mail) : Matches (.text m) .expectDataRecv (.live m.letter)
  | closed (p : LetterPtr) : Matches .closed .disconnected p

def filed (stored : List (CStr × Mail)) : List (CStr × CStr) :=
  stored.map fun x => (x.1, x.2.letter.text)

def Refusal.halt : Refusal → Halt
  | .outOfOrder => .badTransition
  | .nothingKept => .badLetter
  | .noAddress => .nullRead

structure Carries (s : Session) (a : Answer) (s' : Session) : Prop where
  matched : Matches a.phase s'.state s'.letter
  replies : s'.replies = s.replies ++ a.replies
  files : s'.files = s.files ++ filed a.stored

def Follows (e : Env) (s : Session) : Except Refusal Answer → Prop
  | .ok a => ∃ s', protocolUpdate e s = .ok s' ∧ Carries s a s'
  | .error why => protocolUpdate e s = .error why.halt

/-! ### One pass -/

inductive Reads (chunk : CStr) : PatternType → Option CStr → Request → Prop
  | helo {arg : Option CStr} : Reads chunk .ptHelo arg .hello
  | ehlo {arg : Option CStr} : Reads chunk .ptEhlo arg .hello
  | mail {arg : CStr} : Reads chunk .ptMail (some arg) (.mail arg)
  | rcpt {arg : CStr} (hline : '\n' ∉ arg) : Reads chunk .ptRcpt (some arg) (.rcpt arg)
  | data {arg : Option CStr} : Reads chunk .ptData arg .data
  | text {arg : Option CStr} : Reads chunk .ptDataRecv arg (.text chunk)
  | dot : Reads chunk .ptDataEnd none .dot
  | reset {arg : Option CStr} : Reads chunk .ptRset arg .reset
  | verify {arg : Option CStr} : Reads chunk .ptVrfy arg .verify
  | quit {arg : Option CStr} : Reads chunk .ptQuit arg .quit

theorem reads {chunk : CStr} {type : PatternType} {content : Option CStr}
    (hscan : patternScan chunk = (type, content)) : Reads chunk type content (request chunk) := by
  have hrange := patternScan_range chunk
  unfold request
  rw [hscan] at hrange ⊢
  cases type with
  | ptHelo => exact .helo
  | ptEhlo => exact .ehlo
  | ptMail =>
      obtain ⟨arg, rfl, -⟩ := patternScan_argument rfl hscan
      exact .mail
  | ptRcpt =>
      obtain ⟨arg, rfl, -, hline, -⟩ := patternScan_argument rfl hscan
      exact .rcpt hline
  | ptData => exact .data
  | ptDataRecv => exact .text
  | ptDataEnd =>
      have hdot : LoneDot chunk := (patternScan_eq_dataEnd_iff.mp (by rw [hscan])).2
      obtain rfl : content = none :=
        (Prod.mk.inj (hscan.symm.trans (patternScan_of_loneDot hdot))).2
      exact .dot
  | ptRset => exact .reset
  | ptVrfy => exact .verify
  | ptQuit => exact .quit
  | ptStart | ptEmail | ptEnd => simp [PatternType.isKeyword] at hrange

section Pass

variable {e : Env} {s : Session} {a : Answer} {type : PatternType} {content : Option CStr}
  (hrecv : s.recvBuf ≠ []) (hscan : patternScan s.recvBuf = (type, content))

include hrecv hscan

theorem Follows.of_serves {o : Effect} (ho : Serves e s type content o)
    (hmatches : Matches a.phase o.state o.letter) (hreplies : o.reply.toList = a.replies)
    (hfiles : o.files = filed a.stored) : Follows e s (.ok a) := by
  obtain ⟨s', hok, hgives⟩ := protocolUpdate_of_scan hrecv hscan ho
  refine ⟨s', hok, ?_, ?_, ?_⟩
  · rw [hgives.state, hgives.letter]
    exact hmatches
  · rw [hgives.replies, hreplies]
  · rw [hgives.files, hfiles]

theorem Follows.of_fails {why : Refusal} (hready : LetterReady s)
    (h : Fails e s type content why.halt) : Follows e s (.error why) :=
  protocolUpdate_of_fails hready hrecv hscan h

theorem Follows.of_none (hinit : s.state ≠ .init) (hno : noMatch type s.state = false)
    (h : serverStep s.state (eventMap type) = none) : Follows e s (.error .outOfOrder) := by
  have hno' : noMatch (patternScan s.recvBuf).1 s.state = false := by rwa [hscan]
  have h' : serverStep s.state (eventMap (patternScan s.recvBuf).1) = none := by rwa [hscan]
  change protocolUpdate e s = _
  rw [protocolUpdate_of_chunk hrecv hinit, updateRecv_badTransition hno' h']
  rfl

theorem Follows.of_noMatch {p : Phase} (hinit : s.state ≠ .init)
    (hno : noMatch type s.state = true) (h : Matches p s.state s.letter) :
    Follows e s (.ok ⟨p, [response500], []⟩) := by
  have hno' : noMatch (patternScan s.recvBuf).1 s.state = true := by rwa [hscan]
  refine ⟨_, (protocolUpdate_of_chunk hrecv hinit).trans (updateRecv_of_noMatch hno'), h, rfl, ?_⟩
  exact (List.append_nil _).symm

theorem Follows.of_finish {m : Mail} (ho : Serves e s type content (endOfData e m.letter)) :
    Follows e s (.ok (m.finish e.store)) := by
  unfold endOfData at ho
  unfold Mail.finish Env.store
  split_ifs at ho ⊢ with hfile
  · exact .of_serves hrecv hscan ho (.named (by simp)) rfl rfl
  · exact .of_serves hrecv hscan ho (.greeted (by simp)) rfl rfl

/-- In every phase a chunk is answered as the dialogue answers it. -/
theorem follows {p : Phase} (hready : LetterReady s) (h : Matches p s.state s.letter)
    (hfresh : s.state ≠ .init) (hopen : s.state ≠ .disconnected) (hlong : ¬s.Short) :
    Follows e s (p.answer e.store (request s.recvBuf)) := by
  have hreads := reads hscan
  generalize hreq : request s.recvBuf = req at hreads
  have hnone := Follows.of_none (e := e) hrecv hscan hfresh
  have hno : s.state ≠ .expectDataRecv → type = .ptDataRecv →
      Follows e s (.ok ⟨p, [response500], []⟩) := fun hst htype =>
    .of_noMatch hrecv hscan hfresh (by simp [noMatch, htype, hst]) h
  generalize hst : s.state = st at h
  generalize hp : s.letter = ptr at h
  cases h with
  | fresh => exact absurd hst hfresh
  | closed => exact absurd hst hopen
  | @greeted kept _ hkept =>
      subst hp
      cases hreads with
      | helo => exact .of_serves hrecv hscan (.helo hst) (.named hkept) rfl rfl
      | ehlo => exact .of_serves hrecv hscan (.ehlo hst) (.named hkept) rfl rfl
      | text => exact hno (by simp [hst]) rfl
      | reset =>
          cases kept with
          | true =>
              obtain ⟨letter, hletter⟩ := hkept.mp rfl
              exact .of_serves hrecv hscan (.rset (by rw [hst]; rfl) hletter) (.greeted (by simp))
                rfl rfl
          | false =>
              have hfreed : ∀ letter, s.letter ≠ .live letter := by simpa using hkept
              exact .of_fails hrecv hscan hready (.rset (by rw [hst]; rfl) hfreed)
      | verify =>
          exact .of_serves hrecv hscan (.vrfy (by rw [hst]; rfl)) (hst ▸ .greeted hkept) rfl rfl
      | quit =>
          exact .of_serves hrecv hscan (.quit (.inl (by rw [hst]; rfl))) (.closed _) rfl rfl
      | mail | rcpt | data | dot => exact hnone rfl (by rw [hst]; rfl)
  | @named kept _ hkept =>
      subst hp
      cases hreads with
      | mail => exact .of_serves hrecv hscan (.mail hst) (.sender _) rfl rfl
      | text => exact hno (by simp [hst]) rfl
      | reset =>
          cases kept with
          | true =>
              obtain ⟨letter, hletter⟩ := hkept.mp rfl
              exact .of_serves hrecv hscan (.rset (by rw [hst]; rfl) hletter) (.greeted (by simp))
                rfl rfl
          | false =>
              have hfreed : ∀ letter, s.letter ≠ .live letter := by simpa using hkept
              exact .of_fails hrecv hscan hready (.rset (by rw [hst]; rfl) hfreed)
      | verify =>
          exact .of_serves hrecv hscan (.vrfy (by rw [hst]; rfl)) (hst ▸ .named hkept) rfl rfl
      | quit =>
          exact .of_serves hrecv hscan (.quit (.inl (by rw [hst]; rfl))) (.closed _) rfl rfl
      | helo | ehlo | rcpt | data | dot => exact hnone rfl (by rw [hst]; rfl)
  | sender who =>
      cases hreads with
      | @rcpt arg hline =>
          have hemail := patternEmail_eq_parse hline
          cases hparse : Address.parse arg with
          | none =>
              rw [hparse] at hemail
              simp only [Phase.answer, hparse]
              exact .of_fails hrecv hscan hready (.rcpt hst hemail)
          | some a =>
              rw [hparse] at hemail
              obtain rfl := Address.parse_text hparse
              simp only [Phase.answer, hparse]
              exact .of_serves hrecv hscan (.rcpt hst hp hemail) (.addressed who a) rfl rfl
      | text => exact hno (by simp [hst]) rfl
      | reset =>
          exact .of_serves hrecv hscan (.rset (by rw [hst]; rfl) hp) (.greeted (by simp)) rfl rfl
      | verify =>
          exact .of_serves hrecv hscan (.vrfy (by rw [hst]; rfl))
            (by rw [hst, hp]; exact .sender who) rfl rfl
      | quit =>
          exact .of_serves hrecv hscan (.quit (.inl (by rw [hst]; rfl))) (.closed _) rfl rfl
      | helo | ehlo | mail | data | dot => exact hnone rfl (by rw [hst]; rfl)
  | addressed who a =>
      cases hreads with
      | data =>
          exact .of_serves hrecv hscan (.data hst) (by rw [hp]; exact .text ⟨who, a, []⟩) rfl rfl
      | text => exact hno (by simp [hst]) rfl
      | reset =>
          exact .of_serves hrecv hscan (.rset (by rw [hst]; rfl) hp) (.greeted (by simp)) rfl rfl
      | verify =>
          exact .of_serves hrecv hscan (.vrfy (by rw [hst]; rfl))
            (by rw [hst, hp]; exact .addressed who a) rfl rfl
      | quit =>
          exact .of_serves hrecv hscan (.quit (.inl (by rw [hst]; rfl))) (.closed _) rfl rfl
      | helo | ehlo | mail | rcpt | dot => exact hnone rfl (by rw [hst]; rfl)
  | text m =>
      cases hreads with
      | text =>
          rw [Phase.answer]
          split_ifs with hmark
          · exact .of_finish (m := m.add s.recvBuf) hrecv hscan (.mark hst hp hmark)
          · have hlen : 5 ≤ s.recvBuf.length := not_lt.mp fun hlen =>
              hlong ⟨hst, hrecv, by rw [Session.command, hscan], hlen⟩
            exact .of_serves hrecv hscan (.text hst hp hlen hmark) (.text (m.add _)) rfl rfl
      | dot => exact .of_finish hrecv hscan (.dot hst hp)
      | helo | ehlo | mail | rcpt | data | reset | verify | quit =>
          exact hnone rfl (by rw [hst]; rfl)

end Pass

/-! ### Whole runs -/

theorem Matches.letterReady {p : Phase} {s : Session} (h : Matches p s.state s.letter) :
    LetterReady s := by
  intro hin
  generalize hst : s.state = st at h hin
  generalize s.letter = ptr at h ⊢
  cases h with
  | sender | addressed | text => exact ⟨_, rfl⟩
  | fresh | greeted | named | closed => cases hin

namespace Link

def heard (l : Link) (r : Round) : Heard :=
  if l.received r ≠ [] then .chunk (l.received r)
  else if stopwatchWatch r.env.now (l.connUpdate r).session.watch > connTimeout then .overdue
  else .nothing

def tellWith : Link × List (Store × Heard) → Round × Outside →
    Except LinkEnd (Link × List (Store × Heard)) :=
  logged roundWith fun l r _ => [(r.1.env.store, l.heard r.1)]

/-- The pass of the round stays inside the fields, and its text is not short. -/
def Regular (l : Link) (r : Round × Outside) : Prop :=
  l.InsideAt r ∧ ¬(l.connUpdate r.1).session.Short

instance (l : Link) (r : Round × Outside) : Decidable (l.Regular r) :=
  inferInstanceAs (Decidable (_ ∧ _))

/-- The connection is where the dialogue is, and has replied and saved as it
did. -/
structure Holds (l : Link) (d : Dialogue) : Prop where
  matched : Matches d.phase l.session.state l.session.letter
  replies : l.session.replies = d.replies
  files : l.session.files = filed d.stored
  recvBuf : l.session.recvBuf = []
  greeted : l.session.state ≠ .init

/-- The round does what the dialogue does, or ends where it refuses. -/
def Refines (l : Link) (r : Round × Outside) : Except Refusal Dialogue → Prop
  | .ok d => ∃ l', l.roundWith r = .ok l' ∧ l'.Holds d
  | .error why => l.roundWith r = .error (.halted why.halt)

variable {l l' : Link} {d : Dialogue} {r : Round × Outside}

theorem hear_greeted {p : Phase} (h : Matches p l.session.state l.session.letter)
    (hgreeted : l.session.state ≠ .init) (store : Store) :
    p.hear store .nothing = .ok ⟨p, [], []⟩ ∧
      p.hear store .overdue = .ok ⟨.closed, [responseTimeout], []⟩ ∧
      ∀ said, p.hear store (.chunk said) = p.answer store (request said) := by
  generalize l.session.state = st at h hgreeted
  generalize l.session.letter = ptr at h
  cases p with
  | fresh =>
      cases h
      exact absurd rfl hgreeted
  | _ => exact ⟨rfl, rfl, fun _ => rfl⟩

@[simp] theorem filed_append (stored more : List (CStr × Mail)) :
    filed (stored ++ more) = filed stored ++ filed more := List.map_append

/-- What the pass does, the round does. -/
theorem refines_of_follows {x : Except Refusal Answer} (hl : l.Holds d)
    (hclosing : ¬l.Closing r.1) (hregular : l.Regular r)
    (h : Follows r.1.env (l.connUpdate r.1).session x) :
    l.Refines r
      (x >>= fun a => .ok ⟨a.phase, d.replies ++ a.replies, d.stored ++ a.stored⟩) := by
  have hround : l.roundWith r = (l.connUpdate r.1).protocolUpdate r.1 :=
    (roundWith_of_inside hregular.1 hregular.2).trans (round_of_not_closing hclosing)
  cases x with
  | error why =>
      refine hround.trans ?_
      simp only [protocolUpdate, show Server.protocolUpdate r.1.env _ = _ from h]
  | ok a =>
      obtain ⟨s', hok, hs'⟩ := h
      have hround' : l.roundWith r = .ok { l.connUpdate r.1 with session := s' } := by
        rw [hround, protocolUpdate, hok]
      have hgreeted := protocolUpdate_greeted (by simpa using hl.greeted)
        (by simpa [LetterReady] using hl.matched.letterReady) hok
      refine ⟨_, hround', hs'.matched, ?_, ?_, hgreeted.2.1, hgreeted.1⟩
      · rw [← hl.replies, ← connUpdate_replies r.1 l]
        exact hs'.replies
      · rw [filed_append, ← hl.files, ← connUpdate_files r.1 l]
        exact hs'.files

theorem Holds.refines (hl : l.Holds d) (hclosing : ¬l.Closing r.1) (hregular : l.Regular r) :
    l.Refines r (d.step (r.1.env.store, l.heard r.1)) := by
  refine refines_of_follows hl hclosing hregular ?_
  obtain ⟨hnothing, hoverdue, hchunk⟩ := hear_greeted hl.matched hl.greeted r.1.env.store
  have hmatches : Matches d.phase (l.connUpdate r.1).session.state
      (l.connUpdate r.1).session.letter := by
    simpa using hl.matched
  have hgreeted : (l.connUpdate r.1).session.state ≠ .init := by simpa using hl.greeted
  unfold heard
  split_ifs with hrecv hlate
  · dsimp only
    rw [hchunk]
    refine follows hrecv rfl hmatches.letterReady hmatches hgreeted (fun hst => ?_) hregular.2
    -- a closed connection is only passed over when `select` failed, and then nothing is read
    have hfailed : r.1.ready = .selectFailed := by
      by_contra hne
      exact hclosing ⟨by simpa using hst, hne⟩
    rw [received, connUpdate, if_pos hfailed] at hrecv
    exact hrecv hl.recvBuf
  · dsimp only
    rw [hoverdue]
    refine ⟨_, (protocolUpdate_of_idle (not_not.mp hrecv) hgreeted).trans
      (congrArg Except.ok (if_pos hlate)), .closed _, rfl, (List.append_nil _).symm⟩
  · dsimp only
    rw [hnothing]
    refine ⟨_, (protocolUpdate_of_idle (not_not.mp hrecv) hgreeted).trans
      (congrArg Except.ok (if_neg hlate)), hmatches, (List.append_nil _).symm,
      (List.append_nil _).symm⟩

theorem Holds.step (hl : l.Holds d) (hregular : l.Regular r) (hok : l.roundWith r = .ok l') :
    ∃ d', d.step (r.1.env.store, l.heard r.1) = .ok d' ∧ l'.Holds d' := by
  have hrefines := hl.refines (roundWith_ok hok).1 hregular
  cases hstep : d.step (r.1.env.store, l.heard r.1) with
  | error why =>
      rw [hstep] at hrefines
      cases hrefines.symm.trans hok
  | ok d' =>
      rw [hstep] at hrefines
      obtain ⟨l₁, hok₁, hl₁⟩ := hrefines
      obtain rfl : l₁ = l' := Except.ok.inj (hok₁.symm.trans hok)
      exact ⟨d', rfl, hl₁⟩

theorem holds_of_greeting {now : Timeval} {e : Env}
    (h : (accepted now).round (.greeting e) = .ok l) :
    ∃ d, Dialogue.start.step (e.store, (accepted now).heard (.greeting e)) = .ok d ∧ l.Holds d := by
  have hquiet := Worker.accepted_connUpdate now e
  rw [round_of_not_closing (not_closing_accepted _ _), hquiet] at h
  obtain ⟨hs, -, -⟩ := protocolUpdate_eq_ok h
  have hs : _ = Except.ok l.session := (protocolUpdate_of_init rfl rfl).symm.trans hs
  have hs := (Except.ok.inj hs).symm
  have hheard : (accepted now).heard (.greeting e) =
      if stopwatchWatch e.now now > connTimeout then .overdue else .nothing := by
    rw [heard, received, hquiet]
    exact if_neg (not_not.mpr rfl)
  rw [hheard]
  change l.session = if stopwatchWatch e.now now > connTimeout then _ else _ at hs
  split_ifs at hs ⊢ with hlate
  · refine ⟨_, rfl, ?_, ?_, ?_, ?_, ?_⟩ <;> rw [hs]
    · exact .closed _
    · rfl
    · rfl
    · rfl
    · exact ServerState.noConfusion
  · refine ⟨_, rfl, ?_, ?_, ?_, ?_, ?_⟩ <;> rw [hs]
    · exact .greeted (by simp [accepted, connCreate])
    · rfl
    · rfl
    · rfl
    · exact ServerState.noConfusion

/-- A connection is always where the dialogue is that was told the same. -/
theorem holds_of_run {now : Timeval} {e : Env} {x : Outside} {rs : List (Round × Outside)}
    {told : List (Store × Heard)}
    (hrun : run tellWith (accepted now, []) ((.greeting e, x) :: rs) = .ok (l, told))
    (hregular : Guarded tellWith (fun c r => c.1.Regular r) (accepted now, [])
      ((.greeting e, x) :: rs)) :
    ∃ d, run Dialogue.step .start told = .ok d ∧ l.Holds d := by
  obtain ⟨⟨l₀, told₀⟩, hgreeting, hrest⟩ := bind_eq_ok.mp hrun
  obtain ⟨hround, htold₀⟩ := logged_eq_ok.mp hgreeting
  rw [roundWith_greeting] at hround
  obtain ⟨d₀, hstep, hl₀⟩ := holds_of_greeting hround
  have hd₀ : run Dialogue.step .start told₀ = .ok d₀ := by
    obtain rfl : told₀ = _ := htold₀
    exact run_cons_ok hstep
  refine run_invariant (P := fun c => ∃ d, run Dialogue.step .start c.2 = .ok d ∧ c.1.Holds d)
    (fun c r c' ⟨d, hd, hl⟩ hreg hok => ?_) ⟨d₀, hd₀, hl₀⟩ (hregular _ hgreeting).2 hrest
  obtain ⟨hround, htold⟩ := logged_eq_ok.mp hok
  obtain ⟨d', hstep, hl'⟩ := hl.step hreg hround
  refine ⟨d', ?_, hl'⟩
  rw [htold, run_append_ok hd]
  exact run_cons_ok hstep

/-- A connection carries on the dialogue: in every run of regular rounds it has
replied and saved what the dialogue did that was told the same, and the next
round, if it is a regular one, goes on as the dialogue does, or ends the process
exactly where and why the dialogue refuses. -/
theorem session_refines_dialogue {now : Timeval} {e : Env} {x : Outside}
    {rs : List (Round × Outside)} {told : List (Store × Heard)}
    (hrun : run tellWith (accepted now, []) ((.greeting e, x) :: rs) = .ok (l, told))
    (hregular : Guarded tellWith (fun c r => c.1.Regular r) (accepted now, [])
      ((.greeting e, x) :: rs)) :
    ∃ d, run Dialogue.step .start told = .ok d ∧ l.Holds d ∧
      ∀ r : Round × Outside, ¬l.Closing r.1 → l.Regular r →
        l.Refines r (d.step (r.1.env.store, l.heard r.1)) := by
  obtain ⟨d, hd, hl⟩ := holds_of_run hrun hregular
  exact ⟨d, hd, hl, fun _ => hl.refines⟩

/-- After HELO and MAIL: the next round goes on as the dialogue does, here with a
recipient that it refuses. -/
theorem session_refines_dialogue_mail : ∃ l told d,
    run tellWith (accepted ⟨0, 0⟩, []) ((.greeting sampleEnv, heap) ::
        (upToData.take 2).map (·, heap)) = .ok (l, told) ∧
      run Dialogue.step .start told = .ok d ∧ l.Holds d ∧
        l.Refines (.chunk sampleEnv "RCPT TO:<nobody>\r\n".toList, heap)
          (d.step (sampleEnv.store, .chunk "RCPT TO:<nobody>\r\n".toList)) := by
  have hrun : run tellWith (accepted ⟨0, 0⟩, []) ((.greeting sampleEnv, heap) ::
      (upToData.take 2).map (·, heap)) = .ok (_, _) := rfl
  have hregular : Along tellWith (fun c r => c.1.Regular r) (accepted ⟨0, 0⟩, [])
      ((.greeting sampleEnv, heap) :: (upToData.take 2).map (·, heap)) := by
    decide +kernel
  obtain ⟨d, hd, hl, hnext⟩ := session_refines_dialogue hrun hregular.guarded
  exact ⟨_, _, d, hrun, hd, hl, hnext (.chunk sampleEnv _, heap) (by decide) (by decide +kernel)⟩

/-- A reset that finds no letter is refused. -/
example : (run Dialogue.step .start [(sampleEnv.store, .nothing),
    (sampleEnv.store, .chunk "RSET\r\n".toList)] matches .error .nothingKept) = true := by
  decide +kernel

end Link

def Worker.LongAt (i : ℕ) (w : Worker) (k : TurnWith) : Prop :=
  ∀ w₁ s, w.connUpdate k.1.1 = .ok w₁ → w₁.connections i = .live s → ¬s.Short

/-- Every connection of a worker is a dialogue, whatever the others do inside their
fields. -/
theorem Worker.holds_of_run {i : ℕ} {w w' : Worker} {k : TurnWith} {ks : List TurnWith}
    (hi : i < connSize) (hlistener : w.listener < connSize) (hmax : w.listener ≤ w.maxFd)
    (hk : Accepts i w k.1.1)
    (hks : ∀ w₁, w.turnWith k = .ok w₁ →
      Guarded turnWith (fun w k => ServesAt i w k.1.1 ∧ w.LongAt i k) w₁ ks)
    (hinside : Guarded turnWith InsideAt w (k :: ks)) (h : run turnWith w (k :: ks) = .ok w') :
    ∃ told d l, run Dialogue.step .start told = .ok d ∧ Shows i w' l ∧ l.Holds d := by
  obtain ⟨w₁, hturn, hrest⟩ := bind_eq_ok.mp h
  obtain ⟨hin, hinside⟩ := hinside w₁ hturn
  obtain ⟨l₁, hgreeting, -, hl₁⟩ := turnWith_greets hi hlistener hmax hk hin hturn
  obtain ⟨d₁, hstep, hd₁⟩ := Link.holds_of_greeting hgreeting
  refine run_invariant (P := fun w => ∃ told d l, run Dialogue.step .start told = .ok d ∧
      Shows i w l ∧ l.Holds d) (fun w k w' ⟨told, d, l, hd, hl, hholds⟩ hG hok => ?_)
    ⟨[_], d₁, l₁, run_singleton.trans hstep, hl₁, hd₁⟩ ((hks w₁ hturn).and hinside) hrest
  obtain ⟨r, l', w₂, hconn, hslot, hpass, hround, -, hl'⟩ := turnWith_shows hi hl hG.1.1 hG.2 hok
  obtain ⟨d', hstep, hholds'⟩ := hholds.step ⟨hpass, hG.1.2 w₂ _ hconn hslot⟩ hround
  exact ⟨told ++ [_], d', l', (run_append_ok hd).trans (run_singleton.trans hstep), hl', hholds'⟩

end SmtpProj.Server
