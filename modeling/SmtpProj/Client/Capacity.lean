import SmtpProj.Lib.Buffer
import SmtpProj.Client.Names
import SmtpProj.Client.Child

/-!
Texts and the arrays they are put in.

A command is put together in `request_buf`, a path goes to a child in `mtext`
of a queue message, and so does a line of the log, which was cut to 1023 bytes
before. The three sizes were chosen apart: nothing compares a text with the
array it is copied to, so a text fits by its length alone. What bounds the
lengths is the log, as most texts are logged on the way.
-/

namespace SmtpProj.Client

open Lib

/-! ### Commands -/

def maxBufLen : ℕ := 1024

def mailFromBuffer (token : CStr) : Buffer :=
  (((Buffer.malloc maxBufLen).strcpy "MAIL FROM: <".toList).strcat token).strcat ">\n".toList

def rcptToBuffer (token : CStr) : Buffer :=
  (((Buffer.malloc maxBufLen).strcpy "RCPT TO:<".toList).strcat token).strcat ">\n".toList

def bodyBuffer (token : CStr) : Buffer :=
  ((Buffer.malloc maxBufLen).strcpy token).strcat "\n".toList

/-! ### Queue messages -/

def mtextSize : ℕ := 500

def mtext (message : CStr) : Buffer := (Buffer.malloc mtextSize).strcpy message

inductive LogLevel
  | error | info | warn | debug
  deriving DecidableEq, Repr

def LogLevel.number : LogLevel → ℕ
  | .error => 0
  | .info => 1
  | .warn => 2
  | .debug => 3

def LogLevel.tag : LogLevel → CStr
  | .error => "ERROR".toList
  | .info => "INFO".toList
  | .warn => "WARN".toList
  | .debug => "DEBUG".toList

def logLineSize : ℕ := 1024

def logLine (lvl : LogLevel) (message : CStr) : CStr :=
  (lvl.tag ++ " ".toList ++ message ++ "\n".toList).take (logLineSize - 1)

def log (curLvl lvl : LogLevel) (message : CStr) : List Buffer :=
  if lvl.number ≤ curLvl.number then [mtext (logLine lvl message)] else []

/-! ### A letter on its way -/

def requestBuffers (text : CStr) : List Buffer :=
  (tokens '\n' text)[0]?.toList.map mailFromBuffer ++
    (tokens '\n' text)[1]?.toList.map rcptToBuffer ++ (bodyLines text).map bodyBuffer

/-- The lines that are logged with a part of the letter, with its path or with a
reply to one of its commands: in `register_new_email`, `send_msg_to_server`,
`send_mail_from`, `send_rcpt_to` and `check_server_code`. -/
def loggedMessages (text path reply : CStr) : List CStr :=
  ["Registering new email ".toList ++ path] ++
    ((emailDomain path).toOption.toList.map fun domain => "Mail ".toList ++ path ++
      " for ".toList ++ domain ++ " domain successfully added to process queue".toList) ++
    ["new name ".toList ++ renameTarget path ++ " \n".toList] ++
    ((tokens '\n' text)[0]?.toList.map fun token =>
      "Sending MAIL FROM: ".toList ++ (mailFromBuffer token).text) ++
    ((tokens '\n' text)[1]?.toList.map fun token =>
      "Sending RCPT TO: ".toList ++ (rcptToBuffer token).text) ++
    ["SERVER RESPONSE ".toList ++ reply]

def letterBuffers (curLvl : LogLevel) (text path reply : CStr) : List Buffer :=
  requestBuffers text ++ [mtext path] ++ (loggedMessages text path reply).flatMap (log curLvl .info)

structure WithinSizes (curLvl : LogLevel) (text path reply : CStr) : Prop where
  sender : ∀ token ∈ (tokens '\n' text)[0]?, token.length ≤ 1009
  recipient : ∀ token ∈ (tokens '\n' text)[1]?, token.length ≤ 1012
  body : ∀ line ∈ bodyLines text, line.length ≤ 1022
  posted : path.length ≤ 499
  /-- If the texts are logged, the lines have to fit as well. -/
  logged : LogLevel.info.number ≤ curLvl.number →
    (∀ token ∈ (tokens '\n' text)[0]?, token.length ≤ 460) ∧
      (∀ token ∈ (tokens '\n' text)[1]?, token.length ≤ 465) ∧ path.length ≤ 471 ∧
      (∀ domain, emailDomain path = .ok domain → path.length + domain.length ≤ 440) ∧
      reply.length ≤ 477

variable {curLvl : LogLevel} {text path reply token message domain : CStr}

/-! ### One text -/

/-- What is sent is what the buffer holds. -/
theorem sendMailFrom_text {place msg : Option CStr} {place' : CStr}
    (h : sendMailFrom place msg = .ok (text, place')) :
    ∃ token, strtok place msg = .ok (some token, place') ∧ text = (mailFromBuffer token).text := by
  obtain ⟨⟨found, rest⟩, hfound, h⟩ := bind_eq_ok.mp h
  cases found with
  | none => cases h
  | some token =>
      cases h
      exact ⟨token, hfound, by simp [mailFromBuffer]⟩

theorem sendRcptTo_text {place msg : Option CStr} {place' : CStr}
    (h : sendRcptTo place msg = .ok (text, place')) :
    ∃ token, strtok place none = .ok (some token, place') ∧ text = (rcptToBuffer token).text := by
  obtain ⟨⟨found, rest⟩, hfound, h⟩ := bind_eq_ok.mp h
  cases found with
  | none => cases h
  | some token =>
      cases h
      exact ⟨token, hfound, by simp [rcptToBuffer]⟩

theorem sendMsgBody_texts (text : CStr) : sendMsgBody (some text) =
    .ok ((tokens '\n' text).map (fun token => (bodyBuffer token).text) ++ [endOfBody], []) := by
  simp [sendMsgBody, bodyBuffer]

theorem mailFromBuffer_eq (token : CStr) : mailFromBuffer token =
    Buffer.holding maxBufLen ("MAIL FROM: <".toList ++ token ++ ">\n".toList) := by
  simp only [mailFromBuffer, Buffer.strcpy_malloc, Buffer.strcat_holding]

theorem rcptToBuffer_eq (token : CStr) : rcptToBuffer token =
    Buffer.holding maxBufLen ("RCPT TO:<".toList ++ token ++ ">\n".toList) := by
  simp only [rcptToBuffer, Buffer.strcpy_malloc, Buffer.strcat_holding]

theorem bodyBuffer_eq (token : CStr) : bodyBuffer token =
    Buffer.holding maxBufLen (token ++ "\n".toList) := by
  simp only [bodyBuffer, Buffer.strcpy_malloc, Buffer.strcat_holding]

@[simp] theorem length_mailFromBuffer (token : CStr) :
    (mailFromBuffer token).text.length = token.length + 14 := by
  simp only [mailFromBuffer_eq, Buffer.text_holding, List.length_append,
    show "MAIL FROM: <".toList.length = 12 from rfl, show ">\n".toList.length = 2 from rfl]
  omega

@[simp] theorem length_rcptToBuffer (token : CStr) :
    (rcptToBuffer token).text.length = token.length + 11 := by
  simp only [rcptToBuffer_eq, Buffer.text_holding, List.length_append,
    show "RCPT TO:<".toList.length = 9 from rfl, show ">\n".toList.length = 2 from rfl]
  omega

@[simp] theorem mailFromBuffer_fits : (mailFromBuffer token).Fits ↔ token.length ≤ 1009 := by
  have hlen := length_mailFromBuffer token
  rw [mailFromBuffer_eq, Buffer.text_holding] at hlen
  rw [mailFromBuffer_eq, Buffer.fits_holding, hlen, maxBufLen]
  omega

@[simp] theorem rcptToBuffer_fits : (rcptToBuffer token).Fits ↔ token.length ≤ 1012 := by
  have hlen := length_rcptToBuffer token
  rw [rcptToBuffer_eq, Buffer.text_holding] at hlen
  rw [rcptToBuffer_eq, Buffer.fits_holding, hlen, maxBufLen]
  omega

@[simp] theorem bodyBuffer_fits : (bodyBuffer token).Fits ↔ token.length ≤ 1022 := by
  rw [bodyBuffer_eq, Buffer.fits_holding, List.length_append, maxBufLen,
    show "\n".toList.length = 1 from rfl]
  omega

@[simp] theorem mtext_fits : (mtext message).Fits ↔ message.length ≤ 499 := by
  rw [mtext, Buffer.strcpy_malloc, Buffer.fits_holding, mtextSize]
  omega

theorem length_logLine_le :
    (logLine .info message).length ≤ 499 ↔ message.length ≤ 493 := by
  have hline : (LogLevel.info.tag ++ " ".toList ++ message ++ "\n".toList).length =
      message.length + 6 := by
    simp only [List.length_append, show LogLevel.info.tag.length = 4 from rfl,
      show " ".toList.length = 1 from rfl, show "\n".toList.length = 1 from rfl]
    omega
  rw [logLine, List.length_take, hline, logLineSize]
  omega

/-! ### All of them -/

theorem requestBuffers_fit : (∀ b ∈ requestBuffers text, b.Fits) ↔
    (∀ token ∈ (tokens '\n' text)[0]?, token.length ≤ 1009) ∧
      (∀ token ∈ (tokens '\n' text)[1]?, token.length ≤ 1012) ∧
      ∀ line ∈ bodyLines text, line.length ≤ 1022 := by
  simp only [requestBuffers, List.forall_mem_append, List.forall_mem_map, mailFromBuffer_fits,
    rcptToBuffer_fits, bodyBuffer_fits, Option.mem_toList, and_assoc, Option.mem_def]

theorem log_fits : (∀ b ∈ log curLvl .info message, b.Fits) ↔
    (LogLevel.info.number ≤ curLvl.number → message.length ≤ 493) := by
  unfold log
  split_ifs with hon
  · rw [List.forall_mem_singleton, mtext_fits, length_logLine_le]
    exact ⟨fun h _ => h, fun h => h hon⟩
  · exact ⟨fun _ h => absurd h hon, fun _ b hb => absurd hb List.not_mem_nil⟩

/-- What is logged of a letter that is registered and sent. -/
theorem loggedMessages_short : (∀ message ∈ loggedMessages text path reply, message.length ≤ 493) ↔
    (∀ token ∈ (tokens '\n' text)[0]?, token.length ≤ 460) ∧
      (∀ token ∈ (tokens '\n' text)[1]?, token.length ≤ 465) ∧ path.length ≤ 471 ∧
      (∀ domain, emailDomain path = .ok domain → path.length + domain.length ≤ 440) ∧
      reply.length ≤ 477 := by
  have htarget : (renameTarget path).length = path.length :=
    length_replaceFirst (show "new".toList.length = "cur".toList.length from rfl) path
  have hregister : ("Registering new email ".toList ++ path).length ≤ 493 ↔ path.length ≤ 471 := by
    rw [List.length_append, show "Registering new email ".toList.length = 22 from rfl]
    omega
  have hname : ("new name ".toList ++ renameTarget path ++ " \n".toList).length ≤ 493 ↔
      path.length ≤ 482 := by
    rw [List.length_append, List.length_append, htarget,
      show "new name ".toList.length = 9 from rfl, show " \n".toList.length = 2 from rfl]
    omega
  have hadded : ∀ domain : CStr, ("Mail ".toList ++ path ++ " for ".toList ++ domain ++
      " domain successfully added to process queue".toList).length ≤ 493 ↔
        path.length + domain.length ≤ 440 := fun domain => by
    simp only [List.length_append, show "Mail ".toList.length = 5 from rfl,
      show " for ".toList.length = 5 from rfl,
      show " domain successfully added to process queue".toList.length = 43 from rfl]
    omega
  have hsender : ∀ token : CStr,
      ("Sending MAIL FROM: ".toList ++ (mailFromBuffer token).text).length ≤ 493 ↔
        token.length ≤ 460 := fun token => by
    rw [List.length_append, length_mailFromBuffer,
      show "Sending MAIL FROM: ".toList.length = 19 from rfl]
    omega
  have hrecipient : ∀ token : CStr,
      ("Sending RCPT TO: ".toList ++ (rcptToBuffer token).text).length ≤ 493 ↔
        token.length ≤ 465 := fun token => by
    rw [List.length_append, length_rcptToBuffer,
      show "Sending RCPT TO: ".toList.length = 17 from rfl]
    omega
  have hreply : ("SERVER RESPONSE ".toList ++ reply).length ≤ 493 ↔ reply.length ≤ 477 := by
    rw [List.length_append, show "SERVER RESPONSE ".toList.length = 16 from rfl]
    omega
  have hdomain : ∀ domain, (emailDomain path).toOption = some domain ↔
      emailDomain path = .ok domain := fun domain => by
    cases emailDomain path <;> simp [Except.toOption]
  simp only [loggedMessages, List.forall_mem_append, List.forall_mem_map, List.forall_mem_singleton,
    Option.mem_toList, hregister, hname, hadded, hsender, hrecipient, hreply, hdomain]
  constructor
  · rintro ⟨⟨⟨⟨⟨hpath, hadd⟩, -⟩, hs⟩, hr⟩, hrep⟩
    exact ⟨hs, hr, hpath, hadd, hrep⟩
  · rintro ⟨hs, hr, hpath, hadd, hrep⟩
    exact ⟨⟨⟨⟨⟨hpath, hadd⟩, by omega⟩, hs⟩, hr⟩, hrep⟩

/-- Everything fits exactly if the parts of the letter, its path and the reply
are within the sizes. -/
theorem letterBuffers_fit_iff (curLvl : LogLevel) (text path reply : CStr) :
    (∀ b ∈ letterBuffers curLvl text path reply, b.Fits) ↔
      WithinSizes curLvl text path reply := by
  have hlogs : (∀ b ∈ (loggedMessages text path reply).flatMap (log curLvl .info), b.Fits) ↔
      (LogLevel.info.number ≤ curLvl.number →
        ∀ message ∈ loggedMessages text path reply, message.length ≤ 493) := by
    rw [List.forall_mem_flatMap]
    simp only [log_fits]
    exact ⟨fun h hon message hmem => h message hmem hon, fun h message hmem hon => h hon _ hmem⟩
  simp only [letterBuffers, List.forall_mem_append, List.forall_mem_singleton, requestBuffers_fit,
    mtext_fits, hlogs, loggedMessages_short]
  constructor
  · rintro ⟨⟨⟨hsender, hrecipient, hbody⟩, hpath⟩, hlogged⟩
    exact ⟨hsender, hrecipient, hbody, hpath, hlogged⟩
  · intro h
    exact ⟨⟨⟨h.sender, h.recipient, h.body⟩, h.posted⟩, h.logged⟩

def longPath : CStr :=
  getUserNewDirFullPath "/tmp/mail/local/".toList (List.replicate 250 'u') ++
    ("7.1.".toList ++ List.replicate 240 'd' ++ ".com".toList)

theorem length_longPath : longPath.length = 519 := by
  simp only [longPath, getUserNewDirFullPath, List.length_append, List.length_replicate]
  rfl

/-- A long path does not fit the message that the master posts. -/
theorem longPath_overflows : ¬ ∀ b ∈ letterBuffers .error "s@a\nr@a\nhi\n".toList longPath
    "220 ok\r\n".toList, b.Fits := by
  intro h
  have hfits : (mtext longPath).Fits := h _ (by simp [letterBuffers])
  rw [mtext_fits, length_longPath] at hfits
  omega

end SmtpProj.Client
