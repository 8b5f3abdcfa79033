import SmtpProj.Lib.CString
import SmtpProj.Lib.Run

/-!
The start of the server: its options, the user that it runs as, and the port
that it listens on.

`main` checks one thing after the other, and the first that fails ends the start
with a line of text. Two of the orders matter. The user is taken on before the
group, so a process that root has started gives away what it needs to change its
group; and it is taken on before the socket is bound, so the ports below 1024,
and the default port among them, are out of reach (`boot_rights`). The options of
the log have codes of their own, but `main` reports them by the texts for the
codes of the server's options (`refusal_names_iff`).
-/

namespace SmtpProj.Server

open Lib

/-! ### The configuration -/

structure Section where
  string : String → Option CStr
  int : String → Option ℤ

abbrev Config := String → Option Section

structure ServerOpts where
  ip : CStr
  port : ℤ
  user : CStr
  group : CStr
  processCount : ℤ
  domain : CStr
  maildir : CStr

structure LogOpts where
  path : CStr

/-- The setting, or the code for its absence. -/
def found {α : Type} (code : ℤ) : Option α → Except ℤ α
  | some value => .ok value
  | none => .error code

def inRange (code low high value : ℤ) : Except ℤ Unit :=
  if value < low ∨ value > high then .error code else .ok ()

def serverOptsInit (config : Config) : Except ℤ ServerOpts := do
  let system ← found (-10) (config "system")
  let ip ← found (-20) (system.string "bind_ip")
  let port ← found (-30) (system.int "port")
  let _ ← inRange (-31) 0 65535 port
  let user ← found (-40) (system.string "user")
  let group ← found (-50) (system.string "group")
  let processCount ← found (-60) (system.int "process_count")
  let _ ← inRange (-61) 0 1024 processCount
  let domain ← found (-70) (system.string "domain")
  let maildir ← found (-80) (system.string "maildir")
  .ok ⟨ip, port, user, group, processCount, domain, maildir⟩

def logOptsInit (config : Config) : Except ℤ LogOpts := do
  let log ← found (-10) (config "log")
  let path ← found (-20) (log.string "log_file")
  .ok ⟨path⟩

def serverOptsErr (code : ℤ) : String :=
  match code with
  | 0 => "Normal execution"
  | -10 => "No \x7bsystem\x7d section in config"
  | -20 => "No \x7bsystem.bind_ip\x7d string value in config"
  | -30 => "No \x7bsystem.port\x7d integer value in config"
  | -31 => "Invalid \x7bsystem.port\x7d value in config"
  | -40 => "No \x7bsystem.user\x7d string value in config"
  | -50 => "No \x7bsystem.group\x7d string value in config"
  | -60 => "No \x7bsystem.process_count\x7d int value in config"
  | -61 => "Invalid \x7bsystem.process_count\x7d value in config"
  | -70 => "Invalid \x7bsystem.domain\x7d value in config"
  | -80 => "Invalid \x7bsystem.maildir\x7d value in config"
  | _ => "Unrecognized error"

/-! ### User and group -/

structure Credentials where
  ruid : ℕ
  euid : ℕ
  suid : ℕ
  rgid : ℕ
  egid : ℕ
  sgid : ℕ
  deriving DecidableEq

/-- `setuid` and `setgid` of the system: root sets all three ids, others only the
effective one, to the real or the saved id. -/
def Credentials.setuid (uid : ℕ) (c : Credentials) : Option Credentials :=
  if c.euid = 0 then some { c with ruid := uid, euid := uid, suid := uid }
  else if uid = c.ruid ∨ uid = c.suid then some { c with euid := uid }
  else none

def Credentials.setgid (gid : ℕ) (c : Credentials) : Option Credentials :=
  if c.euid = 0 then some { c with rgid := gid, egid := gid, sgid := gid }
  else if gid = c.rgid ∨ gid = c.sgid then some { c with egid := gid }
  else none

structure Host where
  argc : ℕ
  /-- `config_read_file`. -/
  config : Option Config
  getpwnam : CStr → Option ℕ
  getgrnam : CStr → Option ℕ
  credentials : Credentials
  /-- `protocol_init` and `maildir_init` succeed. -/
  patterns : Bool
  spool : Bool
  /-- `socket`, `fcntl`, `setsockopt` and `listen` succeed. -/
  socket : Bool
  nonblock : Bool
  reuseAddr : Bool
  listen : Bool
  /-- Nothing else is bound to the address. -/
  addressFree : Bool

def setId (host : Host) (user group : CStr) : Except ℤ Credentials := do
  let uid ← found (-10) (host.getpwnam user)
  let gid ← found (-20) (host.getgrnam group)
  let c ← found (-11) (host.credentials.setuid uid)
  found (-21) (c.setgid gid)

def setIdErr (code : ℤ) : String :=
  match code with
  | 0 => "Normal execution"
  | -10 => "User does not exist"
  | -11 => "Can't setuid() to user"
  | -20 => "Group does not exist"
  | -21 => "Can't setuid() to group"
  | _ => "Unrecognized error"

/-! ### The start -/

inductive BootError
  | usage
  | unreadable
  | options (code : ℤ)
  | logOptions (code : ℤ)
  | identity (code : ℤ)
  | patterns
  | spool
  | listener (text : String)
  deriving DecidableEq

/-- What `main` and `conn_accept` print; for a file that cannot be read it is a
text of `libconfig`. -/
def BootError.text : BootError → String
  | .usage => "Usage: smtp_server <config file>\n"
  | .unreadable => ""
  | .options code => "Parsing server options: " ++ serverOptsErr code ++ "\n"
  | .logOptions code => "Parsing log options: " ++ serverOptsErr code ++ "\n"
  | .identity code => setIdErr code ++ "\n"
  | .patterns => ""
  | .spool => ""
  | .listener text => text

def refuse {α : Type} (refusal : ℤ → BootError) : Except ℤ α → Except BootError α
  | .ok value => .ok value
  | .error code => .error (refusal code)

def ensured (ok : Bool) (refusal : BootError) : Except BootError Unit :=
  if ok then .ok () else .error refusal

def parseConfig (config : Config) : Except BootError (ServerOpts × LogOpts) := do
  let opts ← refuse .options (serverOptsInit config)
  let logOpts ← refuse .logOptions (logOptsInit config)
  .ok (opts, logOpts)

def prepare (host : Host) : Except BootError (ServerOpts × LogOpts × Credentials) := do
  let _ ← ensured (host.argc = 2) .usage
  match host.config with
  | none => .error .unreadable
  | some config => do
      let (opts, logOpts) ← parseConfig config
      let credentials ← refuse .identity (setId host opts.user opts.group)
      let _ ← ensured host.patterns .patterns
      let _ ← ensured host.spool .spool
      .ok (opts, logOpts, credentials)

def defIp : CStr := "127.0.0.1".toList

def defPort : ℤ := 25

def ServerOpts.address (opts : ServerOpts) : CStr × ℤ :=
  (if opts.ip.length = 0 then defIp else opts.ip, if opts.port = 0 then defPort else opts.port)

/-- `bind` of the system: only root has the ports below 1024. -/
def bindable (host : Host) (credentials : Credentials) (port : ℤ) : Bool :=
  host.addressFree && (decide (1024 ≤ port) || decide (credentials.euid = 0))

def connListen (host : Host) (credentials : Credentials) (opts : ServerOpts) :
    Except BootError Unit := do
  let place := String.ofList opts.ip ++ ":" ++ toString opts.port ++ "\n"
  let _ ← ensured host.socket (.listener "Can't create socket")
  let _ ← ensured host.nonblock (.listener "")
  let _ ← ensured host.reuseAddr (.listener "Can't set SO_REUSEADDR to socket")
  let _ ← ensured (bindable host credentials opts.address.2) (.listener ("Can't bind to " ++ place))
  ensured host.listen (.listener ("Can't listen on " ++ place))

def bootServer (host : Host) : Except BootError (ServerOpts × LogOpts × Credentials) := do
  let (opts, logOpts, credentials) ← prepare host
  let _ ← connListen host credentials opts
  .ok (opts, logOpts, credentials)

/-! ### What a configuration lacks -/

inductive Setting
  | system | bindIp | port | user | group | processCount | domain | maildir | log | logFile

def Setting.name : Setting → String
  | .system => "system"
  | .bindIp => "system.bind_ip"
  | .port => "system.port"
  | .user => "system.user"
  | .group => "system.group"
  | .processCount => "system.process_count"
  | .domain => "system.domain"
  | .maildir => "system.maildir"
  | .log => "log"
  | .logFile => "log.log_file"

def Config.string (config : Config) (group key : String) : Option CStr :=
  (config group).bind (·.string key)

def Config.int (config : Config) (group key : String) : Option ℤ :=
  (config group).bind (·.int key)

def Config.Lacks (config : Config) : Setting → Prop
  | .system => config "system" = none
  | .bindIp => config.string "system" "bind_ip" = none
  | .port => ∀ port, config.int "system" "port" = some port → port < 0 ∨ 65535 < port
  | .user => config.string "system" "user" = none
  | .group => config.string "system" "group" = none
  | .processCount => ∀ n, config.int "system" "process_count" = some n → n < 0 ∨ 1024 < n
  | .domain => config.string "system" "domain" = none
  | .maildir => config.string "system" "maildir" = none
  | .log => config "log" = none
  | .logFile => config.string "log" "log_file" = none

def Names (text : String) (setting : Setting) : Prop :=
  ("\x7b" ++ setting.name ++ "\x7d").toList <:+: text.toList

instance (text : String) (setting : Setting) : Decidable (Names text setting) := by
  unfold Names
  infer_instance

section

variable {α : Type} {code code' : ℤ} {o : Option α} {value : α} {config : Config}

@[simp] theorem found_eq_ok : found code o = .ok value ↔ o = some value := by
  cases o <;> simp [found]

@[simp] theorem found_eq_error : found code o = .error code' ↔ code = code' ∧ o = none := by
  cases o <;> simp [found]

@[simp] theorem inRange_eq_ok {low high n : ℤ} {u : Unit} :
    inRange code low high n = .ok u ↔ low ≤ n ∧ n ≤ high := by
  unfold inRange
  split_ifs <;> simp <;> omega

@[simp] theorem inRange_eq_error {low high n : ℤ} :
    inRange code low high n = .error code' ↔ code = code' ∧ (n < low ∨ high < n) := by
  unfold inRange
  split_ifs <;> simp <;> omega

/-- The code of an error stands for a setting that is lacking. -/
theorem serverOptsInit_error (h : serverOptsInit config = .error code) :
    ∃ setting, config.Lacks setting ∧ Names (serverOptsErr code) setting := by
  rcases bind_eq_error.mp h with h | ⟨system, hsystem, h⟩
  · obtain ⟨rfl, hnone⟩ := found_eq_error.mp h
    exact ⟨.system, hnone, by decide⟩
  have hstring : ∀ key, config.string "system" key = system.string key := fun key => by
    rw [Config.string, found_eq_ok.mp hsystem, Option.bind_some]
  have hint : ∀ key, config.int "system" key = system.int key := fun key => by
    rw [Config.int, found_eq_ok.mp hsystem, Option.bind_some]
  rcases bind_eq_error.mp h with h | ⟨ip, -, h⟩
  · obtain ⟨rfl, hnone⟩ := found_eq_error.mp h
    exact ⟨.bindIp, (hstring _).trans hnone, by decide⟩
  rcases bind_eq_error.mp h with h | ⟨port, hport, h⟩
  · obtain ⟨rfl, hnone⟩ := found_eq_error.mp h
    exact ⟨.port, by simp [Config.Lacks, hint, hnone], by decide⟩
  rcases bind_eq_error.mp h with h | ⟨-, -, h⟩
  · obtain ⟨rfl, hrange⟩ := inRange_eq_error.mp h
    exact ⟨.port, by simpa [Config.Lacks, hint, found_eq_ok.mp hport] using hrange, by decide⟩
  rcases bind_eq_error.mp h with h | ⟨user, -, h⟩
  · obtain ⟨rfl, hnone⟩ := found_eq_error.mp h
    exact ⟨.user, (hstring _).trans hnone, by decide⟩
  rcases bind_eq_error.mp h with h | ⟨group, -, h⟩
  · obtain ⟨rfl, hnone⟩ := found_eq_error.mp h
    exact ⟨.group, (hstring _).trans hnone, by decide⟩
  rcases bind_eq_error.mp h with h | ⟨count, hcount, h⟩
  · obtain ⟨rfl, hnone⟩ := found_eq_error.mp h
    exact ⟨.processCount, by simp [Config.Lacks, hint, hnone], by decide⟩
  rcases bind_eq_error.mp h with h | ⟨-, -, h⟩
  · obtain ⟨rfl, hrange⟩ := inRange_eq_error.mp h
    exact ⟨.processCount, by simpa [Config.Lacks, hint, found_eq_ok.mp hcount] using hrange,
      by decide⟩
  rcases bind_eq_error.mp h with h | ⟨domain, -, h⟩
  · obtain ⟨rfl, hnone⟩ := found_eq_error.mp h
    exact ⟨.domain, (hstring _).trans hnone, by decide⟩
  rcases bind_eq_error.mp h with h | ⟨maildir, -, h⟩
  · obtain ⟨rfl, hnone⟩ := found_eq_error.mp h
    exact ⟨.maildir, (hstring _).trans hnone, by decide⟩
  · cases h

theorem lookup_of_found {group : String} {settings : Section} (h : config group = some settings)
    (key : String) : config.string group key = settings.string key ∧
      config.int group key = settings.int key := by
  simp [Config.string, Config.int, h]

/-- An accepted configuration lacks none of the server's settings. -/
theorem lacks_of_serverOptsInit {opts : ServerOpts} {setting : Setting}
    (h : serverOptsInit config = .ok opts) (hlacks : config.Lacks setting) :
    setting = .log ∨ setting = .logFile := by
  obtain ⟨system, hsystem, h⟩ := bind_eq_ok.mp h
  obtain ⟨ip, hip, h⟩ := bind_eq_ok.mp h
  obtain ⟨port, hport, h⟩ := bind_eq_ok.mp h
  obtain ⟨_, hports, h⟩ := bind_eq_ok.mp h
  obtain ⟨user, huser, h⟩ := bind_eq_ok.mp h
  obtain ⟨group, hgroup, h⟩ := bind_eq_ok.mp h
  obtain ⟨count, hcount, h⟩ := bind_eq_ok.mp h
  obtain ⟨_, hcounts, h⟩ := bind_eq_ok.mp h
  obtain ⟨domain, hdomain, h⟩ := bind_eq_ok.mp h
  obtain ⟨maildir, hmaildir, -⟩ := bind_eq_ok.mp h
  rw [found_eq_ok] at hsystem hip hport huser hgroup hcount hdomain hmaildir
  rw [inRange_eq_ok] at hports hcounts
  have hlookup := lookup_of_found hsystem
  cases setting with
  | log => exact .inl rfl
  | logFile => exact .inr rfl
  | system => simp [Config.Lacks, hsystem] at hlacks
  | bindIp => simp [Config.Lacks, hlookup, hip] at hlacks
  | port =>
      have hrange := hlacks port ((hlookup _).2.trans hport)
      omega
  | user => simp [Config.Lacks, hlookup, huser] at hlacks
  | group => simp [Config.Lacks, hlookup, hgroup] at hlacks
  | processCount =>
      have hrange := hlacks count ((hlookup _).2.trans hcount)
      omega
  | domain => simp [Config.Lacks, hlookup, hdomain] at hlacks
  | maildir => simp [Config.Lacks, hlookup, hmaildir] at hlacks

theorem logOptsInit_error (h : logOptsInit config = .error code) : code = -10 ∨ code = -20 := by
  rcases bind_eq_error.mp h with h | ⟨log, -, h⟩
  · exact .inl (found_eq_error.mp h).1.symm
  rcases bind_eq_error.mp h with h | ⟨path, -, h⟩
  · exact .inr (found_eq_error.mp h).1.symm
  · cases h

/-- What a part of the configuration is refused for. -/
theorem parseConfig_error {e : BootError} (h : parseConfig config = .error e) :
    (∃ code, e = .options code ∧ serverOptsInit config = .error code) ∨
      ∃ code opts, e = .logOptions code ∧ serverOptsInit config = .ok opts ∧
        logOptsInit config = .error code := by
  unfold parseConfig at h
  cases hserver : serverOptsInit config with
  | error code =>
      rw [hserver] at h
      cases h
      exact .inl ⟨code, rfl, rfl⟩
  | ok opts =>
      rw [hserver] at h
      cases hlog : logOptsInit config with
      | error code =>
          rw [hlog] at h
          cases h
          exact .inr ⟨code, opts, rfl, rfl, rfl⟩
      | ok logOpts =>
          rw [hlog] at h
          cases h

theorem Names.append {text : String} {setting : Setting} (h : Names text setting)
    (front back : String) : Names (front ++ text ++ back) setting := by
  obtain ⟨before, behind, heq⟩ := h
  refine ⟨front.toList ++ before, behind ++ back.toList, ?_⟩
  simp [← heq]

/-- A configuration that is refused is reported by the name of a setting that it
lacks, unless the log's options are what it is refused for: the texts for these
name no setting that it lacks. -/
theorem refusal_names_iff {e : BootError} (h : parseConfig config = .error e) :
    (∃ setting, config.Lacks setting ∧ Names e.text setting) ↔ ∃ code, e = .options code := by
  rcases parseConfig_error h with ⟨code, rfl, herror⟩ | ⟨code, opts, rfl, hok, herror⟩
  · obtain ⟨setting, hlacks, hnames⟩ := serverOptsInit_error herror
    exact iff_of_true ⟨setting, hlacks, hnames.append _ _⟩ ⟨code, rfl⟩
  · refine iff_of_false ?_ (by simp)
    rintro ⟨setting, hlacks, hnames⟩
    revert hnames
    rcases lacks_of_serverOptsInit hok hlacks with rfl | rfl <;>
      rcases logOptsInit_error herror with rfl | rfl <;> decide

end

/-! ### The rights of the server -/

namespace Credentials

variable {c c' : Credentials} {uid gid : ℕ}

theorem setuid_eq_some : c.setuid uid = some c' ↔ (c.euid = 0 ∨ uid = c.ruid ∨ uid = c.suid) ∧
    c' = if c.euid = 0 then { c with ruid := uid, euid := uid, suid := uid }
      else { c with euid := uid } := by
  unfold setuid
  split_ifs <;> simp [*, eq_comm]

theorem setgid_eq_some : c.setgid gid = some c' ↔ (c.euid = 0 ∨ gid = c.rgid ∨ gid = c.sgid) ∧
    c' = if c.euid = 0 then { c with rgid := gid, egid := gid, sgid := gid }
      else { c with egid := gid } := by
  unfold setgid
  split_ifs <;> simp [*, eq_comm]

/-- The user and the group that are taken on, one after the other. -/
theorem taken {c₁ : Credentials} (huser : c.setuid uid = some c₁)
    (hgroup : c₁.setgid gid = some c') :
    (c'.euid = uid ∧ c'.egid = gid) ∧ (c.euid = 0 ∨ uid = c.ruid ∨ uid = c.suid) ∧
      (uid = 0 ∨ gid = c.rgid ∨ gid = c.sgid) := by
  obtain ⟨hu, rfl⟩ := setuid_eq_some.mp huser
  obtain ⟨hg, rfl⟩ := setgid_eq_some.mp hgroup
  by_cases hroot : c.euid = 0 <;> by_cases huid : uid = 0 <;> simp_all

theorem exists_taken (hu : c.euid = 0 ∨ uid = c.ruid ∨ uid = c.suid)
    (hg : uid = 0 ∨ gid = c.rgid ∨ gid = c.sgid) :
    ∃ c₁ c', c.setuid uid = some c₁ ∧ c₁.setgid gid = some c' := by
  refine ⟨_, _, setuid_eq_some.mpr ⟨hu, rfl⟩, setgid_eq_some.mpr ⟨?_, rfl⟩⟩
  split_ifs <;> exact hg

/-- A process with these ids can go on as this user, in this group, and listen on
this port: only as root where it changes the group or the port is below 1024. -/
def Allows (uid gid : ℕ) (port : ℤ) (c : Credentials) : Prop :=
  (c.euid = 0 ∨ uid = c.ruid ∨ uid = c.suid) ∧
    (uid = 0 ∨ (gid = c.rgid ∨ gid = c.sgid) ∧ 1024 ≤ port)

end Credentials

/-- Every answer of the host that neither the configuration nor the user's rights
decide is the one that the server hopes for. -/
structure Host.Works (host : Host) : Prop where
  argc : host.argc = 2
  patterns : host.patterns = true
  spool : host.spool = true
  socket : host.socket = true
  nonblock : host.nonblock = true
  reuseAddr : host.reuseAddr = true
  addressFree : host.addressFree = true
  listen : host.listen = true

variable {host : Host} {opts : ServerOpts} {logOpts : LogOpts} {c : Credentials}

@[simp] theorem ensured_eq_ok {ok : Bool} {e : BootError} {u : Unit} :
    ensured ok e = .ok u ↔ ok = true := by
  cases ok <;> simp [ensured]

@[simp] theorem refuse_eq_ok {α : Type} {e : ℤ → BootError} {x : Except ℤ α} {value : α} :
    refuse e x = .ok value ↔ x = .ok value := by
  cases x <;> simp [refuse]

theorem setId_eq_ok {user group : CStr} : setId host user group = .ok c ↔
    ∃ uid gid c₁, host.getpwnam user = some uid ∧ host.getgrnam group = some gid ∧
      host.credentials.setuid uid = some c₁ ∧ c₁.setgid gid = some c := by
  constructor
  · intro h
    obtain ⟨uid, huid, h⟩ := bind_eq_ok.mp h
    obtain ⟨gid, hgid, h⟩ := bind_eq_ok.mp h
    obtain ⟨c₁, hc₁, h⟩ := bind_eq_ok.mp h
    rw [found_eq_ok] at huid hgid hc₁ h
    exact ⟨uid, gid, c₁, huid, hgid, hc₁, h⟩
  · rintro ⟨uid, gid, c₁, huid, hgid, hc₁, h⟩
    simp [setId, found, huid, hgid, hc₁, h, bind, Except.bind]

theorem prepare_eq_ok : prepare host = .ok (opts, logOpts, c) ↔ host.argc = 2 ∧
    (∃ config, host.config = some config ∧ parseConfig config = .ok (opts, logOpts)) ∧
      setId host opts.user opts.group = .ok c ∧ host.patterns = true ∧ host.spool = true := by
  constructor
  · intro h
    obtain ⟨_, hargc, h⟩ := bind_eq_ok.mp h
    cases hconfig : host.config with
    | none =>
        rw [hconfig] at h
        cases h
    | some config =>
        rw [hconfig] at h
        obtain ⟨⟨opts', logOpts'⟩, hparse, h⟩ := bind_eq_ok.mp h
        obtain ⟨c', hid, h⟩ := bind_eq_ok.mp h
        obtain ⟨_, hpatterns, h⟩ := bind_eq_ok.mp h
        obtain ⟨_, hspool, h⟩ := bind_eq_ok.mp h
        cases h
        rw [ensured_eq_ok] at hargc hpatterns hspool
        exact ⟨of_decide_eq_true hargc, ⟨config, rfl, hparse⟩, refuse_eq_ok.mp hid, hpatterns,
          hspool⟩
  · rintro ⟨hargc, ⟨config, hconfig, hparse⟩, hid, hpatterns, hspool⟩
    simp [prepare, ensured, refuse, hargc, hconfig, hparse, hid, hpatterns, hspool, bind,
      Except.bind]

theorem connListen_eq_ok {u : Unit} : connListen host c opts = .ok u ↔ host.socket = true ∧
    host.nonblock = true ∧ host.reuseAddr = true ∧
      (host.addressFree = true ∧ (1024 ≤ opts.address.2 ∨ c.euid = 0)) ∧ host.listen = true := by
  constructor
  · intro h
    obtain ⟨_, hsocket, h⟩ := bind_eq_ok.mp h
    obtain ⟨_, hnonblock, h⟩ := bind_eq_ok.mp h
    obtain ⟨_, hreuse, h⟩ := bind_eq_ok.mp h
    obtain ⟨_, hbind, h⟩ := bind_eq_ok.mp h
    rw [ensured_eq_ok] at hsocket hnonblock hreuse hbind h
    exact ⟨hsocket, hnonblock, hreuse, by simpa [bindable] using hbind, h⟩
  · rintro ⟨hsocket, hnonblock, hreuse, hbind, hlisten⟩
    have hbind : bindable host c opts.address.2 = true := by simpa [bindable] using hbind
    simp [connListen, ensured, hsocket, hnonblock, hreuse, hbind, hlisten, bind, Except.bind]

theorem bootServer_eq_ok : bootServer host = .ok (opts, logOpts, c) ↔
    prepare host = .ok (opts, logOpts, c) ∧ connListen host c opts = .ok () := by
  constructor
  · intro h
    obtain ⟨⟨opts', logOpts', c'⟩, hprepare, h⟩ := bind_eq_ok.mp h
    obtain ⟨_, hlisten, h⟩ := bind_eq_ok.mp h
    cases h
    exact ⟨hprepare, hlisten⟩
  · rintro ⟨hprepare, hlisten⟩
    simp [bootServer, hprepare, hlisten, bind, Except.bind]

/-- When the server comes to listen, and as whom. Where all else works, it does
so exactly if it may take on its user, and either that user is root, or the group
is one that the process had from the beginning and the port is not below 1024;
the default port is. Then it runs as the user and in the group of its options. -/
theorem boot_rights (host : Host) (opts : ServerOpts) (logOpts : LogOpts) :
    ((∃ c, bootServer host = .ok (opts, logOpts, c)) ↔ host.Works ∧
      (∃ config, host.config = some config ∧ parseConfig config = .ok (opts, logOpts)) ∧
        ∃ uid gid, host.getpwnam opts.user = some uid ∧ host.getgrnam opts.group = some gid ∧
          host.credentials.Allows uid gid opts.address.2) ∧
    ∀ c, bootServer host = .ok (opts, logOpts, c) →
      host.getpwnam opts.user = some c.euid ∧ host.getgrnam opts.group = some c.egid := by
  have hids : ∀ c, bootServer host = .ok (opts, logOpts, c) → ∃ uid gid c₁,
      host.getpwnam opts.user = some uid ∧ host.getgrnam opts.group = some gid ∧
        host.credentials.setuid uid = some c₁ ∧ c₁.setgid gid = some c := fun c h =>
    setId_eq_ok.mp (prepare_eq_ok.mp (bootServer_eq_ok.mp h).1).2.2.1
  refine ⟨⟨?_, ?_⟩, fun c h => ?_⟩
  · rintro ⟨c, h⟩
    obtain ⟨uid, gid, c₁, huid, hgid, huser, hgroup⟩ := hids c h
    obtain ⟨hprepare, hlisten⟩ := bootServer_eq_ok.mp h
    obtain ⟨hargc, hconfig, -, hpatterns, hspool⟩ := prepare_eq_ok.mp hprepare
    obtain ⟨hsocket, hnonblock, hreuse, ⟨hfree, hport⟩, hlisten⟩ := connListen_eq_ok.mp hlisten
    obtain ⟨⟨hc, -⟩, hu, hg⟩ := Credentials.taken huser hgroup
    refine ⟨⟨hargc, hpatterns, hspool, hsocket, hnonblock, hreuse, hfree, hlisten⟩, hconfig, uid,
      gid, huid, hgid, hu, ?_⟩
    by_cases hroot : uid = 0
    · exact .inl hroot
    · exact .inr ⟨hg.resolve_left hroot, hport.resolve_right (hc ▸ hroot)⟩
  · rintro ⟨hworks, hconfig, uid, gid, huid, hgid, hu, hrights⟩
    obtain ⟨c₁, c, huser, hgroup⟩ :=
      Credentials.exists_taken hu (hrights.imp_right And.left)
    have hc := (Credentials.taken huser hgroup).1.1
    refine ⟨c, bootServer_eq_ok.mpr ⟨prepare_eq_ok.mpr ⟨hworks.argc, hconfig,
      setId_eq_ok.mpr ⟨uid, gid, c₁, huid, hgid, huser, hgroup⟩, hworks.patterns, hworks.spool⟩,
      connListen_eq_ok.mpr ⟨hworks.socket, hworks.nonblock, hworks.reuseAddr,
        ⟨hworks.addressFree, ?_⟩, hworks.listen⟩⟩⟩
    exact hrights.elim (fun hroot => .inr (hc.trans hroot)) fun h => .inl h.2
  · obtain ⟨uid, gid, c₁, huid, hgid, huser, hgroup⟩ := hids c h
    obtain ⟨⟨rfl, rfl⟩, -⟩ := Credentials.taken huser hgroup
    exact ⟨huid, hgid⟩

end SmtpProj.Server
