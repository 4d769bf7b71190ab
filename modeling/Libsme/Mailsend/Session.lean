import Libsme.Library.CString
import Libsme.Mailsend.Base64
import Libsme.Mailsend.Message

/-! The SMTP session of mailsend (smtp.c over msock.c): send_the_mail against any server. What
the server sends is a function of all that happened on the connection. The answers of recv
and SSL_read come byte by byte, with none for an error, a timeout or the end. -/
namespace Libsme.Mailsend
open Memory (cstr)
open Semantics.Rfc4648 (ascii)
open Semantics.Rfc5321 (crlf)

/-- sockGets and sockGetsSSL: up to `count` bytes of the next line without CR and LF. -/
def sockGets (count : Nat) : List UInt8 → List (Option UInt8) → Option (List UInt8) × List (Option UInt8)
  | _, [] => (none,[])
  | _, none::rest => (none,rest)
  | stored, some lastRead::rest =>
    if lastRead = 10 then (some stored,rest)
    else if stored.length < count ∧ lastRead ≠ 13 then sockGets count (stored ++ [lastRead]) rest
    else sockGets count stored rest

/-- atoi: blanks, a sign, digits. -/
def atoi (string : List UInt8) : Int :=
  match string.dropWhile CString.isspace with
  | 45::rest => -(CString.magnitude 10 rest : Int)
  | 43::rest => CString.magnitude 10 rest
  | rest => CString.magnitude 10 rest

structure Reply where
  code : Int
  sep : UInt8
  line : List UInt8
deriving DecidableEq

/-- What read_smtp_line makes of a line that msock_gets gives; no reply where it returns -1. -/
def parseReply (lbuf : List UInt8) : Option Reply :=
  if 5 ≤ lbuf.length then some ⟨atoi (cstr (lbuf.take 3)),lbuf.getD 3 0,cstr (lbuf.drop 4)⟩ else none

def dash : UInt8 := 45
def space : UInt8 := 32

def tolower (c : UInt8) : UInt8 := if 65 ≤ c ∧ c ≤ 90 then c+32 else c

def startsWith : List UInt8 → List UInt8 → Bool
  | _, [] => true
  | [], _::_ => false
  | s::ss, t::ts => tolower s = tolower t && startsWith ss ts

def mutilsStristr : List UInt8 → List UInt8 → Option (List UInt8)
  | [], _ => none
  | s::ss, t => if startsWith (s::ss) t then some (s::ss) else mutilsStristr ss t

inductive Mechanism where
  | cramMd5
  | login
  | plain
deriving DecidableEq

def Mechanism.name : Mechanism → List UInt8
  | .cramMd5 => ascii "CRAM-MD5"
  | .login => ascii "LOGIN"
  | .plain => ascii "PLAIN"

inductive Command where
  | hello (extended : Bool) (domain : List UInt8)
  | startTls
  | auth (mechanism : Mechanism)
  | credential (mechanism : Mechanism) (text : List UInt8)
  | mailFrom (sender : List UInt8)
  | rcptTo (address : List UInt8) (notify : Option (List UInt8))
  | reset
  | data
  | content (part : List UInt8)
  | eom
  | quit
deriving DecidableEq

/-- The string that msock_puts gets. -/
def Command.bytes : Command → List UInt8
  | hello extended domain => snprintf (ascii (if extended then "EHLO " else "HELO ") ++ domain ++ crlf)
  | startTls => ascii "STARTTLS\r\n"
  | auth mechanism => ascii "AUTH " ++ mechanism.name ++ crlf
  | credential .plain text => snprintf (ascii "AUTH PLAIN " ++ text ++ crlf)
  | credential _ text => snprintf (text ++ crlf)
  | mailFrom sender => snprintf (ascii "MAIL FROM: <" ++ sender ++ ascii ">\r\n")
  | rcptTo address (some notify) => snprintf (ascii "RCPT TO: " ++ address ++ ascii " " ++ notify ++ crlf)
  | rcptTo address none => snprintf (ascii "RCPT TO: <" ++ address ++ ascii ">\r\n")
  | reset => ascii "RSET\r\n"
  | data => ascii "DATA\r\n"
  | content part => part
  | eom => eomBytes
  | quit => ascii "QUIT\r\n"

inductive Event where
  | connected
  | handshake (success : Bool)
  | sent (tls : Bool) (command : Command)
  | heard (tls : Bool) (reply : Option Reply)
deriving DecidableEq

/-- `reacts` tells what can be read next after what happened, and `accepts` whether
SSL_connect succeeds. -/
structure Server where
  reacts : List Event → List (Option UInt8)
  accepts : List Event → Bool

/-- The arguments of send_the_mail and the settings it reads. `openssl` is HAVE_OPENSSL, and
`encodeCramMd5` is encode_cram_md5, which rests on it; `sslInitialized` tells whether
initialize_openssl has set the SSL that msock_get_ssl gives. -/
structure Settings where
  openssl : Bool
  sslInitialized : Bool
  encodeCramMd5 : List UInt8 → List UInt8 → List UInt8 → Option (List UInt8)
  connects : Bool
  heloDomain : Option (List UInt8)
  addresses : List (Option (List UInt8))
  notifyRcpt : Option (List UInt8)
  doSsl : Bool
  doStarttls : Bool
  doAuth : Bool
  authCramMd5 : Bool
  authLogin : Bool
  authPlain : Bool
  quiet : Bool
  esmtp : Bool
  username : List UInt8
  userpass : List UInt8
  letter : Letter

/-- What is sent; the subject is MAILSEND_DEF_SUB, the empty string, when none is given. -/
def Settings.mail (settings : Settings) : Letter :=
  {settings.letter with subject := some (settings.letter.subject.getD [])}

structure Session where
  inbox : List (Option UInt8)
  ssl : Bool
  smtpCode : Int
  smtpSep : UInt8
  smtpLine : List UInt8
  sEsmtp : Bool
  serverCaps : List (List UInt8)
  log : List Event

def initial : Session := ⟨[],false,0,0,[],false,[],[]⟩

inductive Outcome where
  | returned (rc : Int)
  | exited
deriving DecidableEq

namespace Session
variable (server : Server) (settings : Settings) (session : Session)

def happens (event : Event) : Session :=
  {session with log := session.log ++ [event], inbox := session.inbox ++ server.reacts (session.log ++ [event])}

def msockPuts (command : Command) : Session := session.happens server (.sent session.ssl command)

/-- SSL_connect reads the socket itself. -/
def sslConnect : Bool × Session :=
  let success := server.accepts session.log
  let log := session.log ++ [.handshake success]
  (success,{session with inbox := server.reacts log, ssl := session.ssl || success, log})

def readSmtpLine : Int × Session :=
  let (lbuf,inbox) := sockGets (bufsiz-1) [] session.inbox
  let reply := lbuf.bind parseReply
  let log := session.log ++ [.heard session.ssl reply]
  match reply with
  | none => (-1,{session with inbox, smtpCode := -1, smtpLine := [], log})
  | some reply =>
    (0,{session with inbox, smtpCode := reply.code, smtpSep := reply.sep, smtpLine := reply.line, log})

/-- msock_puts and read_smtp_line. -/
def exchange (command : Command) : Int × Session := (session.msockPuts server command).readSmtpLine

def addServerCapToList (cap : List UInt8) : Session :=
  if cap = [] then session else {session with serverCaps := session.serverCaps ++ [cap]}

def checkServerCap (what : List UInt8) : Option (List UInt8) :=
  session.serverCaps.find? fun cap => (mutilsStristr cap what).isSome

/-- The loop of read_smtp_multi_lines, with the lines left of its limit. -/
def moreLines : Nat → Session → Int × Session
  | 0, session => (1,session)
  | left+1, session =>
    let (rc,session) := session.readSmtpLine
    if rc < 0 then (0,{session with smtpSep := space})
    else if left = 0 then (1,session)
    else if session.smtpSep ≠ dash then (0,{session with smtpSep := space})
    else moreLines left session

def readSmtpMultiLines : Int × Session :=
  if session.smtpSep = dash then moreLines 100 session else (0,{session with smtpSep := space})

def noteEsmtp : Session :=
  if (mutilsStristr session.smtpLine (ascii "ESMTP")).isSome then {session with sEsmtp := true} else session

def greetingLines : Nat → Session → Int × Session
  | 0, session => (-1,session)
  | left+1, session =>
    let (rc,session) := session.readSmtpLine
    if rc < 0 then (rc,session)
    else if left = 0 then (-1,session)
    else
      let session := session.noteEsmtp
      if session.smtpSep ≠ dash then (rc,session) else greetingLines left session

def readGreetings : Int × Session :=
  let (rc,session) := session.readSmtpLine
  if rc < 0 then (rc,{session with smtpSep := space})
  else
    let session : Session := {session with sEsmtp := settings.esmtp}
    if session.smtpCode ≠ 220 then
      let (_,session) := session.readSmtpMultiLines
      (-1,{session with smtpSep := space})
    else
      let session := session.noteEsmtp
      let (rc,session) := if session.smtpSep = dash then greetingLines 100 session else (rc,session)
      (rc,{session with smtpSep := space})

def capLines : Nat → Session → Int × Session
  | 0, session => (0,session)
  | left+1, session =>
    let (rc,session) := session.readSmtpLine
    let session := if rc = 0 then session.addServerCapToList session.smtpLine else session
    if left = 0 then (rc,session)
    else if rc < 0 ∨ session.smtpSep ≠ dash then (rc,session)
    else capLines left session

def sayHelo (heloDomain : List UInt8) : Int × Session :=
  let (rc,session) := session.exchange server (.hello session.sEsmtp heloDomain)
  if session.smtpCode ≠ 250 then (-1,session)
  else
    let (rc,session) := if session.smtpSep = dash then capLines 1000 session else (rc,session)
    (rc,{session with smtpSep := space})

def turnOnRawSsl : Session :=
  if settings.openssl && settings.sslInitialized then (session.sslConnect server).2 else session

def smtpStartTls : Int × Session :=
  let (_,session) := session.exchange server .startTls
  if session.smtpCode ≠ 220 then (-1,session)
  else if settings.openssl then
    if settings.sslInitialized then
      let (success,session) := session.sslConnect server
      (if success then 0 else -1,session)
    else (-1,session)
  else (-1,session)

/-- `none`: authenticated. Else the result with which the session is left. -/
def tryCramMd5 (rc : Int) : Option Int × Session :=
  if settings.username = [] then (some (-1),session)
  else if settings.userpass = [] then (some (-1),session)
  else if !settings.openssl then (some rc,session)
  else
    let (_,session) := session.exchange server (.auth .cramMd5)
    if session.smtpCode ≠ 334 then (some (-1),session)
    else
      match settings.encodeCramMd5 session.smtpLine settings.username settings.userpass with
      | none => (some (-1),session)
      | some cmd5 =>
        let (_,session) := session.exchange server (.credential .cramMd5 cmd5)
        if session.smtpCode ≠ 235 then (some (-1),session) else (none,session)

def tryLogin : Option Int × Session :=
  if settings.username = [] then (some (-1),session)
  else if settings.userpass = [] then (some (-1),session)
  else
    let (_,session) := session.exchange server (.auth .login)
    if session.smtpCode ≠ 334 then (some (-1),session)
    else
      match mutilsEncodeBase64Noformat settings.username with
      | none => (some (-1),session)
      | some b64 =>
        let (_,session) := session.exchange server (.credential .login b64)
        if session.smtpCode ≠ 334 then (some (-1),session)
        else
          match mutilsEncodeBase64Noformat settings.userpass with
          | none => (some (-1),session)
          | some b64 =>
            let (_,session) := session.exchange server (.credential .login b64)
            if session.smtpCode ≠ 235 then (some (-1),session) else (none,session)

def tryPlain : Option Int × Session :=
  if settings.username = [] then (some (-1),session)
  else if settings.userpass = [] then (some (-1),session)
  else
    match mutilsEncodeBase64Noformat (0::settings.username ++ 0::settings.userpass) with
    | none => (some (-1),session)
    | some b64 =>
      let (_,session) := session.exchange server (.credential .plain b64)
      if session.smtpCode ≠ 235 then (some (-1),session) else (none,session)

/-- From the search for AUTH to the label MailFrom, which `none` stands for. -/
def authenticate (rc : Int) : Option Outcome × Session :=
  if !(settings.doAuth || settings.authCramMd5 || settings.authLogin || settings.authPlain) then (none,session)
  else if (session.checkServerCap (ascii "AUTH")).isNone then (none,session)
  else if settings.authCramMd5 && (session.checkServerCap Mechanism.cramMd5.name).isSome then
    let (left,session) := session.tryCramMd5 server settings rc
    (left.map .returned,session)
  else if settings.authLogin && (session.checkServerCap Mechanism.login.name).isSome then
    let (left,session) := session.tryLogin server settings
    (left.map .returned,session)
  else if settings.authPlain && (session.checkServerCap Mechanism.plain.name).isSome then
    let (left,session) := session.tryPlain server settings
    (left.map .returned,session)
  else if settings.quiet then (none,session)
  else (some .exited,session)

def smtpMailFrom (sender : List UInt8) : Int × Session :=
  let (_,session) := session.exchange server (.mailFrom sender)
  (if session.smtpCode ≠ 250 then -1 else 0,session)

def smtpRcptTo : List (Option (List UInt8)) → Session → Int × Session
  | [], session => (0,session)
  | none::_, session => (-1,session)
  | some address::rest, session =>
    let (rc,session) := session.exchange server (.rcptTo address settings.notifyRcpt)
    if rc = 0 ∧ session.smtpCode ≠ 250 then (-1,(session.exchange server .reset).2)
    else smtpRcptTo rest session

def smtpData : Int × Session :=
  let (rc,session) := session.exchange server .data
  (if rc = 0 ∧ session.smtpCode ≠ 354 then -1 else 0,session)

def smtpMail : Int × Session :=
  (settings.mail.smtpMail.2,
    settings.mail.smtpMail.1.foldl (fun session part => session.msockPuts server (.content part)) session)

def smtpEom : Int × Session :=
  let (rc,session) := session.exchange server .eom
  if session.smtpCode ≠ 250 then (-1,session.readSmtpMultiLines.2) else (rc,session)

def smtpQuit : Session := (session.exchange server .quit).2

/-- From the label MailFrom on. -/
def mailTransaction (sender : List UInt8) : Int × Session :=
  let (rc,session) := session.smtpMailFrom server sender
  if rc ≠ 0 then (rc,session)
  else
    let (rc,session) := smtpRcptTo server settings settings.addresses session
    if rc ≠ 0 then (rc,session)
    else
      let (rc,session) := session.smtpData server
      if rc ≠ 0 then (rc,session)
      else
        let (rc,session) := session.smtpMail server settings
        if rc ≠ 0 then (rc,session)
        else
          let (rc,session) := session.smtpEom server
          if rc ≠ 0 then (rc,session) else (rc,session.smtpQuit server)

/-- From the greeting to the search for AUTH; a result with which the session is left, or the
value of `rc`. -/
def openSession (heloDomain : List UInt8) : Except Int Int × Session :=
  let (rc,session) := session.readGreetings settings
  if rc < 0 then (.error rc,session)
  else
    let (_,session) := session.sayHelo server heloDomain
    if settings.doStarttls && ((session.checkServerCap (ascii "STARTTLS")).isSome ||
        (session.checkServerCap (ascii "TLS")).isSome) then
      let (rc,session) := session.smtpStartTls server settings
      (.ok rc,if rc = 0 then (session.sayHelo server heloDomain).2 else session)
    else (.ok rc,session)

def converse (sender heloDomain : List UInt8) : Outcome × Session :=
  match session.openSession server settings heloDomain with
  | (.error rc,session) => (.returned rc,session)
  | (.ok rc,session) =>
    match session.authenticate server settings rc with
    | (some outcome,session) => (outcome,session)
    | (none,session) =>
      let (rc,session) := session.mailTransaction server settings sender
      (.returned rc,session)

end Session

def sendTheMail (server : Server) (settings : Settings) : Outcome × Session :=
  match settings.addresses, settings.letter.sender, settings.heloDomain with
  | [], _, _ => (.returned (-1),initial)
  | _, none, _ => (.returned (-1),initial)
  | _, _, none => (.returned (-1),initial)
  | _::_, some sender, some heloDomain =>
    if settings.connects then
      let session := initial.happens server .connected
      let session := if settings.doSsl then session.turnOnRawSsl server settings else session
      session.converse server settings sender heloDomain
    else (.returned (-1),initial)

end Libsme.Mailsend
