import Libsme.Library.Script
import Libsme.Mailsend.Steps

/-! The mail transaction of a session, from MAIL FROM on, as a script, and the courses it
can take. -/
namespace Libsme.Mailsend
open Script

/-- `smtp_code` after read_smtp_line. -/
def codeOf (reply : Option Reply) : Int := reply.elim (-1) Reply.code

/-- What smtp_RCPT_TO and smtp_DATA go on with: a line that cannot be read is no refusal. -/
def NotRefused (code : Int) (reply : Option Reply) : Prop := reply = none ∨ codeOf reply = code

def spoken (tls : Bool) (turns : List (Command × Option Reply)) : List Event :=
  turns.flatMap fun turn => [.sent tls turn.1,.heard tls turn.2]

def recipients (notify : Option (List UInt8)) (addresses : List (List UInt8)) :
    List (Command × (Option Reply → Prop)) :=
  addresses.map fun address => (.rcptTo address notify,NotRefused 250)

def beginning (sender : List UInt8) : List (Command × (Option Reply → Prop)) :=
  [(.mailFrom sender,fun reply => codeOf reply = 250)]

def envelope (sender : List UInt8) (notify : Option (List UInt8)) (addresses : List (List UInt8)) :
    List (Command × (Option Reply → Prop)) :=
  beginning sender ++ recipients notify addresses ++ [(.data,NotRefused 354)]

def contents (tls : Bool) (parts : List (List UInt8)) : List Event := parts.map fun part => .sent tls (.content part)

/-- The courses of a transaction, with its result. -/
inductive Course (settings : Settings) (sender : List UInt8) (tls : Bool) : List Event → Int → Prop
  | unwelcome {turns} (refused : Refused (beginning sender) turns) : Course settings sender tls (spoken tls turns) (-1)
  | refused {addresses first turns reply} (given : addresses.map some <+: settings.addresses)
      (welcome : Completed (beginning sender) first) (refused : Refused (recipients settings.notifyRcpt addresses) turns) :
      Course settings sender tls (spoken tls (first ++ (turns ++ [(.reset,reply)]))) (-1)
  | missing {addresses turns} (given : addresses.map some ++ [none] <+: settings.addresses)
      (accepted : Completed (beginning sender ++ recipients settings.notifyRcpt addresses) turns) :
      Course settings sender tls (spoken tls turns) (-1)
  | noData {addresses turns} (given : addresses.map some = settings.addresses)
      (refused : Refused (envelope sender settings.notifyRcpt addresses) turns) (asked : .data ∈ turns.map Prod.fst) :
      Course settings sender tls (spoken tls turns) (-1)
  | broken {addresses turns} (given : addresses.map some = settings.addresses)
      (accepted : Completed (envelope sender settings.notifyRcpt addresses) turns)
      (failed : settings.mail.smtpMail.2 ≠ 0) :
      Course settings sender tls (spoken tls turns ++ contents tls settings.mail.smtpMail.1) settings.mail.smtpMail.2
  | rejected {addresses turns reply} (given : addresses.map some = settings.addresses)
      (accepted : Completed (envelope sender settings.notifyRcpt addresses) turns)
      (whole : settings.mail.smtpMail.2 = 0) (rejected : codeOf reply ≠ 250) (more : List (Option Reply)) :
      Course settings sender tls (spoken tls turns ++ contents tls settings.mail.smtpMail.1 ++ spoken tls [(.eom,reply)] ++
        more.map (.heard tls)) (-1)
  | delivered {addresses turns reply goodbye} (given : addresses.map some = settings.addresses)
      (accepted : Completed (envelope sender settings.notifyRcpt addresses) turns)
      (whole : settings.mail.smtpMail.2 = 0) (taken : codeOf reply = 250) :
      Course settings sender tls (spoken tls turns ++ contents tls settings.mail.smtpMail.1 ++
        spoken tls [(.eom,reply),(.quit,goodbye)]) 0

namespace Session
variable {server : Server} {settings : Settings} {scope : Scope} {session after : Session}

/-- What an exchange leaves: `turns` were spoken. -/
structure Spoke (server : Server) (before after : Session) (turns : List (Command × Option Reply)) : Prop where
  log : after.log = before.log ++ spoken before.ssl turns
  ssl : after.ssl = before.ssl
  caps : after.serverCaps = before.serverCaps
  runs : Runs server .free before after

theorem Spoke.trans {middle : Session} {turns more : List (Command × Option Reply)}
    (first : Spoke server session middle turns) (second : Spoke server middle after more) : Spoke server session after (turns ++ more) := by
  constructor
  · rw [second.log,first.log,first.ssl,List.append_assoc]
    simp only [spoken,List.flatMap_append]
  · exact second.ssl.trans first.ssl
  · exact second.caps.trans first.caps
  · exact first.runs.trans second.runs

structure Holds (session : Session) (reply : Option Reply) : Prop where
  code : session.smtpCode = codeOf reply
  line : session.smtpLine = reply.elim [] Reply.line
  sep : ∀ read ∈ reply, session.smtpSep = read.sep

theorem readSmtpLine_reply : ∃ reply : Option Reply,
    session.readSmtpLine.2.log = session.log ++ [.heard session.ssl reply] ∧
      session.readSmtpLine.1 = (if reply = none then -1 else 0) ∧ Holds session.readSmtpLine.2 reply ∧
      session.readSmtpLine.2.serverCaps = session.serverCaps := by
  unfold readSmtpLine
  dsimp only
  split
  · rename_i unread
    exact ⟨none,by rw [unread],rfl,⟨rfl,rfl,fun _ never => absurd never (by simp)⟩,rfl⟩
  · rename_i reply read
    exact ⟨some reply,by rw [read],rfl,⟨rfl,rfl,fun _ same => Option.some.inj same ▸ rfl⟩,rfl⟩

theorem Runs.caps (unlisted : ¬scope.lists) (runs : Runs server scope session after) :
    after.serverCaps = session.serverCaps := by
  apply @Runs.keeps server scope session after (fun later => later.serverCaps = session.serverCaps) ?_ runs rfl
  intro before next step same
  cases step with
  | puts => exact same
  | reads =>
    obtain ⟨_,_,_,_,caps⟩ := @readSmtpLine_reply before
    exact caps.trans same
  | connects => exact same
  | notes => exact same
  | cap allowed => exact absurd allowed unlisted

theorem exchange_reply (command : Command) : ∃ reply : Option Reply,
    Spoke server session (session.exchange server command).2 [(command,reply)] ∧
      (session.exchange server command).1 = (if reply = none then -1 else 0) ∧
      Holds (session.exchange server command).2 reply := by
  obtain ⟨reply,log,rc,holds,caps⟩ := @readSmtpLine_reply (session.msockPuts server command)
  refine ⟨reply,⟨?_,readSmtpLine_ssl,caps,exchange_runs trivial⟩,rc,holds⟩
  rw [exchange,log]
  simp [msockPuts,happens,spoken]

theorem smtpMailFrom_turn (sender : List UInt8) : ∃ reply,
    Spoke server session (session.smtpMailFrom server sender).2 [(.mailFrom sender,reply)] ∧
      (session.smtpMailFrom server sender).1 = if codeOf reply = 250 then 0 else -1 := by
  obtain ⟨reply,spoke,_,⟨code,_,_⟩⟩ := @exchange_reply server session (.mailFrom sender)
  unfold smtpMailFrom
  generalize session.exchange server (.mailFrom sender) = answered at spoke code ⊢
  refine ⟨reply,spoke,?_⟩
  dsimp only
  rw [code,ite_not]

theorem smtpData_turn : ∃ reply, Spoke server session (session.smtpData server).2 [(.data,reply)] ∧
    ((session.smtpData server).1 = 0 ∧ NotRefused 354 reply ∨ (session.smtpData server).1 = -1 ∧ ¬NotRefused 354 reply) := by
  obtain ⟨reply,spoke,rc,⟨code,_,_⟩⟩ := @exchange_reply server session .data
  unfold smtpData
  generalize session.exchange server .data = answered at spoke rc code ⊢
  refine ⟨reply,spoke,?_⟩
  dsimp only
  rw [rc,code,NotRefused]
  by_cases unread : reply = none
  · simp [unread]
  · by_cases agreed : codeOf reply = 354 <;> simp [unread,agreed]

/-- The recipients are named one by one; the result tells how it ended. -/
theorem smtpRcptTo_turns (addresses : List (Option (List UInt8))) (session : Session) :
    (∃ named turns, named.map some = addresses ∧ (smtpRcptTo server settings addresses session).1 = 0 ∧
      Spoke server session (smtpRcptTo server settings addresses session).2 turns ∧
      Completed (recipients settings.notifyRcpt named) turns) ∨
    (∃ named turns, named.map some ++ [none] <+: addresses ∧ (smtpRcptTo server settings addresses session).1 = -1 ∧
      Spoke server session (smtpRcptTo server settings addresses session).2 turns ∧
      Completed (recipients settings.notifyRcpt named) turns) ∨
    ∃ named turns reply, named.map some <+: addresses ∧
      (smtpRcptTo server settings addresses session).1 = -1 ∧
      Spoke server session (smtpRcptTo server settings addresses session).2 (turns ++ [(.reset,reply)]) ∧
      Refused (recipients settings.notifyRcpt named) turns := by
  induction addresses generalizing session with
  | nil =>
    exact Or.inl ⟨[],[],rfl,rfl,⟨by simp [smtpRcptTo,spoken],rfl,rfl,Runs.refl⟩,.nil⟩
  | cons address rest ih =>
    cases address with
    | none => exact Or.inr (Or.inl ⟨[],[],⟨rest,rfl⟩,rfl,⟨by simp [smtpRcptTo,spoken],rfl,rfl,Runs.refl⟩,.nil⟩)
    | some address =>
      obtain ⟨reply,spoke,rc,⟨code,_,_⟩⟩ := @exchange_reply server session (.rcptTo address settings.notifyRcpt)
      rw [smtpRcptTo]
      generalize session.exchange server (.rcptTo address settings.notifyRcpt) = answered at spoke rc code ⊢
      dsimp only
      by_cases agreed : NotRefused 250 reply
      · have goes : ¬(answered.1 = 0 ∧ answered.2.smtpCode ≠ 250) := by
          rw [rc,code]
          rcases agreed with rfl | same <;> simp_all
        rw [if_neg goes]
        obtain ⟨named,turns,given,zero,more,done⟩ | ⟨named,turns,given,bad,more,done⟩ |
          ⟨named,turns,last,given,bad,more,left⟩ := ih answered.2
        · refine Or.inl ⟨address::named,_,by rw [List.map_cons,given],zero,spoke.trans more,.cons agreed done⟩
        · refine Or.inr (Or.inl ⟨address::named,_,(List.prefix_cons_inj _).mpr given,bad,spoke.trans more,.cons agreed done⟩)
        · refine Or.inr (Or.inr ⟨address::named,(_,reply)::turns,last,(List.prefix_cons_inj _).mpr given,
            bad,spoke.trans more,.later agreed left⟩)
      · have stops : answered.1 = 0 ∧ answered.2.smtpCode ≠ 250 := by
          rw [rc,code]
          simp_all [NotRefused]
        rw [if_pos stops]
        obtain ⟨last,reset,_,_⟩ := @exchange_reply server answered.2 .reset
        exact Or.inr (Or.inr ⟨[address],[(_,reply)],last,⟨rest,rfl⟩,rfl,
          spoke.trans reset,.here agreed⟩)

theorem smtpMail_contents : Runs server .free session (session.smtpMail server settings).2 ∧
    (session.smtpMail server settings).2.ssl = session.ssl ∧
    (session.smtpMail server settings).2.serverCaps = session.serverCaps ∧
    (session.smtpMail server settings).2.log = session.log ++ contents session.ssl settings.mail.smtpMail.1 := by
  unfold smtpMail
  dsimp only
  generalize settings.mail.smtpMail.1 = parts
  induction parts generalizing session with
  | nil => exact ⟨Runs.refl,rfl,rfl,(List.append_nil _).symm⟩
  | cons part parts ih =>
    obtain ⟨runs,ssl,caps,log⟩ := @ih (session.msockPuts server (.content part))
    refine ⟨(Step.puts session (.content part) trivial).runs.trans runs,ssl,caps,log.trans ?_⟩
    simp [msockPuts,happens,contents]

theorem smtpEom_turn : ∃ reply, codeOf reply = 250 ∧ (session.smtpEom server).1 = 0 ∧
      Spoke server session (session.smtpEom server).2 [(.eom,reply)] ∨
    codeOf reply ≠ 250 ∧ (session.smtpEom server).1 = -1 ∧ Runs server .free session (session.smtpEom server).2 ∧
      (session.smtpEom server).2.serverCaps = session.serverCaps ∧ ∃ more : List (Option Reply),
      (session.smtpEom server).2.log = session.log ++ spoken session.ssl [(.eom,reply)] ++ more.map (.heard session.ssl) := by
  obtain ⟨reply,spoke,rc,⟨code,_,_⟩⟩ := @exchange_reply server session .eom
  unfold smtpEom
  generalize session.exchange server .eom = answered at spoke rc code ⊢
  refine ⟨reply,?_⟩
  dsimp only
  by_cases taken : codeOf reply = 250
  · have read : reply ≠ none := by
      rintro rfl
      exact absurd taken (by decide)
    rw [if_neg (by rw [code]; exact not_not.mpr taken)]
    exact Or.inl ⟨taken,by rw [rc,if_neg read],spoke⟩
  · rw [if_pos (by rw [code]; exact taken)]
    have runs := @readSmtpMultiLines_runs server .listening answered.2
    obtain ⟨_,more,log⟩ := runs.listens
    exact Or.inr ⟨taken,rfl,spoke.runs.trans runs.free,(runs.caps id).trans spoke.caps,more,by rw [log,spoke.ssl,spoke.log]⟩

theorem mailTransaction_course (sender : List UInt8) :
    Runs server .free session (session.mailTransaction server settings sender).2 ∧
    (session.mailTransaction server settings sender).2.serverCaps = session.serverCaps ∧ ∃ events,
    (session.mailTransaction server settings sender).2.log = session.log ++ events ∧
      Course settings sender session.ssl events (session.mailTransaction server settings sender).1 := by
  obtain ⟨reply,mailed,rc⟩ := @smtpMailFrom_turn server session sender
  unfold mailTransaction
  generalize session.smtpMailFrom server sender = answered at mailed rc ⊢
  obtain ⟨_,addressing⟩ := answered
  dsimp only at mailed rc ⊢
  subst rc
  by_cases agreed : codeOf reply = 250
  swap
  · rw [if_neg agreed,if_pos (by decide)]
    exact ⟨mailed.runs,mailed.caps,_,mailed.log,.unwelcome (.here agreed)⟩
  rw [if_pos agreed,if_neg (by decide)]
  have opened : Completed (beginning sender) [(.mailFrom sender,reply)] := .cons agreed .nil
  have named := @smtpRcptTo_turns server settings settings.addresses addressing
  generalize smtpRcptTo server settings settings.addresses addressing = answered at named ⊢
  obtain ⟨rc,asking⟩ := answered
  dsimp only at named ⊢
  obtain ⟨addresses,turns,given,rfl,spoke,done⟩ | ⟨addresses,turns,given,rfl,spoke,done⟩ |
    ⟨addresses,turns,last,given,rfl,spoke,left⟩ := named
  · rw [if_neg (by decide)]
    have both := mailed.trans spoke
    have accepted := opened.append done
    obtain ⟨reply,asked,rc⟩ := @smtpData_turn server asking
    generalize asking.smtpData server = answered at asked rc ⊢
    obtain ⟨_,writing⟩ := answered
    dsimp only at asked rc ⊢
    obtain ⟨rfl,agreed⟩ | ⟨rfl,declined⟩ := rc
    swap
    · rw [if_pos (by decide)]
      refine ⟨(both.trans asked).runs,(both.trans asked).caps,_,(both.trans asked).log,.noData given (accepted.refused (.here declined)) (by simp)⟩
    rw [if_neg (by decide)]
    have three := both.trans asked
    have complete : Completed (envelope sender settings.notifyRcpt addresses) _ :=
      accepted.append (.cons agreed .nil)
    obtain ⟨runs,ssl,caps,log⟩ := @smtpMail_contents server settings writing
    have result : (writing.smtpMail server settings).1 = settings.mail.smtpMail.2 := rfl
    generalize writing.smtpMail server settings = answered at runs ssl caps log result ⊢
    obtain ⟨_,ending⟩ := answered
    dsimp only at runs ssl caps log result ⊢
    subst result
    rw [three.log,three.ssl,List.append_assoc] at log
    rw [three.caps] at caps
    by_cases whole : settings.mail.smtpMail.2 = 0
    swap
    · rw [if_pos whole]
      exact ⟨three.runs.trans runs,caps,_,log,.broken given complete whole⟩
    rw [if_neg (not_not.mpr whole)]
    have same : ending.ssl = session.ssl := ssl.trans three.ssl
    obtain ⟨reply,⟨taken,rc,spoke⟩ | ⟨rejected,rc,late,kept,more,longer⟩⟩ := @smtpEom_turn server ending
    · generalize ending.smtpEom server = answered at rc spoke ⊢
      obtain ⟨_,leaving⟩ := answered
      dsimp only at rc spoke ⊢
      subst rc
      rw [if_neg (by decide)]
      obtain ⟨goodbye,quits,_,_⟩ := @exchange_reply server leaving .quit
      have last := (spoke.trans quits).log
      rw [same,log,List.append_assoc] at last
      exact ⟨(three.runs.trans runs).trans (spoke.trans quits).runs,(spoke.trans quits).caps.trans caps,_,last,.delivered given complete whole taken⟩
    · generalize ending.smtpEom server = answered at rc longer late kept ⊢
      obtain ⟨_,leaving⟩ := answered
      dsimp only at rc longer late kept ⊢
      subst rc
      rw [if_pos (by decide)]
      rw [same,log,List.append_assoc,List.append_assoc] at longer
      refine ⟨(three.runs.trans runs).trans late,kept.trans caps,_,longer,?_⟩
      rw [← List.append_assoc]
      exact .rejected given complete whole rejected more
  · rw [if_pos (by decide)]
    exact ⟨(mailed.trans spoke).runs,(mailed.trans spoke).caps,_,(mailed.trans spoke).log,.missing given (opened.append done)⟩
  · rw [if_pos (by decide)]
    exact ⟨(mailed.trans spoke).runs,(mailed.trans spoke).caps,_,(mailed.trans spoke).log,.refused given opened left⟩

end Session
end Libsme.Mailsend
