import Libsme.Library.History
import Libsme.Mailsend.Authentication

/-! The opening of a session up to the search for AUTH: where the capabilities come from, and
what is said encrypted. -/
namespace Libsme.Mailsend
open History
open Semantics.Rfc4648 (ascii)

/-- A line that a server sent behind the first one of a positive answer to a hello. -/
def Advertised (log : List Event) (cap : List UInt8) : Prop :=
  ∃ front tls extended domain first, ∃ lines : List (Option Reply), ∃ reply rest,
    log = front ++ .sent tls (.hello extended domain)::.heard tls (some first)::
      (lines.map (.heard tls) ++ .heard tls (some reply)::rest) ∧
    first.code = 250 ∧ first.sep = dash ∧ reply.line = cap

theorem Advertised.append {log : List Event} {cap : List UInt8} (advertised : Advertised log cap) (more : List Event) :
    Advertised (log ++ more) cap := by
  obtain ⟨front,tls,extended,domain,first,lines,reply,rest,rfl,code,sep,line⟩ := advertised
  exact ⟨front,tls,extended,domain,first,lines,reply,rest ++ more,by simp,code,sep,line⟩

namespace Session
variable {server : Server} {settings : Settings} {scope : Scope} {session after : Session}

def CapsHeard (session : Session) : Prop := ∀ cap ∈ session.serverCaps, Advertised session.log cap

theorem CapsHeard.extend (heard : CapsHeard session) {events : List Event} (log : after.log = session.log ++ events)
    (caps : after.serverCaps = session.serverCaps) : CapsHeard after := by
  intro cap member
  rw [caps] at member
  rw [log]
  exact (heard cap member).append events

/-- `base` ends with a hello and the first line of its positive answer. -/
structure Listing (base : List Event) (session : Session) : Prop where
  log : ∃ lines : List (Option Reply), session.log = base ++ lines.map (.heard session.ssl)
  caps : CapsHeard session

theorem capLines_listing {front : List Event} {extended : Bool} {domain : List UInt8} {first : Reply}
    (code : first.code = 250) (sep : first.sep = dash) (left : Nat) (session : Session)
    (listing : Listing (front ++ [.sent session.ssl (.hello extended domain),.heard session.ssl (some first)]) session) :
    CapsHeard (capLines left session).2 := by
  induction left generalizing session with
  | zero => exact listing.caps
  | succ left ih =>
    obtain ⟨⟨lines,log⟩,caps⟩ := listing
    obtain ⟨reply,longer,told,holds,same⟩ := @readSmtpLine_reply session
    have ssl : session.readSmtpLine.2.ssl = session.ssl := readSmtpLine_ssl
    unfold capLines
    generalize session.readSmtpLine = read at longer told holds same ssl ⊢
    obtain ⟨rc,next⟩ := read
    dsimp only at longer told holds same ssl ⊢
    have kept : CapsHeard next := caps.extend longer same
    rw [log,List.append_assoc] at longer
    have listed : next.log = front ++ [.sent session.ssl (.hello extended domain),.heard session.ssl (some first)] ++
        (lines ++ [reply]).map (.heard session.ssl) := by rw [longer,List.map_append]; rfl
    have noted : Listing (front ++ [.sent session.ssl (.hello extended domain),.heard session.ssl (some first)])
        (if rc = 0 then next.addServerCapToList next.smtpLine else next) ∧
        (if rc = 0 then next.addServerCapToList next.smtpLine else next).ssl = session.ssl := by
      cases reply with
      | none =>
        rw [if_neg (by rw [told]; decide)]
        exact ⟨⟨⟨_,by rw [ssl]; exact listed⟩,kept⟩,ssl⟩
      | some reply =>
        rw [if_pos (told.trans (if_neg (Option.some_ne_none _)))]
        refine ⟨⟨⟨_,by rw [addServerCapToList_ssl,addServerCapToList_log,ssl]; exact listed⟩,?_⟩,addServerCapToList_ssl.trans ssl⟩
        have advertised : Advertised next.log reply.line :=
          ⟨front,session.ssl,extended,domain,first,lines,reply,[],by rw [longer]; simp,code,sep,rfl⟩
        unfold addServerCapToList
        split
        · exact kept
        · intro cap member
          rcases List.mem_append.mp member with early | late
          · exact kept cap early
          · rw [List.mem_singleton.mp late,holds.line]
            exact advertised
    generalize (if rc = 0 then next.addServerCapToList next.smtpLine else next) = named at noted ⊢
    obtain ⟨noted,same⟩ := noted
    split
    · exact noted.caps
    · split
      · exact noted.caps
      · exact ih named (by rw [same]; exact noted)

theorem sayHelo_caps {domain : List UInt8} (heard : CapsHeard session) : CapsHeard (session.sayHelo server domain).2 := by
  obtain ⟨reply,spoke,_,holds⟩ := @exchange_reply server session (.hello session.sEsmtp domain)
  unfold sayHelo
  generalize session.exchange server (.hello session.sEsmtp domain) = answered at spoke holds ⊢
  obtain ⟨_,next⟩ := answered
  dsimp only at spoke holds ⊢
  have kept := heard.extend spoke.log spoke.caps
  split
  · exact kept
  · rename_i agreed
    split
    · rename_i several
      cases reply with
      | none => exact absurd holds.code (by rw [not_not.mp agreed]; decide)
      | some first =>
        have log := spoke.log
        rw [← spoke.ssl] at log
        have listing : Listing (session.log ++ [.sent next.ssl (.hello session.sEsmtp domain),.heard next.ssl (some first)]) next :=
          ⟨⟨[],by rw [log]; simp [spoken]⟩,kept⟩
        exact capLines_listing (by rw [← not_not.mp agreed,holds.code]; rfl)
          (by rw [← several]; exact (holds.sep first rfl).symm) 1000 next listing
    · exact kept

theorem smtpStartTls_caps (heard : CapsHeard session) : CapsHeard (session.smtpStartTls server settings).2 := by
  have runs := @smtpStartTls_runs server settings ⟨fun _ => True,True,False⟩ session trivial fun _ => trivial
  obtain ⟨events,log,_⟩ := runs.extends
  exact heard.extend log (runs.caps id)

theorem openSession_caps {domain : List UInt8} (heard : CapsHeard session) :
    CapsHeard (session.openSession server settings domain).2 := by
  have greets := @readGreetings_runs server settings .listening session
  obtain ⟨events,log,_⟩ := greets.extends
  have greeted : CapsHeard (session.readGreetings settings).2 := heard.extend log (greets.caps id)
  unfold openSession
  generalize session.readGreetings settings = read at greeted ⊢
  obtain ⟨rc,next⟩ := read
  dsimp only at greeted ⊢
  split
  · exact greeted
  · have saluted := @sayHelo_caps server next domain greeted
    generalize next.sayHelo server domain = answered at saluted ⊢
    obtain ⟨_,ready⟩ := answered
    dsimp only at saluted ⊢
    split
    · have started := @smtpStartTls_caps server settings ready saluted
      generalize ready.smtpStartTls server settings = answered at started ⊢
      obtain ⟨rc,secured⟩ := answered
      dsimp only at started ⊢
      split
      · exact sayHelo_caps started
      · exact started
    · exact saluted

end Session

def Event.tls : Event → Option Bool
  | .connected => none
  | .handshake _ => none
  | .sent tls _ => some tls
  | .heard tls _ => some tls

/-- A handshake succeeded. -/
def secured (log : List Event) : Bool := log.any (· = .handshake true)

/-- What is said and heard is encrypted just when a handshake succeeded before. -/
def Coherent (log : List Event) : Prop := Each (fun front event => ∀ tls ∈ event.tls, tls = secured front) log

namespace Session
variable {server : Server} {settings : Settings} {scope : Scope} {session after : Session}

structure Encrypts (session : Session) : Prop where
  coherent : Coherent session.log
  ssl : session.ssl = secured session.log

theorem Encrypts.concat {event : Event} (encrypts : Encrypts session) (told : ∀ tls ∈ event.tls, tls = session.ssl)
    (log : after.log = session.log ++ [event]) (ssl : after.ssl = (session.ssl || decide (event = .handshake true))) :
    Encrypts after := by
  constructor
  · rw [log]
    exact Each.concat encrypts.coherent fun tls member => (told tls member).trans encrypts.ssl
  · rw [ssl,log,encrypts.ssl]
    simp [secured]

theorem Runs.encrypts (runs : Runs server scope session after) (encrypts : Encrypts session) : Encrypts after := by
  apply runs.keeps ?_ encrypts
  intro before next step encrypts
  obtain ⟨log,ssl⟩ | ⟨command,_,log,ssl⟩ | ⟨reply,log,ssl⟩ | ⟨_,success,log,ssl⟩ := step.log
  · exact ⟨log ▸ encrypts.coherent,by rw [ssl,log]; exact encrypts.ssl⟩
  · exact encrypts.concat (by simp [Event.tls]) log (by simp [ssl])
  · exact encrypts.concat (by simp [Event.tls]) log (by simp [ssl])
  · exact encrypts.concat (by simp [Event.tls]) log (by simp [ssl])

end Session
end Libsme.Mailsend
