import Libsme.Email.SendMail
import Libsme.Semantics.Rfc5321

/-! What a receiver makes of the bytes of send_mail_message. The message is sent as it is,
so that its lines with a leading dot do not come through. -/
namespace Libsme.Email
open Memory (cstr)
open Semantics.Rfc4648 (ascii)
open Semantics.Rfc5321 (crlf dot stream receiveData)

def Event.block : Event → Option (List UInt8)
  | .send _ block => some block
  | _ => none

def transmission (outcomes : Outcomes) (mail : Mail) : List UInt8 :=
  ((sendMailMessage outcomes mail).log.filterMap Event.block).flatten

def headerBlock (mail : Mail) : List (List UInt8) :=
  [ascii "Date: " ++ cstr mail.date,ascii "From: " ++ cstr mail.sender,ascii "To: " ++ cstr mail.recipient,
    ascii "Subject: " ++ cstr mail.subject,ascii "X-Mailer: " ++ mailAgent,ascii "Reply-To: " ++ cstr mail.replyto]

/-- A mail whose message is made of lines and whose envelope fits, and a session in which
it is sent. -/
structure Delivery where
  mail : Mail
  outcomes : Outcomes
  lines : List (List UInt8)
  message : cstr mail.msg = stream lines
  whole : ∀ line ∈ lines, ¬crlf <:+: line
  values : ∀ value ∈ [mail.date,mail.sender,mail.recipient,mail.subject,mail.replyto],
    (13 : UInt8) ∉ cstr value ∧ (10 : UInt8) ∉ cstr value
  fits : (stream (headerBlock mail) ++ crlf).length < bufsize
  sent : outcomes.sent .header = true ∧ outcomes.sent .body = true ∧ outcomes.sent .terminator = true

/-- The receiver gets the header block, an empty line and the message, and nothing is left
over. -/
def Delivery.Transparent (delivery : Delivery) : Prop :=
  receiveData (transmission delivery.outcomes delivery.mail) =
    some (stream (headerBlock delivery.mail) ++ crlf ++ cstr delivery.mail.msg ++ crlf,[])

theorem no_crlf_inside {line : List UInt8} (absent : (10 : UInt8) ∉ line) : ¬crlf <:+: line :=
  fun inside => absent (inside.subset (by decide))

section Delivery
variable (delivery : Delivery)

theorem headerBlock_whole : ∀ line ∈ headerBlock delivery.mail, ¬crlf <:+: line := by
  have absent : ∀ value ∈ [delivery.mail.date,delivery.mail.sender,delivery.mail.recipient,
      delivery.mail.subject,delivery.mail.replyto], ∀ name : List UInt8, (10 : UInt8) ∉ name →
      ¬crlf <:+: name ++ cstr value := by
    intro value member name plain
    apply no_crlf_inside
    rw [List.mem_append,not_or]
    exact ⟨plain,(delivery.values value member).2⟩
  intro line member
  simp only [headerBlock,List.mem_cons,List.not_mem_nil,or_false] at member
  rcases member with rfl | rfl | rfl | rfl | rfl | rfl
  · exact absent _ (by simp) _ (by decide)
  · exact absent _ (by simp) _ (by decide)
  · exact absent _ (by simp) _ (by decide)
  · exact absent _ (by simp) _ (by decide)
  · exact no_crlf_inside (by decide +kernel)
  · exact absent _ (by simp) _ (by decide)

theorem headerBlock_plain (mail : Mail) : ∀ line ∈ headerBlock mail, line.head? ≠ some dot := by
  intro line member
  simp only [headerBlock,List.mem_cons,List.not_mem_nil,or_false] at member
  rcases member with rfl | rfl | rfl | rfl | rfl | rfl <;> simp [ascii,dot]

theorem messageHeader_eq : messageHeader delivery.mail = stream (headerBlock delivery.mail) ++ crlf := by
  have sender : ascii "\r\nFrom: " = crlf ++ ascii "From: " := rfl
  have recipient : ascii "\r\nTo: " = crlf ++ ascii "To: " := rfl
  have subject : ascii "\r\nSubject: " = crlf ++ ascii "Subject: " := rfl
  have agent : ascii "\r\nX-Mailer: " = crlf ++ ascii "X-Mailer: " := rfl
  have replyto : ascii "\r\nReply-To: " = crlf ++ ascii "Reply-To: " := rfl
  have ends : ascii "\r\n\r\n" = crlf ++ crlf := rfl
  have fits : (stream (headerBlock delivery.mail) ++ crlf).length ≤ bufsize-1 := Nat.le_pred_of_lt delivery.fits
  rw [← List.take_of_length_le fits,messageHeader,sender,recipient,subject,agent,replyto,ends]
  simp only [stream,headerBlock,List.flatMap_cons,List.flatMap_nil,List.append_assoc,List.nil_append]

theorem transmission_eq : transmission delivery.outcomes delivery.mail =
    stream (headerBlock delivery.mail ++ []::delivery.lines) ++ ascii "\r\n.\r\n" := by
  obtain ⟨header,body,terminator⟩ := delivery.sent
  have blocks : (sendMailMessage delivery.outcomes delivery.mail).log.filterMap Event.block =
      [messageHeader delivery.mail,cstr delivery.mail.msg,ascii "\r\n.\r\n"] := by
    simp [sendMailMessage,header,body,terminator,Event.block]
  rw [transmission,blocks,messageHeader_eq,delivery.message]
  simp only [stream,List.flatten_cons,List.flatten_nil,List.flatMap_append,List.flatMap_cons,List.append_assoc,
    List.append_nil,List.nil_append]

theorem receiveData_terminator : receiveData (ascii "\r\n.\r\n") = some (crlf,[]) := by
  have split : ascii "\r\n.\r\n" = [] ++ crlf ++ ([dot] ++ crlf ++ []) := rfl
  rw [split,Semantics.Rfc5321.receiveData_line (no_crlf_inside List.not_mem_nil),if_neg (List.cons_ne_nil _ _).symm,
    Semantics.Rfc5321.receiveData_line (no_crlf_inside (by decide)),if_pos rfl]
  rfl

theorem received_iff : delivery.Transparent ↔
    ∀ line ∈ headerBlock delivery.mail ++ []::delivery.lines, line.head? ≠ some dot := by
  have whole : ∀ line ∈ headerBlock delivery.mail ++ []::delivery.lines, ¬crlf <:+: line := by
    intro line member
    rcases List.mem_append.mp member with header | rest
    · exact headerBlock_whole delivery line header
    · rcases List.mem_cons.mp rest with rfl | body
      · exact no_crlf_inside List.not_mem_nil
      · exact delivery.whole line body
  have text : stream (headerBlock delivery.mail) ++ crlf ++ cstr delivery.mail.msg ++ crlf =
      stream (headerBlock delivery.mail ++ []::delivery.lines) ++ crlf := by
    rw [delivery.message]
    simp only [stream,List.flatMap_append,List.flatMap_cons,List.append_assoc,List.nil_append]
  rw [Delivery.Transparent,transmission_eq,text,
    Semantics.Rfc5321.receiveData_stream_iff whole receiveData_terminator]

/-- A receiver gets the message as it is just when none of its lines begins with a dot. -/
theorem transparent_iff : delivery.Transparent ↔ ∀ line ∈ delivery.lines, line.head? ≠ some dot := by
  rw [received_iff]
  simp only [List.forall_mem_append,List.forall_mem_cons]
  exact ⟨fun plain => plain.2.2,fun plain => ⟨headerBlock_plain delivery.mail,by simp,plain⟩⟩

end Delivery

def dottedMail : Delivery where
  mail := ⟨ascii "a@b",ascii "c@d",ascii "s",ascii "a@b",ascii "x\r\n.\r\nRSET\r\n",ascii "Thu, 01 Jan 1970"⟩
  outcomes := refusedMail
  lines := [ascii "x",ascii ".",ascii "RSET"]
  message := by decide +kernel
  whole := by decide +kernel
  values := by decide +kernel
  fits := by decide +kernel
  sent := ⟨rfl,rfl,rfl⟩

theorem not_transparent_dottedMail : ¬∀ delivery : Delivery, delivery.Transparent := fun always =>
  (received_iff dottedMail).mp (always dottedMail) (ascii ".") (by decide +kernel) rfl

end Libsme.Email
