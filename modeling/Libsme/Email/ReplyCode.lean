import Libsme.Library.CString
import Libsme.Semantics.Rfc4648

/-! send_command of smtpfuncs.cpp, and how it classifies a reply, for any prefix, command
and suffix. Command and reply share one buffer of 4096 bytes, which strncat does not know
the end of, and the code is looked for in all of it. -/
namespace Libsme.Email
open Memory (cstr occurrence overwrite)
open Semantics.Rfc4648 (ascii)

def bufsize : Nat := 4096

def mailOk : Nat := 250
def mailGoAhead : Nat := 354
def mailGoodbye : Nat := 221

/-- sprintf with "%d". -/
def codeText (code : Nat) : List UInt8 := (Nat.toDigits 10 code).map fun c => UInt8.ofNat c.toNat

/-- A store into `s_buf`; after one that leaves it nothing is known of the program. -/
def store (buf : List UInt8) (start : Nat) (block : List UInt8) : Option (List UInt8) :=
  if start+block.length ≤ buf.length then some (overwrite buf start block) else none

def strncpy (buf src : List UInt8) (n : Nat) : Option (List UInt8) :=
  store buf 0 ((cstr src).take n ++ List.replicate (n-(cstr src).length) 0)

/-- strncat, which also writes past the n characters that it may take, with the terminator. -/
def strncat (buf src : List UInt8) (n : Nat) : Option (List UInt8) :=
  store buf (cstr buf).length ((cstr src).take n ++ [0])

/-- A call of send_command: `opening` is its prefix, `behind` the stack behind its buffer;
`reply` is what the recv stores, which is nothing when it fails. -/
structure Exchange where
  opening : List UInt8
  cmd : List UInt8
  suffix : List UInt8
  retCode : Nat
  behind : List UInt8
  sent : Bool
  reply : List UInt8
  fits : reply.length ≤ bufsize

namespace Exchange
variable (exchange : Exchange)

/-- `s_buf` before the send. -/
def command : Option (List UInt8) := do
  let buf ← strncpy (List.replicate bufsize 0) exchange.opening bufsize
  let buf ← strncat buf exchange.cmd bufsize
  strncat buf exchange.suffix bufsize

/-- strstr(s_buf, s_buf2) after the recv, which reads on behind a buffer without a terminator. -/
def found (buf : List UInt8) : Bool :=
  (occurrence (codeText exchange.retCode) (cstr (overwrite buf 0 exchange.reply ++ exchange.behind))).isSome

def succeeds : Option Bool := do
  let buf ← exchange.command
  if exchange.sent then some (exchange.found buf) else some false

def Classified : Prop :=
  ∃ success, exchange.succeeds = some success ∧
    (success = true ↔ exchange.sent = true ∧ codeText exchange.retCode <+: exchange.reply)

def commandText : List UInt8 := cstr exchange.opening ++ cstr exchange.cmd ++ cstr exchange.suffix

def Fits : Prop := exchange.commandText.length < bufsize

/-- What a reply without a zero byte has behind it: the rest of the command, or what lies
behind the buffer when it fills it. -/
def leftover : List UInt8 :=
  if exchange.reply.length < bufsize then exchange.commandText.drop exchange.reply.length else cstr exchange.behind

def heard : List UInt8 :=
  if 0 ∈ exchange.reply then cstr exchange.reply else exchange.reply ++ exchange.leftover

def Passes : Prop := exchange.sent = true ∧ codeText exchange.retCode <:+: exchange.heard

def Unambiguous : Prop :=
  exchange.Fits ∧ (exchange.Passes → codeText exchange.retCode <+: exchange.reply)

end Exchange

def filled (string : List UInt8) : List UInt8 := string ++ List.replicate (bufsize-string.length) 0

theorem filled_length {string : List UInt8} (short : string.length ≤ bufsize) : (filled string).length = bufsize := by
  rw [filled,List.length_append,List.length_replicate]
  omega

theorem cstr_filled {string : List UInt8} (clean : 0 ∉ string) (short : string.length < bufsize) :
    cstr (filled string) = string := by
  obtain ⟨zeros,size⟩ := Nat.exists_eq_add_one_of_ne_zero (Nat.sub_ne_zero_of_lt short)
  rw [filled,size,List.replicate_succ]
  exact Memory.cstr_terminated clean _

theorem strncpy_eq (src : List UInt8) :
    strncpy (List.replicate bufsize 0) src bufsize = some (filled ((cstr src).take bufsize)) := by
  have zeros : bufsize-((cstr src).take bufsize).length = bufsize-(cstr src).length := by
    rw [List.length_take]
    omega
  have size : ((cstr src).take bufsize ++ List.replicate (bufsize-(cstr src).length) (0 : UInt8)).length = bufsize := by
    rw [List.length_append,List.length_take,List.length_replicate]
    omega
  rw [strncpy,store,if_pos (by rw [size,List.length_replicate,Nat.zero_add]),Memory.overwrite_start,size,
    List.drop_eq_nil_of_le (by rw [List.length_replicate]),List.append_nil,filled,zeros]

theorem overwrite_filled {string : List UInt8} (more : List UInt8) (room : (string ++ more).length < bufsize) :
    overwrite (filled string) string.length (more ++ [0]) = filled (string ++ more) := by
  have zeros : bufsize-string.length-(more ++ [0]).length+1 = bufsize-(string ++ more).length := by
    simp only [List.length_append,List.length_singleton] at room ⊢
    omega
  rw [overwrite,filled,List.take_left' rfl,← List.drop_drop,List.drop_left' rfl,List.drop_replicate,filled,
    ← zeros,List.replicate_succ]
  simp only [List.append_assoc,List.singleton_append]

theorem strncat_filled {string : List UInt8} (clean : 0 ∉ string) (short : string.length < bufsize)
    (src : List UInt8) : strncat (filled string) src bufsize =
      if (string ++ cstr src).length < bufsize then some (filled (string ++ cstr src)) else none := by
  rw [strncat,store,cstr_filled clean short,filled_length (Nat.le_of_lt short)]
  by_cases room : (string ++ cstr src).length < bufsize
  · have whole : (cstr src).take bufsize = cstr src := by
      apply List.take_of_length_le
      rw [List.length_append] at room
      omega
    rw [whole,overwrite_filled _ room,if_pos room,if_pos]
    rw [List.length_append] at room ⊢
    rw [List.length_singleton]
    omega
  · rw [if_neg room,if_neg]
    rw [List.length_append] at room ⊢
    rw [List.length_take,List.length_singleton]
    omega

theorem strncat_full {buf : List UInt8} (full : 0 ∉ buf) (src : List UInt8) (n : Nat) : strncat buf src n = none := by
  rw [strncat,store,cstr,Memory.text_of_not_mem full,if_neg]
  rw [List.length_append,List.length_singleton]
  omega

namespace Exchange
variable (exchange : Exchange)

theorem command_of_fits (fits : exchange.Fits) : exchange.command = some (filled exchange.commandText) := by
  have clean (src : List UInt8) : 0 ∉ cstr src := Memory.terminator_not_mem_text 0 src
  have joined : 0 ∉ cstr exchange.opening ++ cstr exchange.cmd := by
    rw [List.mem_append,not_or]
    exact ⟨clean _,clean _⟩
  have whole : (cstr exchange.opening ++ cstr exchange.cmd ++ cstr exchange.suffix).length < bufsize := fits
  have goes : (cstr exchange.opening ++ cstr exchange.cmd).length < bufsize := by
    rw [List.length_append] at whole
    omega
  have starts : (cstr exchange.opening).length < bufsize := by
    rw [List.length_append] at goes
    omega
  rw [command,strncpy_eq,Option.bind_eq_bind,Option.bind_some,List.take_of_length_le (Nat.le_of_lt starts),
    strncat_filled (clean _) starts,if_pos goes,Option.bind_some,strncat_filled joined goes,
    if_pos whole,commandText]

/-- A command that is too long goes on behind `s_buf`. -/
theorem command_of_not_fits (long : ¬exchange.Fits) : exchange.command = none := by
  have clean (src : List UInt8) : 0 ∉ cstr src := Memory.terminator_not_mem_text 0 src
  have joined : 0 ∉ cstr exchange.opening ++ cstr exchange.cmd := by
    rw [List.mem_append,not_or]
    exact ⟨clean _,clean _⟩
  have beyond : ¬(cstr exchange.opening ++ cstr exchange.cmd ++ cstr exchange.suffix).length < bufsize := long
  rw [command,strncpy_eq,Option.bind_eq_bind,Option.bind_some]
  by_cases starts : (cstr exchange.opening).length < bufsize
  · rw [List.take_of_length_le (Nat.le_of_lt starts),strncat_filled (clean _) starts]
    by_cases goes : (cstr exchange.opening ++ cstr exchange.cmd).length < bufsize
    · rw [if_pos goes,Option.bind_some,strncat_filled joined goes,if_neg beyond]
    · rw [if_neg goes]
      rfl
  · have full : 0 ∉ filled ((cstr exchange.opening).take bufsize) := by
      have size : bufsize-((cstr exchange.opening).take bufsize).length = 0 := by
        rw [List.length_take]
        omega
      rw [filled,size,List.replicate_zero,List.append_nil]
      exact fun member => clean _ (List.mem_of_mem_take member)
    rw [strncat_full full]
    rfl

theorem zero_not_mem_commandText : 0 ∉ exchange.commandText := by
  rw [commandText]
  simp only [List.mem_append,not_or]
  exact ⟨⟨Memory.terminator_not_mem_text 0 _,Memory.terminator_not_mem_text 0 _⟩,Memory.terminator_not_mem_text 0 _⟩

theorem cstr_filled_drop (fits : exchange.Fits) :
    cstr ((filled exchange.commandText).drop exchange.reply.length ++ exchange.behind) = exchange.leftover := by
  have short : exchange.commandText.length < bufsize := fits
  have most := exchange.fits
  have rest : 0 ∉ exchange.commandText.drop exchange.reply.length :=
    fun member => exchange.zero_not_mem_commandText (List.mem_of_mem_drop member)
  rw [leftover]
  by_cases ends : exchange.reply.length < bufsize
  · obtain ⟨zeros,size⟩ : ∃ zeros, bufsize-exchange.commandText.length-
        (exchange.reply.length-exchange.commandText.length) = zeros+1 := by
      apply Nat.exists_eq_add_one_of_ne_zero
      omega
    rw [if_pos ends,filled,List.drop_append,List.drop_replicate,size,List.replicate_succ,List.append_assoc,
      List.cons_append]
    exact Memory.cstr_terminated rest _
  · rw [if_neg ends,List.drop_eq_nil_of_le,List.nil_append]
    rw [filled_length (Nat.le_of_lt short)]
    omega

theorem cstr_replied (fits : exchange.Fits) :
    cstr (overwrite (filled exchange.commandText) 0 exchange.reply ++ exchange.behind) = exchange.heard := by
  rw [Memory.overwrite_start,heard,List.append_assoc]
  by_cases zero : 0 ∈ exchange.reply
  · obtain ⟨front,rest,split,clean⟩ := List.eq_append_cons_of_mem zero
    rw [if_pos zero,split,List.append_assoc,List.cons_append,Memory.cstr_terminated clean,
      Memory.cstr_terminated clean]
  · rw [if_neg zero,Memory.cstr_append zero,exchange.cstr_filled_drop fits]

end Exchange

theorem zero_not_mem_codeText (code : Nat) : 0 ∉ codeText code := fun member =>
  absurd (CString.printed_digit member).1 (by decide)

namespace Exchange
variable (exchange : Exchange)

theorem heard_of_prefix (begins : codeText exchange.retCode <+: exchange.reply) :
    codeText exchange.retCode <+: exchange.heard := by
  rw [heard]
  split
  · obtain ⟨rest,split⟩ := begins
    rw [← split,Memory.cstr_append (zero_not_mem_codeText _)]
    exact List.prefix_append _ _
  · exact begins.trans (List.prefix_append _ _)

theorem found_iff (fits : exchange.Fits) :
    exchange.found (filled exchange.commandText) = true ↔ codeText exchange.retCode <:+: exchange.heard := by
  rw [found,exchange.cstr_replied fits,← Option.ne_none_iff_isSome,Ne,Memory.occurrence_eq_none_iff,not_not]

theorem succeeds_of_fits (fits : exchange.Fits) :
    ∃ success, exchange.succeeds = some success ∧ (success = true ↔ exchange.Passes) := by
  rw [succeeds,exchange.command_of_fits fits,Option.bind_eq_bind,Option.bind_some,Passes]
  by_cases sent : exchange.sent = true
  · rw [if_pos sent]
    exact ⟨_,rfl,by simp [sent,exchange.found_iff fits]⟩
  · rw [if_neg sent]
    exact ⟨_,rfl,by simp [sent]⟩

/-- send_command classifies a reply rightly just when its command fits the buffer and the code
is heard only at the reply's start. -/
theorem classified_iff : exchange.Classified ↔ exchange.Unambiguous := by
  by_cases fits : exchange.Fits
  · obtain ⟨success,runs,passes⟩ := exchange.succeeds_of_fits fits
    have begun (sent : exchange.sent = true) (begins : codeText exchange.retCode <+: exchange.reply) :
        exchange.Passes := ⟨sent,(exchange.heard_of_prefix begins).isInfix⟩
    constructor
    · rintro ⟨other,same,right⟩
      obtain rfl := Option.some.inj (runs.symm.trans same)
      exact ⟨fits,fun heard => (right.mp (passes.mpr heard)).2⟩
    · rintro ⟨-,clear⟩
      refine ⟨success,runs,passes.trans ⟨?_,?_⟩⟩
      · exact fun heard => ⟨heard.1,clear heard⟩
      · exact fun begins => begun begins.1 begins.2
  · constructor
    · rintro ⟨success,runs,-⟩
      rw [succeeds,exchange.command_of_not_fits fits] at runs
      exact absurd runs nofun
    · exact fun clear => absurd clear.1 fits

def refusal : Exchange where
  opening := ascii "RCPT To:<"
  cmd := ascii "a@b"
  suffix := ascii ">\r\n"
  retCode := mailOk
  behind := []
  sent := true
  reply := ascii "550 no such user 250\r\n"
  fits := by decide

theorem not_classified_refusal : ¬∀ exchange : Exchange, exchange.Classified := by
  intro always
  obtain ⟨success,runs,right⟩ := always refusal
  have heard : refusal.succeeds = some true := by decide +kernel
  obtain rfl := Option.some.inj (runs.symm.trans heard)
  have begins := (right.mp rfl).2
  revert begins
  decide +kernel

end Exchange
end Libsme.Email
