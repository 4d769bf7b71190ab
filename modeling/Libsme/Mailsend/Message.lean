import Libsme.Semantics.Rfc4648
import Libsme.Semantics.Rfc5321
import Mathlib.Data.List.TakeWhile

/-! smtpMail of mailsend: the strings it puts on the socket for a message that is not MIME,
header by header and then the lines of the standard input. BUFSIZ is that of glibc. -/
namespace Libsme.Mailsend
open Semantics.Rfc4648 (ascii)
open Semantics.Rfc5321 (crlf dot stream receiveData nextLine)

def bufsiz : Nat := 8192

/-- snprintf(buf,sizeof(buf)-1,…). -/
def snprintf (text : List UInt8) : List UInt8 := text.take (bufsiz-2)

/-- The arguments and settings that smtpMail reads, as strings without the zero byte. `mime` is
what the MIME writers put after the headers and their result. -/
structure Letter where
  subject : Option (List UInt8)
  fromName : List UInt8
  sender : Option (List UInt8)
  date : Option (List UInt8)
  recipient : Option (List UInt8)
  cc : Option (List UInt8)
  replyTo : Option (List UInt8)
  returnReceipt : Option (List UInt8)
  customHeaders : List (List UInt8)
  mime : Option (List (List UInt8) × Int)
  bodyGiven : Bool
  stdin : List UInt8
  text : 0 ∉ stdin

def mailsendVersion : List UInt8 := ascii "@(#) mailsend v1.18"

def noSpamStatement : List UInt8 := ascii "BSD. It is illegal to use this software for Spamming"

/-- The strings that fgets(s,size,stream) stores until the end of the stream, call by call. -/
def fgets (size : Nat) : List UInt8 → List UInt8 → List (List UInt8)
  | stored, [] => if stored = [] then [] else [stored]
  | stored, byte::rest =>
    if byte = 10 ∨ (stored ++ [byte]).length = size-1 then (stored ++ [byte])::fgets size [] rest
    else fgets size (stored ++ [byte]) rest

def mbufSize : Nat := 1024

/-- `mbuf` after the end of its line is made CRLF. -/
def qmailFix (mbuf : List UInt8) : List UInt8 :=
  if mbuf.getLast? = some 10 then mbuf.dropLast ++ crlf else mbuf ++ crlf

def bodyLines (newlineBefore : Bool) : List (List UInt8) → List (List UInt8)
  | [] => []
  | mbuf::rest =>
    if newlineBefore && mbuf.head? = some dot then []
    else qmailFix mbuf::bodyLines ((qmailFix mbuf).getLast? = some 10) rest

namespace Letter
variable (letter : Letter)

def fromHeader (sender : List UInt8) : List UInt8 :=
  if letter.fromName = [] then ascii "From: " ++ sender
  else ascii "From: " ++ letter.fromName ++ ascii " <" ++ sender ++ ascii ">"

/-- The headers that go through `buf`. -/
def formatted : List (List UInt8) :=
  (letter.subject.map (ascii "Subject: " ++ ·)).toList ++ (letter.sender.map letter.fromHeader).toList ++
    (letter.date.map (ascii "Date: " ++ ·)).toList ++ (letter.recipient.map (ascii "To: " ++ ·)).toList ++
    (letter.cc.map (ascii "Cc: " ++ ·)).toList ++ (letter.replyTo.map (ascii "Reply-To: " ++ ·)).toList ++
    (letter.returnReceipt.map (ascii "Disposition-Notification-To: " ++ ·)).toList

def closing : List (List UInt8) :=
  [ascii "X-Mailer: " ++ mailsendVersion ++ ascii " (Unix)",ascii "X-Copyright: " ++ noSpamStatement]

def headers : List (List UInt8) :=
  letter.formatted.map (fun header => snprintf (header ++ crlf)) ++
    letter.customHeaders.flatMap (fun header => [header,crlf]) ++
    closing.map (fun header => snprintf (header ++ crlf))

def body : List (List UInt8) :=
  if letter.bodyGiven then [] else crlf::bodyLines true (fgets (mbufSize-1) [] letter.stdin)

/-- What smtpMail puts, and its result. -/
def smtpMail : List (List UInt8) × Int :=
  match letter.mime with
  | some (parts,rc) => (letter.headers ++ parts,rc)
  | none => (letter.headers ++ letter.body,0)

end Letter

/-- The lines of a text without their newlines. -/
def textLines : List UInt8 → List (List UInt8)
  | [] => []
  | byte::rest =>
    if byte = 10 then []::textLines rest else (byte::(textLines rest).headD [])::(textLines rest).tail

/-- The lines that are typed before the one whose dot ends the message. -/
def typed (stdin : List UInt8) : List (List UInt8) := (textLines stdin).takeWhile (·.head? ≠ some dot)

section Lines
variable {line rest : List UInt8} {size : Nat}

theorem textLines_append (whole : 10 ∉ line) : textLines (line ++ 10::rest) = line::textLines rest := by
  induction line with
  | nil => rfl
  | cons byte line ih =>
    obtain ⟨other,whole⟩ := List.ne_and_not_mem_of_not_mem_cons whole
    rw [List.cons_append,textLines,if_neg (Ne.symm other),ih whole]
    rfl

theorem textLines_unfinished (whole : 10 ∉ line) (nonempty : line ≠ []) : textLines line = [line] := by
  induction line with
  | nil => exact absurd rfl nonempty
  | cons byte line ih =>
    obtain ⟨other,whole⟩ := List.ne_and_not_mem_of_not_mem_cons whole
    rw [textLines,if_neg (Ne.symm other)]
    cases line with
    | nil => rfl
    | cons next line =>
      rw [ih whole (List.cons_ne_nil _ _)]
      rfl

theorem stdin_cases (stdin : List UInt8) :
    10 ∉ stdin ∨ ∃ line rest, stdin = line ++ 10::rest ∧ 10 ∉ line := by
  by_cases member : 10 ∈ stdin
  · obtain ⟨line,rest,split,whole⟩ := List.eq_append_cons_of_mem member
    exact Or.inr ⟨line,rest,split,whole⟩
  · exact Or.inl member

theorem fgets_more {stored : List UInt8} {byte : UInt8} (other : 10 ≠ byte)
    (more : (stored ++ [byte]).length < size-1) :
    fgets size stored (byte::rest) = fgets size (stored ++ [byte]) rest := by
  rw [fgets,if_neg]
  rintro (same | same)
  · exact other same.symm
  · omega

theorem fgets_line (stored : List UInt8) (whole : 10 ∉ line) (short : (stored ++ line).length < size-1) :
    fgets size stored (line ++ 10::rest) = (stored ++ line ++ [10])::fgets size [] rest := by
  induction line generalizing stored with
  | nil => simp [fgets]
  | cons byte line ih =>
    obtain ⟨other,whole⟩ := List.ne_and_not_mem_of_not_mem_cons whole
    have reaches := ih (stored ++ [byte]) whole (by simpa using short)
    have more : (stored ++ [byte]).length < size-1 := by
      simp only [List.length_append,List.length_cons,List.length_nil] at short ⊢
      omega
    rw [List.cons_append,fgets_more other more,reaches]
    simp

theorem fgets_unfinished (stored : List UInt8) (whole : 10 ∉ line) (short : (stored ++ line).length < size-1) :
    fgets size stored line = if stored ++ line = [] then [] else [stored ++ line] := by
  induction line generalizing stored with
  | nil => simp [fgets]
  | cons byte line ih =>
    obtain ⟨other,whole⟩ := List.ne_and_not_mem_of_not_mem_cons whole
    have reaches := ih (stored ++ [byte]) whole (by simpa using short)
    have more : (stored ++ [byte]).length < size-1 := by
      simp only [List.length_append,List.length_cons,List.length_nil] at short ⊢
      omega
    rw [fgets_more other more,reaches]
    simp

/-- Of a line that does not fit the first bytes are read, as many as there is room for. -/
theorem fgets_filled (stored : List UInt8) (whole : 10 ∉ line) (room : stored.length < size-1)
    (full : (stored ++ line).length = size-1) :
    fgets size stored (line ++ rest) = (stored ++ line)::fgets size [] rest := by
  induction line generalizing stored with
  | nil =>
    rw [List.append_nil] at full
    omega
  | cons byte line ih =>
    obtain ⟨other,whole⟩ := List.ne_and_not_mem_of_not_mem_cons whole
    cases line with
    | nil => rw [List.cons_append,fgets,if_pos (Or.inr full),List.nil_append]
    | cons next line =>
      have more : (stored ++ [byte]).length < size-1 := by
        simp only [List.length_append,List.length_cons,List.length_nil] at full ⊢
        omega
      rw [List.cons_append,fgets_more other more,ih (stored ++ [byte]) whole more (by simpa using full)]
      simp

theorem qmailFix_line (line : List UInt8) : qmailFix (line ++ [10]) = line ++ crlf := by
  simp [qmailFix]

theorem qmailFix_unfinished (whole : 10 ∉ line) : qmailFix line = line ++ crlf := by
  rw [qmailFix,if_neg fun last => whole (List.mem_of_getLast? last)]

theorem qmailFix_newline (mbuf : List UInt8) : (qmailFix mbuf).getLast? = some 10 := by
  unfold qmailFix
  split <;> simp [crlf]

theorem bodyLines_cons (mbuf : List UInt8) (rest : List (List UInt8)) :
    bodyLines true (mbuf::rest) = if mbuf.head? = some dot then [] else qmailFix mbuf::bodyLines true rest := by
  simp [bodyLines,qmailFix_newline]

theorem typed_line (whole : 10 ∉ line) :
    typed (line ++ 10::rest) = if line.head? = some dot then [] else line::typed rest := by
  rw [typed,textLines_append whole,List.takeWhile_cons]
  by_cases dotted : line.head? = some dot <;> simp [dotted,typed]

theorem typed_unfinished (whole : 10 ∉ line) (nonempty : line ≠ []) :
    typed line = if line.head? = some dot then [] else [line] := by
  rw [typed,textLines_unfinished whole nonempty,List.takeWhile_cons]
  by_cases dotted : line.head? = some dot <;> simp [dotted]

/-- What the loop over the standard input puts. -/
def stdinBody (stdin : List UInt8) : List (List UInt8) := bodyLines true (fgets (mbufSize-1) [] stdin)

theorem stdinBody_line (whole : 10 ∉ line) (short : line.length < mbufSize-2) :
    stdinBody (line ++ 10::rest) = if line.head? = some dot then [] else (line ++ crlf)::stdinBody rest := by
  have same : (line ++ [10]).head? = some dot ↔ line.head? = some dot := by cases line <;> simp [dot]
  rw [stdinBody,@fgets_line line rest (mbufSize-1) [] whole short,List.nil_append,bodyLines_cons,qmailFix_line]
  simp only [same,stdinBody]

theorem stdinBody_unfinished (whole : 10 ∉ line) (nonempty : line ≠ []) (short : line.length < mbufSize-2) :
    stdinBody line = if line.head? = some dot then [] else [line ++ crlf] := by
  rw [stdinBody,@fgets_unfinished line (mbufSize-1) [] whole short,List.nil_append,if_neg nonempty,bodyLines_cons,
    qmailFix_unfinished whole]
  rfl

/-- The first piece of a longer line and the CRLF behind it fill `mbuf`, so that the terminator
is written past it. -/
theorem stdinBody_long (whole : 10 ∉ line) (plain : line.head? ≠ some dot) (long : mbufSize-2 ≤ line.length) :
    ∃ piece ∈ stdinBody (line ++ rest), mbufSize ≤ piece.length := by
  have front : 10 ∉ line.take (mbufSize-2) := fun member => whole (List.mem_of_mem_take member)
  have full : (line.take (mbufSize-2)).length = mbufSize-2 := by rw [List.length_take,Nat.min_eq_left long]
  have opening : (line.take (mbufSize-2)).head? = line.head? := by
    cases line with
    | nil => rfl
    | cons byte line => rfl
  refine ⟨line.take (mbufSize-2) ++ crlf,?_,by rw [List.length_append,full]; decide⟩
  have split : line ++ rest = line.take (mbufSize-2) ++ (line.drop (mbufSize-2) ++ rest) := by
    rw [← List.append_assoc,List.take_append_drop]
  rw [split,stdinBody,@fgets_filled _ _ (mbufSize-1) [] front (by decide) full,List.nil_append,bodyLines_cons,opening,if_neg plain,
    qmailFix_unfinished front]
  exact List.mem_cons_self

theorem fgets_starts {stored : List UInt8} (started : stored ≠ []) (stream : List UInt8) :
    ∃ more pieces, fgets size stored stream = (stored ++ more)::pieces := by
  induction stream generalizing stored with
  | nil => exact ⟨[],[],by rw [fgets,if_neg started,List.append_nil]⟩
  | cons byte stream ih =>
    rw [fgets]
    split
    · exact ⟨[byte],_,rfl⟩
    · obtain ⟨more,pieces,reads⟩ := @ih (stored ++ [byte]) (by simp)
      exact ⟨byte::more,pieces,by rw [reads,List.append_assoc]; rfl⟩

theorem dotted_ends {stdin : List UInt8} (dotted : stdin.head? = some dot) : stdinBody stdin = [] ∧ typed stdin = [] := by
  cases stdin with
  | nil => exact absurd dotted (by simp)
  | cons byte rest =>
    obtain rfl : byte = dot := Option.some.inj dotted
    have opened : fgets (mbufSize-1) [] (dot::rest) = fgets (mbufSize-1) [dot] rest :=
      fgets_more (by decide) (by decide)
    obtain ⟨more,pieces,reads⟩ := @fgets_starts (mbufSize-1) [dot] (by simp) rest
    constructor
    · rw [stdinBody,opened,reads,bodyLines_cons]
      exact if_pos rfl
    · rw [typed,textLines,if_neg (by decide),List.takeWhile_cons]
      simp

/-- While the typed lines leave room for CRLF and the terminator, they are what is put; else
a piece that does not fit `mbuf` is. -/
theorem stdinBody_cases (stdin : List UInt8) :
    ((∀ line ∈ typed stdin, line.length < mbufSize-2) ∧ stdinBody stdin = (typed stdin).map (· ++ crlf)) ∨
    (∃ line ∈ typed stdin, mbufSize-2 ≤ line.length) ∧ ∃ piece ∈ stdinBody stdin, mbufSize ≤ piece.length := by
  induction size : stdin.length using Nat.strongRecOn generalizing stdin with
  | ind length ih =>
    subst size
    by_cases dotted : stdin.head? = some dot
    · obtain ⟨none,nothing⟩ := dotted_ends dotted
      exact Or.inl (by simp [none,nothing])
    obtain whole | ⟨line,rest,rfl,whole⟩ := stdin_cases stdin
    · by_cases empty : stdin = []
      · subst empty
        exact Or.inl ⟨fun _ member => absurd member List.not_mem_nil,rfl⟩
      have one : typed stdin = [stdin] := by rw [typed_unfinished whole empty,if_neg dotted]
      rw [one]
      by_cases short : stdin.length < mbufSize-2
      · refine Or.inl ⟨by simpa using short,?_⟩
        rw [stdinBody_unfinished whole empty short,if_neg dotted]
        rfl
      · have long := @stdinBody_long stdin [] whole dotted (Nat.le_of_not_lt short)
        rw [List.append_nil] at long
        exact Or.inr ⟨⟨stdin,List.mem_singleton_self _,Nat.le_of_not_lt short⟩,long⟩
    · have plain : line.head? ≠ some dot := by
        intro same
        apply dotted
        cases line with
        | nil => exact absurd same (by simp)
        | cons byte line => exact same
      have first : typed (line ++ 10::rest) = line::typed rest := by rw [typed_line whole,if_neg plain]
      rw [first]
      by_cases short : line.length < mbufSize-2
      · have body : stdinBody (line ++ 10::rest) = (line ++ crlf)::stdinBody rest := by
          rw [stdinBody_line whole short,if_neg plain]
        rw [body]
        obtain ⟨shorter,same⟩ | ⟨⟨late,member,long⟩,⟨piece,inside,past⟩⟩ := ih rest.length (by simp only [List.length_append,List.length_cons]; omega) rest rfl
        · exact Or.inl ⟨List.forall_mem_cons.mpr ⟨short,shorter⟩,by rw [same,List.map_cons]⟩
        · exact Or.inr ⟨⟨late,List.mem_cons_of_mem _ member,long⟩,⟨piece,List.mem_cons_of_mem _ inside,past⟩⟩
      · exact Or.inr ⟨⟨line,List.mem_cons_self,Nat.le_of_not_lt short⟩,stdinBody_long whole plain (Nat.le_of_not_lt short)⟩

theorem stdinBody_typed {stdin : List UInt8} (short : ∀ line ∈ typed stdin, line.length < mbufSize-2) :
    stdinBody stdin = (typed stdin).map (· ++ crlf) := by
  obtain ⟨_,same⟩ | ⟨⟨line,member,long⟩,_⟩ := stdinBody_cases stdin
  · exact same
  · exact absurd (short line member) (Nat.not_lt.mpr long)

/-- What is read from the standard input stays in `mbuf` just when each line before the dot leaves
room for CRLF and the terminator; then these lines are what is put. -/
theorem Letter.mbuf_fits (letter : Letter) :
    ((∀ mbuf ∈ stdinBody letter.stdin, mbuf.length < mbufSize) ↔ ∀ line ∈ typed letter.stdin, line.length < mbufSize-2) ∧
    ((∀ line ∈ typed letter.stdin, line.length < mbufSize-2) → stdinBody letter.stdin = (typed letter.stdin).map (· ++ crlf)) := by
  refine ⟨?_,stdinBody_typed⟩
  obtain ⟨short,same⟩ | ⟨⟨line,member,long⟩,⟨piece,inside,past⟩⟩ := stdinBody_cases letter.stdin
  · refine iff_of_true ?_ short
    rw [same]
    intro mbuf member
    obtain ⟨line,inside,rfl⟩ := List.mem_map.mp member
    have room := short line inside
    simp only [crlf,List.length_append,List.length_cons,List.length_nil]
    omega
  · refine iff_of_false (fun fits => ?_) fun fits => ?_
    · exact absurd (fits piece inside) (Nat.not_lt.mpr past)
    · exact absurd (fits line member) (Nat.not_lt.mpr long)

end Lines

def eomBytes : List UInt8 := ascii "\r\n.\r\n"

namespace Letter
variable (letter : Letter)

/-- The message line by line. -/
def lines : List (List UInt8) :=
  letter.formatted ++ letter.customHeaders ++ closing ++ if letter.bodyGiven then [] else []::typed letter.stdin

/-- A message that is not MIME, in which nothing is cut and no header holds a newline. -/
structure Sound : Prop where
  plain : letter.mime = none
  whole : ∀ header ∈ letter.formatted ++ letter.customHeaders, 10 ∉ header
  fits : ∀ header ∈ letter.formatted, header.length ≤ bufsiz-4
  short : ∀ line ∈ typed letter.stdin, line.length < mbufSize-2

variable {letter}

theorem flatten_lines (lines : List (List UInt8)) : (lines.map (· ++ crlf)).flatten = stream lines := rfl

theorem headers_eq (fits : ∀ header ∈ letter.formatted, header.length ≤ bufsiz-4) :
    letter.headers.flatten = stream (letter.formatted ++ letter.customHeaders ++ closing) := by
  have formatted : (letter.formatted.map fun header => snprintf (header ++ crlf)) =
      letter.formatted.map (· ++ crlf) := by
    apply List.map_congr_left
    intro header member
    have room := fits header member
    exact List.take_of_length_le (by rw [List.length_append]; unfold bufsiz at room ⊢; simp [crlf]; omega)
  have last : (closing.map fun header => snprintf (header ++ crlf)) = closing.map (· ++ crlf) := by decide +kernel
  have custom (headers : List (List UInt8)) : (headers.flatMap fun header => [header,crlf]).flatten = stream headers := by
    induction headers with
    | nil => rfl
    | cons header headers ih =>
      rw [List.flatMap_cons,List.flatten_append,ih]
      simp [stream]
  rw [headers,formatted,last,List.flatten_append,List.flatten_append,flatten_lines,custom,flatten_lines]
  simp only [stream,List.flatMap_append]

theorem Sound.body_eq (sound : letter.Sound) :
    letter.body.flatten = stream (if letter.bodyGiven then [] else []::typed letter.stdin) := by
  rw [body]
  split
  · rfl
  · have typedLines : bodyLines true (fgets (mbufSize-1) [] letter.stdin) = (typed letter.stdin).map (· ++ crlf) :=
      stdinBody_typed sound.short
    rw [typedLines,List.flatten_cons,flatten_lines]
    rfl

theorem Sound.smtpMail_eq (sound : letter.Sound) :
    letter.smtpMail.1.flatten = stream letter.lines ∧ letter.smtpMail.2 = 0 := by
  have parts : letter.smtpMail = (letter.headers ++ letter.body,0) := by rw [smtpMail,sound.plain]
  rw [parts,List.flatten_append,headers_eq sound.fits,sound.body_eq]
  exact ⟨List.flatMap_append.symm,rfl⟩

theorem receiveData_eom (rest : List UInt8) : receiveData (eomBytes ++ rest) = some (crlf,rest) := by
  have split : eomBytes ++ rest = [] ++ crlf ++ ([dot] ++ crlf ++ rest) := rfl
  have apart : ∀ line : List UInt8, 10 ∉ line → ¬crlf <:+: line := fun line absent inside => absent (inside.subset (by decide))
  rw [split,Semantics.Rfc5321.receiveData_line (apart [] List.not_mem_nil),if_neg (List.cons_ne_nil _ _).symm,
    Semantics.Rfc5321.receiveData_line (apart [dot] (by decide)),if_pos rfl]
  rfl

theorem textLines_whole (stdin : List UInt8) : ∀ line ∈ textLines stdin, 10 ∉ line := by
  induction stdin with
  | nil => exact fun _ member => absurd member List.not_mem_nil
  | cons byte rest ih =>
    rw [textLines]
    split
    · exact List.forall_mem_cons.mpr ⟨List.not_mem_nil,ih⟩
    · rename_i other
      cases lines : textLines rest with
      | nil => simpa using Ne.symm other
      | cons line more =>
        rw [lines] at ih
        obtain ⟨here,later⟩ := List.forall_mem_cons.mp ih
        refine List.forall_mem_cons.mpr ⟨?_,later⟩
        exact List.not_mem_cons_of_ne_of_not_mem (Ne.symm other) here

theorem formatted_plain (letter : Letter) : ∀ header ∈ letter.formatted, header.head? ≠ some dot := by
  intro header member
  simp only [formatted,List.mem_append,Option.mem_toList,Option.map_eq_some_iff] at member
  rcases member with (((((⟨_,_,rfl⟩ | ⟨_,_,rfl⟩) | ⟨_,_,rfl⟩) | ⟨_,_,rfl⟩) | ⟨_,_,rfl⟩) | ⟨_,_,rfl⟩) | ⟨_,_,rfl⟩
  · simp [ascii,dot]
  · rw [fromHeader]
    split <;> simp [ascii,dot]
  all_goals simp [ascii,dot]

theorem Sound.lines_whole (sound : letter.Sound) : ∀ line ∈ letter.lines, 10 ∉ line := by
  have closed : ∀ line ∈ closing, 10 ∉ line := by decide +kernel
  intro line member
  rcases List.mem_append.mp member with header | body
  · exact (List.mem_append.mp header).elim (sound.whole line) (closed line)
  · split at body
    · exact absurd body List.not_mem_nil
    · rcases List.mem_cons.mp body with rfl | inside
      · exact List.not_mem_nil
      · exact textLines_whole _ line ((List.takeWhile_prefix _).subset inside)

/-- The receiver gets the message as it was given, with an empty line at its end, and what follows
is left for the next command, just when no custom header begins with a dot. -/
theorem Sound.received (sound : letter.Sound) (rest : List UInt8) :
    receiveData (letter.smtpMail.1.flatten ++ eomBytes ++ rest) = some (stream letter.lines ++ crlf,rest) ↔
      ∀ header ∈ letter.customHeaders, header.head? ≠ some dot := by
  have ends : ∀ line ∈ (if letter.bodyGiven then [] else []::typed letter.stdin), line.head? ≠ some dot := by
    split
    · exact fun _ member => absurd member List.not_mem_nil
    · refine List.forall_mem_cons.mpr ⟨by simp,fun line member => ?_⟩
      simpa using List.mem_takeWhile_imp member
  have closed : ∀ line ∈ closing, line.head? ≠ some dot := by decide +kernel
  rw [sound.smtpMail_eq.1,List.append_assoc,Semantics.Rfc5321.receiveData_stream_iff
    (fun line member inside => sound.lines_whole line member (inside.subset (by decide))) (receiveData_eom rest)]
  simp only [lines,List.forall_mem_append]
  exact ⟨fun plain => plain.1.1.2,fun plain => ⟨⟨⟨formatted_plain letter,plain⟩,closed⟩,ends⟩⟩

end Letter
end Libsme.Mailsend
