import Libsme.Library.Memory
import Libsme.Library.Positional
import Libsme.Library.Traced

/-! The remote shell of socket_cmd.h: the request of socket_client.c, handle_connect_cmd
and the first receive of connect_thread in socket_server.c, and what the client does with
the reply. Structures are laid out as on a 64-bit little-endian machine; an `int` is kept
as its 32 bits. -/
namespace Libsme.Remote
open Positional
open Memory (cstr fetch overwrite)

/-- The macro compares: `(1<2)`. -/
def topStateExec : UInt32 := (decide (1 < 2)).toUInt32
/-- The macro compares: `(1<3)`. -/
def topStateExecRes : UInt32 := (decide (1 < 3)).toUInt32
def socketCmdConnect : UInt32 := 4
def reqCodeSuc : UInt32 := 0x100
def reqCodeFail : UInt32 := 0x101

structure SockettopCmd where
  cmdType : UInt32
  state : UInt32
  id : UInt64
  size : UInt32
deriving DecidableEq

/-- `size` is followed by four bytes of padding, which the client has cleared. -/
def SockettopCmd.bytes (cmd : SockettopCmd) : List UInt8 :=
  littleEndian 4 cmd.cmdType.toNat ++ (littleEndian 4 cmd.state.toNat ++ (littleEndian 8 cmd.id.toNat ++
    (littleEndian 4 cmd.size.toNat ++ List.replicate 4 0)))

def SockettopCmd.sizeof : Nat := 24

def SockettopCmd.read (memory : List UInt8) : SockettopCmd :=
  ⟨UInt32.ofNat (littleEndianValue (fetch memory 0 4)),UInt32.ofNat (littleEndianValue (fetch memory 4 4)),
    UInt64.ofNat (littleEndianValue (fetch memory 8 8)),UInt32.ofNat (littleEndianValue (fetch memory 16 4))⟩

structure SocketresRespone where
  reqCode : UInt32
  size : UInt32
deriving DecidableEq

def SocketresRespone.bytes (respone : SocketresRespone) : List UInt8 :=
  littleEndian 4 respone.reqCode.toNat ++ littleEndian 4 respone.size.toNat

def SocketresRespone.sizeof : Nat := 8

def clientRequest (cmdStr : List UInt8) : List UInt8 :=
  let data := List.replicate 1024 0
  let data := overwrite data SockettopCmd.sizeof (cmdStr ++ [0])
  let topCmd : SockettopCmd := ⟨socketCmdConnect,topStateExec,0,UInt32.ofNat cmdStr.length⟩
  let data := overwrite data 0 topCmd.bytes
  data.take (topCmd.size.toNat+SockettopCmd.sizeof)

/-- The exit code and the standard output for a reply, received into `data`. Both branches
of the test return, so that the statement that prints `data` is not reached. -/
def clientReceive (data reply : List UInt8) : Nat × List UInt8 :=
  if reply.length ≤ 0 then (0,[])
  else if UInt32.ofNat (littleEndianValue (fetch (overwrite data 0 reply) 0 4)) = reqCodeSuc then (0,[])
  else (1,[])

inductive Call where
  | popen (command : List UInt8)
  | system (command : List UInt8)
  | store (start size : Nat)
  | send (block : List UInt8)
deriving DecidableEq

/-- What the command writes to its standard output, whether `system` returns -1, and what
the uninitialised `std_out` holds. `popen` is taken to succeed. -/
structure Environment where
  output : List UInt8
  systemFails : Bool
  stdOut : List UInt8
  room : stdOut.length = 1024

/-- `respo+sizeof(struct socketres_respone)` counts in structures, not in bytes. -/
def pOut : Nat := SocketresRespone.sizeof*SocketresRespone.sizeof

def storeOut (stdOut : List UInt8) (start : Nat) (block : List UInt8) : Traced Call (List UInt8) := do
  Traced.emit (.store start block.length)
  pure (overwrite stdOut start block)

def handleConnectCmd (environment : Environment) (data : List UInt8) : Traced Call Int := do
  let topCmd := SockettopCmd.read data
  let stdOut := environment.stdOut
  if topCmd.cmdType &&& socketCmdConnect ≠ 0 then
    if topCmd.state = topStateExec then do
      let execName := cstr (data.drop SockettopCmd.sizeof)
      if topCmd.cmdType &&& topStateExecRes ≠ 0 then do
        Traced.emit (.popen execName)
        -- fread(p_out,1024,1,fp)
        let stdOut ← storeOut stdOut pOut (environment.output.take 1024)
        let stdOut ← storeOut stdOut 0
          (SocketresRespone.mk reqCodeSuc (UInt32.ofNat (1024-SocketresRespone.sizeof))).bytes
        Traced.emit (.send (fetch stdOut 0 1024))
        pure 1
      else do
        Traced.emit (.system execName)
        let reqCode := if environment.systemFails then reqCodeFail else reqCodeSuc
        let stdOut ← storeOut stdOut 0 (SocketresRespone.mk reqCode 0).bytes
        Traced.emit (.send (fetch stdOut 0 SocketresRespone.sizeof))
        pure 0
    else pure 0
  else pure 0

/-- `connect_thread` up to its first `return`: one `recv` into `buf`, which the stack
continues with `above`. -/
def connectThread (environment : Environment) (buf above received : List UInt8) : Traced Call Unit :=
  if received.length > 0 then do
    let _ ← handleConnectCmd environment (overwrite buf 0 received ++ above)
    pure ()
  else pure ()

@[simp] theorem SockettopCmd.bytes_length (cmd : SockettopCmd) : cmd.bytes.length = SockettopCmd.sizeof := by
  simp [bytes,sizeof]

@[simp] theorem SocketresRespone.bytes_length (respone : SocketresRespone) :
    respone.bytes.length = SocketresRespone.sizeof := by
  simp [bytes,sizeof]

private theorem word_read (word : UInt32) :
    UInt32.ofNat (littleEndianValue (littleEndian 4 word.toNat)) = word := by
  rw [littleEndianValue_littleEndian (by have := word.toNat_lt; omega),UInt32.ofNat_toNat]

private theorem long_read (word : UInt64) :
    UInt64.ofNat (littleEndianValue (littleEndian 8 word.toNat)) = word := by
  rw [littleEndianValue_littleEndian (by have := word.toNat_lt; omega),UInt64.ofNat_toNat]

theorem SockettopCmd.read_bytes (cmd : SockettopCmd) (rest : List UInt8) :
    SockettopCmd.read (cmd.bytes ++ rest) = cmd := by
  have split : cmd.bytes ++ rest = littleEndian 4 cmd.cmdType.toNat ++ (littleEndian 4 cmd.state.toNat ++
      (littleEndian 8 cmd.id.toNat ++ (littleEndian 4 cmd.size.toNat ++ (List.replicate 4 0 ++ rest)))) := by
    simp only [bytes,List.append_assoc]
  have cmdType : fetch (cmd.bytes ++ rest) 0 4 = _ :=
    Memory.fetch_of_split (split.trans (List.nil_append _).symm) rfl (littleEndian_length _ _)
  have state : fetch (cmd.bytes ++ rest) 4 4 = _ :=
    Memory.fetch_of_split split (littleEndian_length _ _) (littleEndian_length _ _)
  have idSplit := split.trans (List.append_assoc _ _ _).symm
  have id : fetch (cmd.bytes ++ rest) 8 8 = _ :=
    Memory.fetch_of_split idSplit (by simp) (littleEndian_length _ _)
  have size : fetch (cmd.bytes ++ rest) 16 4 = _ :=
    Memory.fetch_of_split (idSplit.trans (List.append_assoc _ _ _).symm) (by simp) (littleEndian_length _ _)
  simp only [read,cmdType,state,id,size,word_read,long_read]

theorem SocketresRespone.read_reqCode (respone : SocketresRespone) (rest : List UInt8) :
    UInt32.ofNat (littleEndianValue (fetch (respone.bytes ++ rest) 0 4)) = respone.reqCode := by
  have split : respone.bytes ++ rest = [] ++ (littleEndian 4 respone.reqCode.toNat ++
      (littleEndian 4 respone.size.toNat ++ rest)) := by
    simp [bytes]
  have reqCode : fetch (respone.bytes ++ rest) 0 4 = _ :=
    Memory.fetch_of_split split rfl (littleEndian_length _ _)
  rw [reqCode,word_read]

def clientHeader (cmdStr : List UInt8) : SockettopCmd :=
  ⟨socketCmdConnect,topStateExec,0,UInt32.ofNat cmdStr.length⟩

theorem clientRequest_eq (cmdStr : List UInt8) (fits : cmdStr.length ≤ 999) :
    clientRequest cmdStr = (clientHeader cmdStr).bytes ++ cmdStr := by
  have size : (UInt32.ofNat cmdStr.length).toNat = cmdStr.length := UInt32.toNat_ofNat_of_lt' (show _ < 2^32 by omega)
  have body : overwrite (List.replicate 1024 (0 : UInt8)) SockettopCmd.sizeof (cmdStr ++ [0]) =
      List.replicate SockettopCmd.sizeof 0 ++ (cmdStr ++ ([0] ++
        List.replicate (1024-(SockettopCmd.sizeof+(cmdStr.length+1))) 0)) := by
    rw [overwrite,List.take_replicate,List.drop_replicate,List.length_append,List.length_singleton]
    simp [SockettopCmd.sizeof]
  have header : (clientHeader cmdStr).bytes.length = (List.replicate SockettopCmd.sizeof (0 : UInt8)).length := by
    rw [SockettopCmd.bytes_length,List.length_replicate]
  have whole : cmdStr.length+SockettopCmd.sizeof = ((clientHeader cmdStr).bytes ++ cmdStr).length := by
    rw [List.length_append,SockettopCmd.bytes_length,Nat.add_comm]
  rw [clientRequest,body,← clientHeader,Memory.overwrite_start,header,List.drop_left]
  dsimp only [clientHeader]
  rw [size,← clientHeader,whole,← List.append_assoc,List.take_left]

def commands (calls : List Call) : List (List UInt8) :=
  calls.filterMap fun call => match call with
    | .popen command => some command
    | .system command => some command
    | _ => none

private theorem fetch_stored (stdOut block : List UInt8) :
    fetch (overwrite stdOut 0 block) 0 block.length = block := by
  rw [Memory.overwrite_start]
  exact Memory.fetch_append [] block _

theorem handleConnectCmd_system (environment : Environment) {data : List UInt8}
    (connect : (SockettopCmd.read data).cmdType &&& socketCmdConnect ≠ 0)
    (exec : (SockettopCmd.read data).state = topStateExec)
    (silent : (SockettopCmd.read data).cmdType &&& topStateExecRes = 0) :
    (handleConnectCmd environment data).log =
      [.system (cstr (data.drop SockettopCmd.sizeof)),.store 0 SocketresRespone.sizeof,
        .send (SocketresRespone.mk (if environment.systemFails then reqCodeFail else reqCodeSuc) 0).bytes] := by
  have sent := fetch_stored environment.stdOut
    (SocketresRespone.mk (if environment.systemFails then reqCodeFail else reqCodeSuc) 0).bytes
  rw [SocketresRespone.bytes_length] at sent
  simp [handleConnectCmd,connect,exec,silent,storeOut,sent]

theorem handleConnectCmd_popen (environment : Environment) {data : List UInt8}
    (connect : (SockettopCmd.read data).cmdType &&& socketCmdConnect ≠ 0)
    (exec : (SockettopCmd.read data).state = topStateExec)
    (answer : (SockettopCmd.read data).cmdType &&& topStateExecRes ≠ 0) :
    ∃ stdOut, (handleConnectCmd environment data).log =
      [.popen (cstr (data.drop SockettopCmd.sizeof)),.store pOut (environment.output.take 1024).length,
        .store 0 SocketresRespone.sizeof,.send (fetch stdOut 0 1024)] := by
  simp only [handleConnectCmd,ne_eq,connect,exec,answer,not_false_eq_true,if_true,storeOut,Traced.bind_log,
    Traced.bind_value,Traced.emit_log,Traced.pure_value,Traced.pure_log,List.nil_append,List.append_nil,
    List.cons_append,SocketresRespone.bytes_length]
  exact ⟨_,rfl⟩

theorem connectThread_commands (environment : Environment) (cmdStr : List UInt8) (fits : cmdStr.length ≤ 999)
    (buf above : List UInt8) :
    commands (connectThread environment buf above (clientRequest cmdStr)).log =
      [cstr (cmdStr ++ (buf.drop (SockettopCmd.sizeof+cmdStr.length) ++ above))] := by
  have request := clientRequest_eq cmdStr fits
  have length : (clientRequest cmdStr).length = SockettopCmd.sizeof+cmdStr.length := by
    rw [request,List.length_append,SockettopCmd.bytes_length]
  have memory : overwrite buf 0 (clientRequest cmdStr) ++ above = (clientHeader cmdStr).bytes ++
      (cmdStr ++ (buf.drop (SockettopCmd.sizeof+cmdStr.length) ++ above)) := by
    rw [Memory.overwrite_start,length,request]
    simp only [List.append_assoc]
  have header := SockettopCmd.read_bytes (clientHeader cmdStr)
    (cmdStr ++ (buf.drop (SockettopCmd.sizeof+cmdStr.length) ++ above))
  have positive : (clientRequest cmdStr).length > 0 := by
    rw [length,SockettopCmd.sizeof]
    omega
  have connect : (clientHeader cmdStr).cmdType &&& socketCmdConnect ≠ 0 :=
    (by decide : socketCmdConnect &&& socketCmdConnect ≠ 0)
  have silent : (clientHeader cmdStr).cmdType &&& topStateExecRes = 0 :=
    (by decide : socketCmdConnect &&& topStateExecRes = 0)
  rw [← header] at connect silent
  have handled := handleConnectCmd_system environment connect (by rw [header,clientHeader]) silent
  rw [connectThread,if_pos positive,memory,Traced.bind_log,handled]
  rw [show SockettopCmd.sizeof = (clientHeader cmdStr).bytes.length from (SockettopCmd.bytes_length _).symm,
    List.drop_left]
  rfl

/-- The command that runs is the client's exactly when the receive buffer already held the
terminator that the client does not send. -/
theorem connectThread_commands_iff (environment : Environment) (cmdStr : List UInt8) (clean : 0 ∉ cmdStr)
    (fits : cmdStr.length ≤ 999) (buf above : List UInt8) (size : buf.length = 1024) :
    commands (connectThread environment buf above (clientRequest cmdStr)).log = [cmdStr] ↔
      buf[SockettopCmd.sizeof+cmdStr.length]? = some 0 := by
  have inside : SockettopCmd.sizeof+cmdStr.length < buf.length := by
    rw [size,SockettopCmd.sizeof]
    omega
  rw [connectThread_commands environment cmdStr fits,List.singleton_inj,Memory.text_append_eq_iff clean,
    List.drop_eq_getElem_cons inside,List.getElem?_eq_getElem inside,List.cons_append,List.head?_cons]
  exact ⟨fun ends => ends.resolve_left (List.cons_ne_nil _ _),Or.inr⟩

def quietEnvironment (output : List UInt8) : Environment :=
  ⟨output,false,List.replicate 1024 0,List.length_replicate⟩

theorem connectThread_commands_cleared :
    commands (connectThread (quietEnvironment []) (List.replicate 1024 0) [] (clientRequest [0x6C,0x73])).log =
      [[0x6C,0x73]] :=
  (connectThread_commands_iff (quietEnvironment []) [0x6C,0x73] (by decide) (by decide)
    (List.replicate 1024 0) [] List.length_replicate).mpr (by decide +kernel)

/-- After older bytes the two letters of `ls` run on. -/
theorem connectThread_commands_stale :
    commands (connectThread (quietEnvironment []) (List.replicate 1024 0x41) [0]
      (clientRequest [0x6C,0x73])).log ≠ [[0x6C,0x73]] := by
  decide +kernel

def replies (calls : List Call) : List (List UInt8) :=
  calls.filterMap fun call => match call with
    | .send block => some block
    | _ => none

/-- The reply is a header that announces the output, and the output; it is put together
inside `std_out`, and the client prints the output. -/
structure Carries (output : List UInt8) (calls : List Call) : Prop where
  reply : replies calls = [(SocketresRespone.mk reqCodeSuc (UInt32.ofNat output.length)).bytes ++ output]
  inside : ∀ start size, .store start size ∈ calls → start+size ≤ 1024
  printed : ∀ data, ∀ reply ∈ replies calls, (clientReceive data reply).2 = output

/-- The output is sent exactly to those who ask for it in `state`. -/
def Answers (state : UInt32) (output : List UInt8) (calls : List Call) : Prop :=
  if state &&& topStateExecRes ≠ 0 then Carries output calls
  else ∃ reqCode, replies calls = [(SocketresRespone.mk reqCode 0).bytes]

theorem clientReceive_prints (data reply : List UInt8) : (clientReceive data reply).2 = [] := by
  unfold clientReceive
  split
  · rfl
  · split <;> rfl

private theorem carries_system {output : List UInt8} {reqCode : UInt32} {command : List UInt8}
    (short : output.length ≤ 1016) :
    Carries output [.system command,.store 0 SocketresRespone.sizeof,.send (SocketresRespone.mk reqCode 0).bytes] ↔
      output = [] ∧ reqCode = reqCodeSuc := by
  constructor
  · intro carries
    have sent : (SocketresRespone.mk reqCode 0).bytes =
        (SocketresRespone.mk reqCodeSuc (UInt32.ofNat output.length)).bytes ++ output :=
      List.singleton_inj.mp carries.reply
    have lengths := congrArg List.length sent
    rw [List.length_append,SocketresRespone.bytes_length,SocketresRespone.bytes_length] at lengths
    have empty : output = [] := List.eq_nil_of_length_eq_zero (by omega)
    subst empty
    refine ⟨rfl,?_⟩
    have left := SocketresRespone.read_reqCode ⟨reqCode,0⟩ []
    rw [List.append_nil,sent] at left
    exact left.symm.trans (SocketresRespone.read_reqCode ⟨reqCodeSuc,_⟩ [])
  · rintro ⟨rfl,rfl⟩
    refine ⟨rfl,?_,fun data reply _ => clientReceive_prints data reply⟩
    intro start size member
    simp [SocketresRespone.sizeof] at member
    omega

/-- Whoever executes a command is answered as asked exactly when the command prints
nothing, `cmd_type` does not have the bit that belongs into `state`, and `system` works. -/
theorem handleConnectCmd_answers_iff (environment : Environment) (data : List UInt8)
    (connect : (SockettopCmd.read data).cmdType &&& socketCmdConnect ≠ 0)
    (exec : (SockettopCmd.read data).state = topStateExec)
    (short : environment.output.length ≤ 1024-SocketresRespone.sizeof) :
    Answers (SockettopCmd.read data).state environment.output (handleConnectCmd environment data).log ↔
      environment.output = [] ∧ (SockettopCmd.read data).cmdType &&& topStateExecRes = 0 ∧
        environment.systemFails = false := by
  have asked : topStateExec &&& topStateExecRes ≠ 0 := by decide
  rw [Answers,exec,if_pos asked]
  by_cases silent : (SockettopCmd.read data).cmdType &&& topStateExecRes = 0
  · rw [handleConnectCmd_system environment connect exec silent,carries_system short]
    have codes : reqCodeFail ≠ reqCodeSuc := by decide
    cases environment.systemFails <;> simp [silent,codes]
  · obtain ⟨stdOut,calls⟩ := handleConnectCmd_popen environment connect exec silent
    rw [calls]
    constructor
    · intro carries
      have lengths := congrArg List.length (List.singleton_inj.mp carries.reply)
      rw [Memory.fetch_length,List.length_append,SocketresRespone.bytes_length] at lengths
      have stored := carries.inside pOut (environment.output.take 1024).length (by simp)
      rw [List.length_take,pOut] at stored
      simp only [SocketresRespone.sizeof] at lengths short stored
      omega
    · intro conditions
      exact absurd conditions.2.1 silent

def sampleRequest : List UInt8 := clientRequest [0x77] ++ [0]

theorem handleConnectCmd_answers_nothing :
    Answers (SockettopCmd.read sampleRequest).state [] (handleConnectCmd (quietEnvironment []) sampleRequest).log :=
  (handleConnectCmd_answers_iff (quietEnvironment []) sampleRequest (by decide +kernel) (by decide +kernel)
    (by decide +kernel)).mpr (by decide +kernel)

theorem handleConnectCmd_answers_lost :
    ¬Answers (SockettopCmd.read sampleRequest).state [0x61,0x0A]
      (handleConnectCmd (quietEnvironment [0x61,0x0A]) sampleRequest).log := by
  have asked : (SockettopCmd.read sampleRequest).state &&& topStateExecRes ≠ 0 := by decide +kernel
  rw [Answers,if_pos asked]
  intro carries
  exact absurd carries.reply (by decide +kernel)

end Libsme.Remote
