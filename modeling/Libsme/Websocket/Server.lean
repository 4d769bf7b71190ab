import Libsme.Websocket.AcceptKey
import Libsme.Websocket.Frame

/-! One connection of the two servers. shakeHand and response are the same in main.c
and main.cpp; `mainLoop` is the body of the loop of main in main.c, `acceptedFunc`
the body of the loop of accepted_func in main.cpp. What a read delivers, what an
uninitialised variable holds and what lies behind a heap block come from outside. -/
namespace Libsme.Websocket
open Semantics
open Memory (cstr)

inductive Event where
  | read (n : Int)
  | computeAcceptKey (serverKey : Option (List UInt8))
  | analyData (data : Option (List UInt8))
  | response (message : Option (List UInt8))
  | packData (message : Option (List UInt8))
  | write (block : List UInt8)
  | close
deriving DecidableEq

def requestLenMaxC : Nat := 1024
def requestLenMaxCpp : Nat := 1024*4

/-- A result of `read`: the count, and the bytes when it is positive. -/
structure Received (limit : Nat) where
  n : Int
  bytes : List UInt8
  count : bytes.length = n.toNat
  fits : bytes.length ≤ limit

def Received.fill {limit : Nat} (received : Received limit) (buf : List UInt8) : List UInt8 :=
  Memory.overwrite buf 0 received.bytes

def endOfStream (limit : Nat) : Received limit := ⟨0,[],rfl,Nat.zero_le limit⟩

def receive {limit : Nat} (bytes : List UInt8) (fits : bytes.length ≤ limit) : Received limit :=
  ⟨bytes.length,bytes,rfl,fits⟩

def responseHeader (serverKey : List UInt8) : List UInt8 :=
  Rfc4648.ascii "HTTP/1.1 101 Switching Protocols\r\n" ++ Rfc4648.ascii "Upgrade: websocket\r\n" ++
    Rfc4648.ascii "Connection: Upgrade\r\n" ++
    (Rfc4648.ascii "Sec-WebSocket-Accept: " ++ cstr serverKey ++ Rfc4648.ascii "\r\n\r\n")

def shakeHand (connfd : Int) (serverKey : Option (List UInt8)) : Traced Event Unit :=
  if connfd = 0 then pure ()
  else match serverKey with
    | none => pure ()
    | some serverKey => Traced.emit (.write (responseHeader serverKey))

def answer (connfd : Int) (buf : List UInt8) : Traced Event Unit := do
  let serverKey := (computeAcceptKey (some buf)).value
  Traced.emit (.computeAcceptKey serverKey)
  shakeHand connfd serverKey

def sendFrame (message : List UInt8) : Traced Event Unit :=
  match packData message with
  | (none,_) => pure ()
  | (some data,n) => if n ≤ 0 then pure () else Traced.emit (.write (data.take n))

/-- The test of `data` before it is set reads whatever the stack holds; `garbage` says
that this is not NULL. No result means that `strlen` has been called on NULL. -/
def response (connfd : Int) (garbage : Bool) (message : Option (List UInt8)) : Traced Event (Option Unit) := do
  Traced.emit (.response message)
  if connfd = 0 then pure (some ())
  else if garbage = false then pure (some ())
  else do
    Traced.emit (.packData message)
    match message with
    | none => pure none
    | some message => do
      sendFrame message
      pure (some ())

structure MainTurn where
  received : Received requestLenMaxC
  garbage : Bool
  heap : List UInt8

def MainTurn.buf (turn : MainTurn) : List UInt8 :=
  turn.received.fill (List.replicate requestLenMaxC 0)

/-- The string that `response` gets is the block of `analyData` and what follows it. -/
def mainLoop (connfd : Int) (connected : Bool) (turn : MainTurn) : Traced Event (Option Bool) := do
  Traced.emit (.read turn.received.n)
  if connected = false then do
    answer connfd turn.buf
    pure (some true)
  else do
    let data := (analyData turn.buf turn.received.n).value
    Traced.emit (.analyData data)
    let alive ← response connfd turn.garbage (data.map (· ++ turn.heap))
    pure (alive.map fun _ => connected)

/-- The variables `accepted_func` prints; `create_heart_data` returns no value, so that
the samples are whatever `handle_buf` points to. -/
structure Heart where
  temperate : UInt16
  walk : Int32
  sleepCnt : UInt16
  samples : List UInt8
  count : samples.length = 100

/-- The conversion `%0<width>d`. -/
def decimal (width : Nat) (number : Int) : List UInt8 :=
  let magnitude := (Nat.toDigits 10 number.natAbs).map fun c => UInt8.ofNat c.toNat
  if number < 0 then 0x2D::List.replicate (width-1-magnitude.length) 0x30 ++ magnitude
  else List.replicate (width-magnitude.length) 0x30 ++ magnitude

def Heart.print (heart : Heart) : List UInt8 :=
  let comma := Rfc4648.ascii ","
  let steps := decimal 4 heart.walk.toInt
  let sleep := decimal 4 heart.sleepCnt.toNat
  decimal 4 (heart.temperate >>> 8).toNat ++ comma ++ steps ++ comma ++ steps ++ comma ++ sleep ++ comma ++
    sleep ++ Rfc4648.ascii " \n" ++ heart.samples.flatMap fun sample => decimal 2 sample.toNat

structure AcceptedTurn where
  received : Received requestLenMaxCpp
  garbage : Bool
  heart : Heart

/-- `buf` is never cleared: it holds the last message and older bytes. -/
def acceptedFunc (connfd : Int) (buf : List UInt8) (turn : AcceptedTurn) :
    Traced Event (Option (List UInt8)) := do
  Traced.emit (.read turn.received.n)
  if turn.received.n < 0 then do
    -- break, and then the statement after the loop
    Traced.emit .close
    pure none
  else do
    let buf := turn.received.fill buf
    Traced.emit (.analyData (analyData buf turn.received.n).value)
    let buf := Memory.overwrite buf 0 (turn.heart.print ++ [0])
    let alive ← response connfd turn.garbage (some buf)
    pure (alive.map fun _ => buf)

@[simp] theorem response_value_some (connfd : Int) (garbage : Bool) (message : List UInt8) :
    (response connfd garbage (some message)).value = some () := by
  unfold response
  split
  · rfl
  · split <;> rfl

theorem response_value_none (connfd : Int) (garbage : Bool) :
    (response connfd garbage none).value = if connfd = 0 ∨ garbage = false then some () else none := by
  unfold response
  by_cases zero : connfd = 0
  · simp [zero]
  · by_cases null : garbage = false <;> simp [zero,null]

theorem response_log (connfd : Int) (garbage : Bool) (message : Option (List UInt8)) :
    (response connfd garbage message).log = .response message::
      if connfd = 0 ∨ garbage = false then [] else .packData message::
        message.elim [] fun message => (sendFrame message).log := by
  unfold response
  by_cases zero : connfd = 0
  · simp [zero]
  · by_cases null : garbage = false
    · simp [zero,null]
    · cases message <;> simp [zero,null]

theorem sendFrame_always (P : Event → Prop) (writes : ∀ block, P (.write block)) (message : List UInt8) :
    (sendFrame message).Always P := by
  unfold sendFrame
  split
  · exact Traced.always_pure P ()
  · split
    · exact Traced.always_pure P ()
    · exact (Traced.always_emit P _).mpr (writes _)

theorem mainLoop_log (connfd : Int) (turn : MainTurn) : (mainLoop connfd true turn).log =
    .read turn.received.n::.analyData (analyData turn.buf turn.received.n).value::
      (response connfd turn.garbage ((analyData turn.buf turn.received.n).value.map (· ++ turn.heap))).log := by
  simp [mainLoop]

theorem acceptedFunc_stopped {connfd : Int} {buf : List UInt8} {turn : AcceptedTurn}
    (stopped : turn.received.n < 0) :
    acceptedFunc connfd buf turn = ⟨none,[.read turn.received.n,.close]⟩ := by
  simp only [acceptedFunc,stopped,if_true]
  rfl

theorem acceptedFunc_served {connfd : Int} {buf : List UInt8} {turn : AcceptedTurn}
    (served : ¬turn.received.n < 0) :
    acceptedFunc connfd buf turn =
      ⟨some (Memory.overwrite (turn.received.fill buf) 0 (turn.heart.print ++ [0])),
        .read turn.received.n::.analyData (analyData (turn.received.fill buf) turn.received.n).value::
          (response connfd turn.garbage
            (some (Memory.overwrite (turn.received.fill buf) 0 (turn.heart.print ++ [0])))).log⟩ := by
  rw [acceptedFunc,if_neg served]
  apply Traced.ext <;> simp

end Libsme.Websocket
