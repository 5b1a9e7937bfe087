import OpenVAS.Lib.Bytes
import OpenVAS.Lib.CString
import OpenVAS.Lib.Channel

/-! Messages between the processes of a scan. `internal_send` writes the type
of a message and, unless it is a control message, the length and the bytes of
its text, and waits for an acknowledgement; `internal_recv` reads them into a
buffer that its caller keeps from one message to the next. -/
namespace Ipc

open Channel

def internalCommMsgTypeCtrl : Int32 := Int32.ofNat (1 <<< 16)
def internalCommMsgTypeData : Int32 := Int32.ofNat (1 <<< 18)
def internalCommCtrlAck : Int32 := 2

/-- Whether a message has no body. -/
def IsCtrl (msgType : Int32) : Prop := msgType &&& internalCommMsgTypeCtrl ≠ 0

instance (msgType : Int32) : Decidable (IsCtrl msgType) := inferInstanceAs (Decidable (_ ≠ _))

def sizeofInt : Int32 := 4

/-- An `int` in memory, the least significant byte first. -/
def intBytes (value : Int32) : List UInt8 := (Bytes.ofValue 4 value.toUInt32.toNat).reverse

def intOfBytes (bytes : List UInt8) : Int32 := (UInt32.ofNat (Bytes.value bytes.reverse)).toInt32

/-- The loop of `os_send` after `n` bytes. An answer of 0 is an error. -/
def osSendFrom (buf : List UInt8) (len : Int32) (n : Nat) : Proc Int32 :=
  if n < len.toNatClampNeg then
    .send ((buf.drop n).take (len.toNatClampNeg - n)) fun e =>
      if e = 0 then return -1 else osSendFrom buf len (n + e)
  else return Int32.ofNat n
termination_by len.toNatClampNeg - n

def osSend (buf : List UInt8) (len : Int32) : Proc Int32 := osSendFrom buf len 0

/-- The loop of `os_recv` with the bytes received so far. -/
def osRecvInto (buf : List UInt8) (len : Int32) : Proc (Int32 × List UInt8) :=
  if buf.length < len.toNatClampNeg then
    .recv (len.toNatClampNeg - buf.length) fun chunk =>
      if chunk = [] then return (-1, buf) else osRecvInto (buf ++ chunk) len
  else return (Int32.ofNat buf.length, buf)
termination_by len.toNatClampNeg - buf.length
decreasing_by
  have : 0 < chunk.length := List.length_pos_of_ne_nil ‹_›
  simp only [List.length_append]
  omega

def osRecv (len : Int32) : Proc (Int32 × List UInt8) := osRecvInto [] len

/-- The last part of `internal_send`: it waits for the acknowledgement, whose
value it does not look at. -/
def awaitAck : Proc Int32 := do
  let (e, _) ← osRecv sizeofInt
  if e < 0 then return -1 else return 0

/-- The result of `strlen` goes through an `int`. -/
def internalSend (data : CString) (msgType : Int32) : Proc Int32 := do
  let e ← osSend (intBytes msgType) sizeofInt
  if e < 0 then return -1
  else if IsCtrl msgType then awaitAck
  else
    let len := Int32.ofNat data.length
    let e ← osSend (intBytes len) sizeofInt
    if e < 0 then return -1
    else
      let e ← osSend data len
      if e < 0 then return -1 else awaitAck

/-- Zeroed memory, one byte more than asked for. -/
def emalloc (size : Nat) : List UInt8 := List.replicate (size + 1) 0

/-- `none` is `exit (1)`. The bytes of the new part are whatever `junk` says. -/
def erealloc (junk : Nat → UInt8) (buf : List UInt8) (size : Int32) : Option (List UInt8) :=
  if size < 0 then none
  else some ((List.range size.toNatClampNeg).map fun i => buf.getD i (junk i))

/-- The pair of `data` and `data_sz`; no `data` is the NULL pointer. -/
structure Inbox where
  data : Option (List UInt8)
  dataSz : Int32
  deriving DecidableEq

/-- The text a pointer to the buffer stands for. -/
def stringAt (buf : List UInt8) : CString := buf.takeWhile (· ≠ 0)

def Inbox.held (inbox : Inbox) : Option CString := inbox.data.map stringAt

/-- How `internal_recv` ends, when it does not end the process: its return
value, and the caller's pair and message type. -/
structure Receipt where
  result : Int32
  inbox : Inbox
  msgType : Int32

def recvError (msgType : Int32) : Receipt := ⟨-1, ⟨none, 0⟩, msgType⟩

/-- The buffer `internal_recv` works with, and its size. -/
def workingBuffer (inbox : Inbox) : List UInt8 × Int32 :=
  match inbox.data with
  | none => (emalloc 65535, 65535)
  | some buf => (buf, inbox.dataSz)

/-- The last part of `internal_recv`. -/
def acknowledge (len : Int32) (inbox : Inbox) (type msgType : Int32) : Proc (Option Receipt) := do
  let ack := internalCommMsgTypeCtrl ||| internalCommCtrlAck
  let e ← osSend (intBytes ack) sizeofInt
  if e < 0 then return some (recvError msgType) else return some ⟨len, inbox, type⟩

/-- The bytes are received only when there are some, and only then is a NUL put
behind them. -/
def recvBody (buf : List UInt8) (sz len type msgType : Int32) : Proc (Option Receipt) :=
  if 0 < len then do
    let (e, bytes) ← osRecv len
    if e < 0 then return some (recvError msgType)
    else
      let buf := (bytes ++ buf.drop bytes.length).set len.toNatClampNeg 0
      acknowledge len ⟨some buf, sz⟩ type msgType
  else acknowledge len ⟨some buf, sz⟩ type msgType

/-- `none` says that `erealloc` has ended the process. -/
def internalRecv (junk : Nat → UInt8) (inbox : Inbox) (msgType : Int32) :
    Proc (Option Receipt) := do
  let (buf, sz) := workingBuffer inbox
  let (e, bytes) ← osRecv sizeofInt
  if e < 0 then return some (recvError msgType)
  else
    let type := intOfBytes bytes
    if IsCtrl type then acknowledge 0 inbox type msgType
    else
      let (e, bytes) ← osRecv sizeofInt
      if e < 0 then return some (recvError msgType)
      else
        let len := intOfBytes bytes
        if sz ≤ len then
          match erealloc junk buf (len + 1) with
          | none => return none
          | some buf => recvBody buf (len + 1) len type msgType
        else recvBody buf sz len type msgType

/-- What the caller of `internal_recv` finds: the type, and the text that its
`data` points to. -/
structure Received where
  type : Int32
  data : Option CString
  deriving DecidableEq

/-- `process_internal_msg` frees a buffer of more than 65535 bytes, which other
callers of `internal_recv` need not do. The size on record stays. -/
def releaseLarge (releases : Bool) (inbox : Inbox) : Inbox :=
  if releases ∧ 65535 < inbox.dataSz then { inbox with data := none } else inbox

/-- `process_internal_msg` without the handling of the message; `none` says that
it takes the process for dead. -/
def processInternalMsg (junk : Nat → UInt8) (releases : Bool) (inbox : Inbox) :
    Proc (Option (Received × Inbox)) := do
  match ← internalRecv junk inbox 0 with
  | none => return none
  | some receipt =>
      if receipt.result < 0 then return none
      else
        let message := ⟨receipt.msgType, receipt.inbox.held⟩
        return some (message, releaseLarge releases receipt.inbox)

/-- A peer that receives message after message with one pair. -/
def receiveAll (junk : Nat → UInt8) (releases : Bool) :
    Nat → Inbox → List Received → Proc (List Received)
  | 0, _, log => return log
  | calls + 1, inbox, log => do
      match ← processInternalMsg junk releases inbox with
      | none => return log
      | some (message, inbox) => receiveAll junk releases calls inbox (log ++ [message])

structure Message where
  type : Int32
  data : CString
  deriving DecidableEq

def sendAll : List Message → Proc Unit
  | [] => return ()
  | message :: rest => do
      let _ ← internalSend message.data message.type
      sendAll rest

/-- A sender of these messages and a peer that expects as many, before the first call. -/
def conversation (junk : Nat → UInt8) (releases : Bool) (messages : List Message) :
    Config Unit (List Received) :=
  ⟨sendAll messages, receiveAll junk releases messages.length ⟨none, 0⟩ [], [], []⟩

end Ipc
