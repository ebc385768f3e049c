import Speculos.Transport.Construct

/-!
# The NFC transport of the emulator

`NFC` of `nfc.py`. `MTU` is never assigned again and is a constant here;
`sent` records the packets given to `send_cb`, all with the tag
`NFC_APDU_EVENT`.
-/

namespace Speculos.Transport

open Lib

structure NFC where
  rxSequence : Nat
  rxSize : Nat
  rxData : Bytes
  sent : List Bytes
  deriving DecidableEq, Repr

namespace NFC

def mtu : Nat := 140

def new : NFC := { rxSequence := 0, rxSize := 0, rxData := [], sent := [] }

/-- The end of `handle_rapdu`: return a whole response or wait for more. -/
def finishChunk : Py NFC (Option Bytes) := do
  let nfc ← get
  if nfc.rxData.length = nfc.rxSize then
    -- prepare for next call
    set { nfc with rxSequence := 0 }
    return some nfc.rxData
  else
    set { nfc with rxSequence := nfc.rxSequence + 1 }
    return none

def handleRapdu (data : Bytes) : Py NFC (Option Bytes) := do
  match data[2]? with
  | none => throw .indexError
  | some tag =>
    -- only APDU packets are supported
    if tag ≠ 0x05 then return none
    else
      let sequence := fromBE ((data.drop 3).take 2)
      if (← get).rxSequence ≠ sequence then
        throw (.valueError ("Unexpected sequence number:" ++ toString sequence))
      else
        if sequence = 0 then
          modify fun nfc => { nfc with
            rxSize := fromBE ((data.drop 5).take 2)
            rxData := data.drop 7 }
        else modify fun nfc => { nfc with rxData := nfc.rxData ++ data.drop 5 }
        finishChunk

/-- The loop of `send` that cuts the data. -/
def chunks (data : Bytes) : List Bytes :=
  if h : data.length > 0 then
    data.take (mtu - 5) :: chunks (data.drop (mtu - 5))
  else []
termination_by data.length
decreasing_by
  rw [List.length_drop]
  have : mtu = 140 := rfl
  omega

def toBytes2 (n : Nat) : Py σ Bytes :=
  if n < 65536 then pure (be16 n) else throw .overflowError

def sendChunks (dataLen : Nat) : Nat → List Bytes → Py NFC Unit
  | _, [] => pure ()
  | i, chunk :: rest => do
    let header := [0x00, 0x00, 0x05] ++ (← toBytes2 i)
    -- first packet contains the size of full buffer
    let size ← if i = 0 then toBytes2 dataLen else pure []
    modify fun nfc => { nfc with sent := nfc.sent ++ [header ++ size ++ chunk] }
    sendChunks dataLen (i + 1) rest

def send (data : Bytes) : Py NFC Unit := sendChunks data.length 0 (chunks data)

end NFC

end Speculos.Transport
