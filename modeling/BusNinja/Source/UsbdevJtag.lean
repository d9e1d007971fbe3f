import BusNinja.Source.Jtag

/-!
# The USB side of the JTAG adapter

`usbdev_jtag_tick` of `usbdev_jtag.c`.  Requests and replies share the one
buffer: requests are received from its third byte on, and replies are built
from its first byte on.
-/

namespace BusNinja

/-- A packet of the host: its length word, and the bytes that follow, as far
as they are asked for. -/
structure HostPacket where
  length : BitVec 16
  body : Nat → Byte

/-- The statics of `usbdev_jtag.c` with what they act on; `sent` is what was
written to the IN endpoint. -/
structure UsbdevJtag where
  connected : Bool
  dataFromHostSize : BitVec 16
  dataToHostSize : BitVec 16
  memory : Memory
  jtag : Jtag
  sent : List (List Byte)

/-- `ESTICK_USB_BUFFER_SIZE+ESTICK_USB_BUFFER_OFFSET` -/
def usbBufferSize : Nat := 130

def dataFromHost : Nat := 2

def dataToHost : Nat := 0

/-- `Endpoint_Read_Stream_LE`: store `size` bytes from `address` on. -/
def readStream (body : Nat → Byte) (address : Nat) : Nat → Memory → Memory
  | 0, memory => memory
  | size + 1, memory =>
      (readStream body address size memory).store (address + size) (body size)

/-- The number of pairs of a tap command, from the number of bytes after the
command byte. -/
def tapPairs (command : Byte) (size : BitVec 16) : BitVec 16 :=
  let pairs := size * 4
  let data : BitVec 16 := ((command &&& 0xF0) >>> 4).setWidth 16
  if command &&& 0xF0 ≠ 0 then pairs - (4 - data) else pairs

namespace UsbdevJtag

def reply (usb : UsbdevJtag) : List Byte :=
  (List.range usb.dataToHostSize.toNat).map fun i =>
    usb.memory.bytes (dataToHost + i)

def tapOutput
    (tap : Nat → Nat → BitVec 16 → Jtag → Memory → Byte × Jtag × Memory)
    (usb : UsbdevJtag) : UsbdevJtag :=
  let pairs := tapPairs (usb.memory.bytes dataFromHost) usb.dataFromHostSize
  let (size, jtag, memory) :=
    tap (dataFromHost + 1) dataToHost pairs usb.jtag usb.memory
  { usb with
    dataFromHostSize := pairs
    dataToHostSize := size.setWidth 16
    jtag := jtag
    memory := memory }

def replyByte (value : Byte) (usb : UsbdevJtag) : UsbdevJtag :=
  { usb with
    memory := usb.memory.store dataToHost value
    dataToHostSize := 1 }

end UsbdevJtag

section

variable (pins : List Byte → Byte)

/-- The switch over the command. -/
def jtagCommand (usb : UsbdevJtag) : UsbdevJtag :=
  let argument := usb.memory.bytes (dataFromHost + 1)
  match (usb.memory.bytes dataFromHost &&& 0x0F).toNat with
  | 0 =>
      if usb.jtag.delay ≠ 0 then
        usb.tapOutput (jtagTapOutputWithDelay pins)
      else usb.tapOutput (jtagTapOutputMaxSpeed pins)
  | 4 => usb.tapOutput (jtagTapOutputEmu pins)
  | 3 => usb.replyByte (jtagReadInput pins usb.jtag)
  | 2 =>
      { usb with jtag := jtagSetSrst (argument &&& 1) usb.jtag }.replyByte 0
  | 1 =>
      { usb with jtag := jtagSetTrst (argument &&& 1) usb.jtag }.replyByte 0
  | 5 =>
      { usb with
        jtag := jtagSetDelay (argument.setWidth 16 * 256) usb.jtag }.replyByte 0
  | 6 =>
      { usb with
        jtag := jtagSetTrstSrst (if argument &&& 2 ≠ 0 then 1 else 0)
          (argument &&& 1) usb.jtag }.replyByte 0
  | _ => usb

def usbdevJtagInit (usb : UsbdevJtag) : UsbdevJtag :=
  { usb with
    jtag := jtagInit usb.jtag
    dataFromHostSize := 0
    dataToHostSize := 0 }

def usbdevJtagDeviceConnect (isConnected : Bool) (usb : UsbdevJtag) :
    UsbdevJtag :=
  { usb with connected := isConnected }

/-- The statics as they are zeroed before `main`. -/
def UsbdevJtag.powerOn : UsbdevJtag :=
  { connected := false
    dataFromHostSize := 0
    dataToHostSize := 0
    memory := { bytes := fun _ => 0, stores := [], tapReads := [] }
    jtag := Jtag.powerOn
    sent := [] }

/-- The adapter once the host has configured it. -/
def UsbdevJtag.attached : UsbdevJtag :=
  usbdevJtagDeviceConnect true (usbdevJtagInit UsbdevJtag.powerOn)

/-- The IN half of the tick: send the pending reply if the host takes it. -/
def sendReply (inReady : Bool) (usb : UsbdevJtag) : UsbdevJtag :=
  if usb.dataToHostSize ≠ 0 ∧ inReady = true then
    { usb with sent := usb.sent ++ [usb.reply], dataToHostSize := 0 }
  else usb

/-- The OUT half of the tick: receive a packet and execute its command. -/
def receivePacket (packet : HostPacket) (usb : UsbdevJtag) : UsbdevJtag :=
  let usb :=
    { usb with
      dataFromHostSize := packet.length
      memory := readStream packet.body dataFromHost packet.length.toNat
        usb.memory }
  if usb.dataFromHostSize.toNat > 0 then
    jtagCommand pins
      { usb with
        dataFromHostSize := usb.dataFromHostSize - 1
        dataToHostSize := 0 }
  else usb

/-- What the endpoints offer at a tick: whether IN takes data, and the packet
OUT holds, if any. -/
structure Endpoints where
  inReady : Bool
  packet : Option HostPacket

def usbdevJtagTick (endpoints : Endpoints) (usb : UsbdevJtag) : UsbdevJtag :=
  if usb.connected then
    let usb := sendReply endpoints.inReady usb
    match endpoints.packet with
    | some packet => receivePacket pins packet usb
    | none => usb
  else usb

/-- The endpoints are configured, and TRST and SRST are pulled high. -/
def usbdevJtagDeviceConfigurationChanged (usb : UsbdevJtag) : UsbdevJtag :=
  { usb with jtag := usb.jtag.write 0x0C }

/-- What `usbdev.c` calls of the adapter. -/
inductive JtagEvent where
  | init
  | deviceConnect (isConnected : Bool)
  | deviceConfigurationChanged
  | tick (endpoints : Endpoints)

def jtagEvent : JtagEvent → UsbdevJtag → UsbdevJtag
  | .init => usbdevJtagInit
  | .deviceConnect isConnected => usbdevJtagDeviceConnect isConnected
  | .deviceConfigurationChanged => usbdevJtagDeviceConfigurationChanged
  | .tick endpoints => usbdevJtagTick pins endpoints

end

end BusNinja
