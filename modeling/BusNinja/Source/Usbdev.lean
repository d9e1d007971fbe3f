import BusNinja.Source.Ninja
import BusNinja.Source.UsbdevJtag

/-!
# The USB device

`usbdev.c` in a build with the CDC console, the JTAG adapter and
`usbdev_avrisp.c`, whose tick does nothing yet.  The host's coming and going
is raised by interrupts, and `EVENT_USB_Device_ConfigurationChanged` by
`USB_USBTask`, at the end of `usbdev_tick`, from a control request.  All are
events of their own here: `usbdev_init` and the handlers run undisturbed, so
that no interrupt comes between the shutdown of the old mode and the new
`usbMode`.
-/

namespace BusNinja

inductive UsbMode where
  | null
  | cdc
  | jtag
  | avrisp
  deriving DecidableEq, Repr

/-- The statics of `usbdev.c` with what it drives; `putcf` says whether the
console puts out over CDC. -/
structure Usbdev (δ : Type) where
  usbMode : UsbMode
  connected : Bool
  ninja : Ninja δ
  putcf : Bool
  jtag : UsbdevJtag
  avrispConnected : Bool

variable {δ : Type}

/-- `console_puts_P` and `console_newline`. -/
def Usbdev.say (str : String) (usb : Usbdev δ) : Usbdev δ :=
  { usb with
    ninja := usb.ninja.print fun console =>
      consoleNewline (consolePutsP (text str) console) }

/-- What `usbdev_init` does in the mode it leaves. -/
def Usbdev.shutdown (usb : Usbdev δ) : Usbdev δ :=
  match usb.usbMode with
  | .cdc => { usb with putcf := false }
  | .jtag => usb
  | .avrisp => usb.say "shutdown"
  | .null => usb

def usbdevInit (mode : UsbMode) (usb : Usbdev δ) : Usbdev δ :=
  let usb := { usb.shutdown with usbMode := mode }
  match mode with
  | .cdc => usb
  | .jtag => { usb with jtag := usbdevJtagInit usb.jtag }
  | .avrisp => usb.say "init"
  | .null => usb

/-- `EVENT_USB_Device_Connect` and `EVENT_USB_Device_Disconnect`. -/
def eventUsbDeviceConnection (isConnected : Bool) (usb : Usbdev δ) : Usbdev δ :=
  let usb := { usb with connected := isConnected }
  match usb.usbMode with
  | .cdc =>
      { usb with
        ninja.cdc := usbdevCdcDeviceConnect true isConnected usb.ninja.cdc
        putcf := isConnected }
  | .jtag => { usb with jtag := usbdevJtagDeviceConnect isConnected usb.jtag }
  | .avrisp => { usb.say "connect" with avrispConnected := isConnected }
  | .null => usb

def eventUsbDeviceConnect : Usbdev δ → Usbdev δ := eventUsbDeviceConnection true

def eventUsbDeviceDisconnect : Usbdev δ → Usbdev δ :=
  eventUsbDeviceConnection false

def eventUsbDeviceConfigurationChanged (usb : Usbdev δ) : Usbdev δ :=
  match usb.usbMode with
  | .cdc => usb
  | .jtag => { usb with jtag := usbdevJtagDeviceConfigurationChanged usb.jtag }
  | .avrisp => usb.say "configchange"
  | .null => usb

/-- What happens around the device: `usbdev_init` is called, an event is
raised, the drivers tick, or the host sends bytes to the console. -/
inductive UsbdevEvent where
  | init (mode : UsbMode)
  | connect
  | disconnect
  | configurationChanged
  | tick (endpoints : Endpoints)
  | arrive (sent : List Byte)

section

variable (pins : List Byte → Byte)

/-- A configuration set by `USB_USBTask` follows as an event. -/
def usbdevTick (endpoints : Endpoints) (usb : Usbdev δ) : Usbdev δ :=
  if usb.connected then
    match usb.usbMode with
    | .cdc => { usb with ninja := usbdevCdcTick usb.ninja }
    | .jtag => { usb with jtag := usbdevJtagTick pins endpoints usb.jtag }
    | .avrisp => usb
    | .null => usb
  else usb

def usbdevEvent : UsbdevEvent → Usbdev δ → Usbdev δ
  | .init mode => usbdevInit mode
  | .connect => eventUsbDeviceConnect
  | .disconnect => eventUsbDeviceDisconnect
  | .configurationChanged => eventUsbDeviceConfigurationChanged
  | .tick endpoints => usbdevTick pins endpoints
  | .arrive sent => fun usb =>
      { usb with ninja.cdc.endpoint := usb.ninja.cdc.endpoint ++ sent }

end

def Usbdev.powerOn (ninja : Ninja δ) : Usbdev δ where
  usbMode := .null
  connected := false
  ninja := { ninja with cdc := .powerOn }
  putcf := false
  jtag := .powerOn
  avrispConnected := false

end BusNinja
