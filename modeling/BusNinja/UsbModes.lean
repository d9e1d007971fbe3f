import BusNinja.JtagPort
import BusNinja.Source.Usbdev

/-!
# Modes of the USB device

The device is switched between its modes while the host comes and goes.  The
JTAG adapter sees only what happens in its own mode, and the console puts out
over CDC only after the host has connected in that mode.
-/

namespace BusNinja

open Attached

variable {δ : Type} (pins : List Byte → Byte)

/-- What is handed on to the adapter of one event. -/
def jtagPart (usbMode : UsbMode) (connected : Bool) : UsbdevEvent → List JtagEvent
  | .init mode => if mode = .jtag then [.init] else []
  | .connect => if usbMode = .jtag then [.deviceConnect true] else []
  | .disconnect => if usbMode = .jtag then [.deviceConnect false] else []
  | .configurationChanged =>
      if usbMode = .jtag then [.deviceConfigurationChanged] else []
  | .tick endpoints =>
      if usbMode = .jtag ∧ connected = true then [.tick endpoints] else []
  | .arrive _ => []

def modeAfter (usbMode : UsbMode) : UsbdevEvent → UsbMode
  | .init mode => mode
  | _ => usbMode

def connectedAfter (connected : Bool) : UsbdevEvent → Bool
  | .connect => true
  | .disconnect => false
  | _ => connected

def jtagShare : UsbMode → Bool → List UsbdevEvent → List JtagEvent
  | _, _, [] => []
  | usbMode, connected, event :: events =>
      jtagPart usbMode connected event ++
        jtagShare (modeAfter usbMode event) (connectedAfter connected event) events

theorem usbdevEvent_jtag (event : UsbdevEvent) (usb : Usbdev δ) :
    (usbdevEvent pins event usb).usbMode = modeAfter usb.usbMode event ∧
      (usbdevEvent pins event usb).connected =
        connectedAfter usb.connected event ∧
      (usbdevEvent pins event usb).jtag =
        Run.run (jtagEvent pins) (jtagPart usb.usbMode usb.connected event)
          usb.jtag := by
  obtain ⟨usbMode, connected, ninja, putcf, jtag, avrispConnected⟩ := usb
  cases event with
  | init mode => cases usbMode <;> cases mode <;> exact ⟨rfl, rfl, rfl⟩
  | connect => cases usbMode <;> exact ⟨rfl, rfl, rfl⟩
  | disconnect => cases usbMode <;> exact ⟨rfl, rfl, rfl⟩
  | configurationChanged => cases usbMode <;> exact ⟨rfl, rfl, rfl⟩
  | tick endpoints =>
      cases connected <;> cases usbMode <;> exact ⟨rfl, rfl, rfl⟩
  | arrive sent => exact ⟨rfl, rfl, rfl⟩

theorem run_jtag (events : List UsbdevEvent) (usb : Usbdev δ) :
    (Run.run (usbdevEvent pins) events usb).jtag =
      Run.run (jtagEvent pins) (jtagShare usb.usbMode usb.connected events)
        usb.jtag := by
  induction events generalizing usb with
  | nil => rfl
  | cons event events induction =>
      obtain ⟨mode, connected, jtag⟩ := usbdevEvent_jtag pins event usb
      rw [Run.run_cons, induction, mode, connected, jtag, jtagShare,
        Run.run_append]

/-- Whatever mode the device is switched to and whatever the host does outside
`usbdev_init` and the ticks: the adapter is where its own events have brought it, and the port has changed
only as permitted. -/
theorem usb_adapter_isolated (ninja : Ninja δ) (events : List UsbdevEvent) :
    ∃ share jtag,
      share = jtagShare .null false events ∧
      jtag = (Run.run (usbdevEvent pins) events (.powerOn ninja)).jtag ∧
      jtag = Run.run (jtagEvent pins) share .powerOn ∧
      Changed Permitted 0 jtag.jtag.writes ∧ jtag.jtag.Idle := by
  have share : (Run.run (usbdevEvent pins) events (.powerOn ninja)).jtag =
      Run.run (jtagEvent pins) (jtagShare .null false events) .powerOn :=
    run_jtag pins events (.powerOn ninja)
  obtain ⟨⟨new, writes, -, changed⟩, idle⟩ := @driven_run pins
    (jtagShare .null false events) UsbdevJtag.powerOn rfl
  refine ⟨_, _, rfl, share.symm, rfl, ?_, idle⟩
  rw [writes]
  exact changed

/-- The host has connected since the last mode was set. -/
def linkedAfter (event : UsbdevEvent) (linked : Bool) : Bool :=
  match event with
  | .init _ => false
  | .connect => true
  | .disconnect => false
  | _ => linked

/-- The console puts out over CDC exactly when it is the mode and the host
has connected in it, and then also receives. -/
structure Linked (linked : Bool) (usb : Usbdev δ) : Prop where
  putcf : usb.putcf = true ↔ usb.usbMode = .cdc ∧ linked = true
  receives : usb.putcf = true → usb.connected = true ∧
    usb.ninja.cdc.connected = true ∧ usb.ninja.cdc.rxCb = true ∧
    usb.ninja.cdc.rxReadyCb = true

theorem Linked.step {linked : Bool} {usb : Usbdev δ} (link : Linked linked usb)
    (event : UsbdevEvent) :
    Linked (linkedAfter event linked) (usbdevEvent pins event usb) := by
  obtain ⟨usbMode, connected, ninja, putcf, jtag, avrispConnected⟩ := usb
  obtain ⟨linkedIff, receives⟩ := link
  dsimp only at linkedIff receives
  cases event with
  | init mode =>
      have silent : usbMode ≠ .cdc → putcf = false := by
        intro other
        exact Bool.eq_false_iff.mpr fun put => other (linkedIff.mp put).1
      have off : (usbdevEvent pins (.init mode) (Usbdev.mk usbMode connected ninja
          putcf jtag avrispConnected)).putcf = false := by
        cases usbMode with
        | cdc => cases mode <;> rfl
        | null | jtag | avrisp => cases mode <;> exact silent (by decide)
      exact ⟨by simp [off, linkedAfter], fun put => absurd (off.symm.trans put)
        Bool.false_ne_true⟩
  | connect =>
      cases usbMode with
      | cdc => exact ⟨iff_of_true rfl ⟨rfl, rfl⟩, fun _ => ⟨rfl, rfl, rfl, rfl⟩⟩
      | null | jtag | avrisp =>
          have off : putcf = false :=
            Bool.eq_false_iff.mpr fun put => nomatch (linkedIff.mp put).1
          subst off
          exact ⟨⟨nofun, nofun⟩, nofun⟩
  | disconnect =>
      cases usbMode with
      | cdc => exact ⟨⟨nofun, nofun⟩, nofun⟩
      | null | jtag | avrisp =>
          have off : putcf = false :=
            Bool.eq_false_iff.mpr fun put => nomatch (linkedIff.mp put).1
          subst off
          exact ⟨⟨nofun, nofun⟩, nofun⟩
  | configurationChanged => cases usbMode <;> exact ⟨linkedIff, receives⟩
  | tick endpoints =>
      cases connected with
      | false => exact ⟨linkedIff, receives⟩
      | true =>
          cases usbMode with
          | cdc =>
              obtain ⟨endpoint, cdc⟩ := usbdevCdcTick_cdc ninja
              refine ⟨linkedIff, ?_⟩
              intro put
              change true = true ∧ (usbdevCdcTick ninja).cdc.connected = true ∧
                (usbdevCdcTick ninja).cdc.rxCb = true ∧
                (usbdevCdcTick ninja).cdc.rxReadyCb = true
              rw [cdc]
              exact receives put
          | null | jtag | avrisp => exact ⟨linkedIff, receives⟩
  | arrive sent => exact ⟨linkedIff, receives⟩

/-- Whatever mode the device is switched to and whatever the host does outside
`usbdev_init`: the console puts out over CDC exactly when this is the mode and
the host has connected since it was set, and then it also receives. -/
theorem usb_console_linked (ninja : Ninja δ) (events : List UsbdevEvent) :
    ∃ usb linked,
      usb = Run.run (usbdevEvent pins) events (.powerOn ninja) ∧
      linked = Run.run linkedAfter events false ∧
      (usb.putcf = true ↔ usb.usbMode = .cdc ∧ linked = true) ∧
      (usb.putcf = true → usb.connected = true ∧
        usb.ninja.cdc.connected = true ∧ usb.ninja.cdc.rxCb = true ∧
        usb.ninja.cdc.rxReadyCb = true) := by
  have initial : Linked false (Usbdev.powerOn ninja) := ⟨⟨nofun, nofun⟩, nofun⟩
  have kept : ∀ event linked (usb : Usbdev δ), (fun _ => True) event →
      Linked linked usb →
      Linked (linkedAfter event linked) (usbdevEvent pins event usb) :=
    fun event _ _ _ link => link.step pins event
  have link : Linked (Run.run linkedAfter events false)
      (Run.run (usbdevEvent pins) events (.powerOn ninja)) :=
    Run.run_related kept (fun _ _ => trivial) initial
  exact ⟨_, _, rfl, rfl, link.putcf, link.receives⟩

end BusNinja
