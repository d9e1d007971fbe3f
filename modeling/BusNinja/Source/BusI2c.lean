import BusNinja.Source.HwI2c

/-!
# The I2C bus driver

`bus_i2c.c`.  Every transfer is delayed by one call: the driver stores what
it was asked to do in `state` and `pending_data`, and the next call sends it.
-/

namespace BusNinja

inductive BusI2cState where
  | init              -- starting state
  | addrPending       -- waiting for address byte
  | startPending      -- send address byte, waiting for data byte
  | writeDataPending  -- send data byte, waiting for data byte
  | readDataPending   -- receive data, waiting for more data
  | error             -- null state, until the state is reset
  deriving DecidableEq, Repr

/-- The statics of `bus_i2c.c` with what its handlers act on. -/
structure BusI2c where
  state : BusI2cState
  pendingData : Byte
  hw : HwI2c
  out : BusOutput
  deriving DecidableEq, Repr

/-- `data & 0x1 ? hw_i2c_rd : hw_i2c_wr` -/
def rdwrOf (data : Byte) : HwI2cRdwr := if data &&& 0x1 ≠ 0 then .rd else .wr

namespace BusI2c

variable (slave : Slave)

def puts (str : String) (bus : BusI2c) : BusI2c :=
  { bus with out := busLogPutsP str bus.out }

def putc (c : Byte) (bus : BusI2c) : BusI2c :=
  { bus with out := busLogPutc c bus.out }

def put0x8 (c : Byte) (bus : BusI2c) : BusI2c :=
  { bus with out := busLogPut0x8 c bus.out }

def newline (bus : BusI2c) : BusI2c :=
  { bus with out := busLogNewline bus.out }

/-- The message before a pending byte is sent. -/
def putsWrite (bus : BusI2c) : BusI2c :=
  ((bus.puts "I2C WRITE: ").put0x8 bus.pendingData).puts " GOT ACK: "

def hand (c : Byte) (bus : BusI2c) : BusI2c :=
  { bus with out := busOut c bus.out }

def masterStart (address : Byte) (rdwr : HwI2cRdwr) (bus : BusI2c) :
    Bool × BusI2c :=
  let (ok, hw) := hwI2cMasterStart slave address rdwr bus.hw
  (ok, { bus with hw := hw })

def masterStop (bus : BusI2c) : BusI2c :=
  { bus with hw := hwI2cMasterStop slave bus.hw }

def busClear (bus : BusI2c) : BusI2c :=
  { bus with hw := hwI2cBusClear slave bus.hw }

/-- `hw_i2c_master_tx(&pending_data, 1)` -/
def masterTx (bus : BusI2c) : Bool × BusI2c :=
  let (ok, hw) := hwI2cMasterTx slave [bus.pendingData] bus.hw
  (ok, { bus with hw := hw })

/-- `hw_i2c_master_rx(&c, 1, ack)`, with the byte stored in `c`. -/
def masterRx (ack : Bool) (bus : BusI2c) : Bool × Byte × BusI2c :=
  let (ok, buf, hw) := hwI2cMasterRx slave 1 ack bus.hw
  (ok, buf.headD 0, { bus with hw := hw })

end BusI2c

section

variable (slave : Slave)

def busI2cOpen (bus : BusI2c) : BusI2c :=
  let bus := (bus.puts "I2C OPEN").newline
  let bus := { bus with state := .init, hw := hwI2cInit slave bus.hw }
  bus.busClear slave

def busI2cClose (bus : BusI2c) : BusI2c :=
  { bus with hw := hwI2cShutdown bus.hw }

def busI2cStart (bus : BusI2c) : BusI2c := { bus with state := .addrPending }

def busI2cStop (bus : BusI2c) : BusI2c :=
  let bus :=
    match bus.state with
    | .startPending =>
        let (ok, bus) :=
          bus.masterStart slave bus.pendingData (rdwrOf bus.pendingData)
        let bus := if !ok then bus.puts "NACK" else bus.puts "OK"
        let bus := bus.newline.masterStop slave
        (bus.puts "I2C STOP CONDITION").newline
    | .writeDataPending =>
        let (ok, bus) := bus.putsWrite.masterTx slave  -- write the last byte
        let bus := if ok then bus.puts "YES" else bus.puts "NO"
        let bus := bus.newline.masterStop slave
        (bus.puts "I2C STOP CONDITION").newline
    | .readDataPending =>
        let bus := bus.puts "I2C READ: "
        let (ok, c, bus) := bus.masterRx slave false  -- last read
        let bus := if ok then bus.hand c else bus.puts "NO"
        let bus := bus.newline.masterStop slave
        (bus.puts "I2C STOP CONDITION").newline
    | _ => bus
  { bus with state := .init }

def busI2cWrite (c : Byte) (bus : BusI2c) : BusI2c :=
  match bus.state with
  | .addrPending =>
      { bus with pendingData := c, state := .startPending }
  | .startPending =>
      let bus := (bus.puts "I2C START CONDITION").newline.putsWrite
      let (ok, bus) :=
        bus.masterStart slave bus.pendingData (rdwrOf bus.pendingData)
      let bus :=
        if !ok then
          { (bus.busClear slave).puts "NO" with state := .error }
        else
          { bus.puts "YES" with pendingData := c, state := .writeDataPending }
      bus.newline
  | .writeDataPending =>
      let (ok, bus) := bus.putsWrite.masterTx slave  -- more data to come
      let bus :=
        if ok then { bus.puts "YES" with pendingData := c }
        else { (bus.busClear slave).puts "NO" with state := .error }
      bus.newline
  | _ => { bus.busClear slave with state := .error }

def busI2cRead (bus : BusI2c) : BusI2c :=
  match bus.state with
  | .startPending =>
      let (ok, bus) :=
        bus.masterStart slave bus.pendingData (rdwrOf bus.pendingData)
      let bus :=
        if !ok then
          { (bus.busClear slave).puts "NACK" with state := .error }
        else
          { bus.puts "I2C START CONDITION" with state := .readDataPending }
      bus.newline
  | .readDataPending =>
      let bus := bus.puts "I2C READ: "
      let (ok, c, bus) := bus.masterRx slave true  -- more data to come
      let bus :=
        if ok then bus.hand c
        else { (bus.busClear slave).puts "NO" with state := .error }
      bus.newline
  | _ => { bus.busClear slave with state := .error }

/-- The message of the scanner about a device that answers. -/
def putsFound (i : Byte) (bus : BusI2c) : BusI2c :=
  let bus := ((bus.put0x8 i).putc 0x28).put0x8 (i >>> 1)
  let bus := bus.putc 0x20
  let bus := if i &&& 0x1 ≠ 0 then bus.putc 0x52 else bus.putc 0x57
  (bus.putc 0x29).newline

def scanAddress (i : Byte) (bus : BusI2c) : BusI2c :=
  let (ok, bus) := bus.masterStart slave i (rdwrOf i)
  let bus := if ok then putsFound i bus else bus
  bus.busClear slave

/-- The do-while loop of the scanner from `i` down to 0. -/
def scanLoop : Nat → BusI2c → BusI2c
  | 0, bus => scanAddress slave 0 bus
  | i + 1, bus => scanLoop i (scanAddress slave (BitVec.ofNat 8 (i + 1)) bus)

/-- The same loop on the eight-bit `i`, for at most `fuel` rounds. -/
def scanRounds : Nat → Byte → BusI2c → Option BusI2c
  | 0, _, _ => none
  | fuel + 1, i, bus =>
      let bus := scanAddress slave i bus
      if i > 0 then scanRounds fuel (i - 1) bus else some bus

/-- The scanner runs on a command of the one character `s`. -/
def busI2cCommand (start : List Byte) (_repeat : BitVec 32) (bus : BusI2c) :
    Bool × BusI2c :=
  if start = [0x73] then (true, scanLoop slave 0xFF bus) else (false, bus)

/-- The entry points of `bus_i2c`. -/
inductive BusI2cCall where
  | openBus
  | start
  | stop
  | write (c : Byte)
  | read
  | command (start : List Byte) (count : BitVec 32)
  deriving DecidableEq, Repr

def busI2cCall : BusI2cCall → BusI2c → BusI2c
  | .openBus, bus => busI2cOpen slave bus
  | .start, bus => busI2cStart bus
  | .stop, bus => busI2cStop slave bus
  | .write c, bus => busI2cWrite slave c bus
  | .read, bus => busI2cRead slave bus
  | .command start count, bus => (busI2cCommand slave start count bus).2

end

end BusNinja
