import BusNinja.Library.Run
import BusNinja.Library.Ledger
import BusNinja.Library.Lexing
import BusNinja.Library.Positional
import BusNinja.Library.LineEditor
import BusNinja.Library.WrapCounter
import BusNinja.Library.Terminal
import BusNinja.Library.Traced
import BusNinja.Library.Blend
import BusNinja.Library.Cycle
import BusNinja.Library.I2cWire
import BusNinja.Library.I2cSlots
import BusNinja.Library.Attached
import BusNinja.Library.Packing
import BusNinja.Source.Console
import BusNinja.Source.Bus
import BusNinja.Source.ConsoleInput
import BusNinja.Source.Ninja
import BusNinja.Source.CallStack
import BusNinja.Source.Parse
import BusNinja.Source.Commands
import BusNinja.Source.BusSpi
import BusNinja.Source.Led
import BusNinja.Source.LedTimer
import BusNinja.Source.GlobalCommands
import BusNinja.Source.DriverTick
import BusNinja.Source.TestCommand
import BusNinja.Source.OutputCommands
import BusNinja.Source.Pointers
import BusNinja.Source.Jtag
import BusNinja.Source.UsbdevJtag
import BusNinja.Source.HwI2c
import BusNinja.Source.BusI2c
import BusNinja.HwI2cEffects
import BusNinja.HwI2cReference
import BusNinja.HwI2cLines
import BusNinja.HwI2cRefinement
import BusNinja.HwI2cInterrupts
import BusNinja.BusI2cSteps
import BusNinja.BusI2cError
import BusNinja.BusI2cTransaction
import BusNinja.BusI2cRuns
import BusNinja.BusI2cDebt
import BusNinja.BusI2cReception
import BusNinja.BusI2cScan
import BusNinja.BusI2cWire
import BusNinja.CommandTokens
import BusNinja.Numerals
import BusNinja.NumeralReading
import BusNinja.DecimalOutput
import BusNinja.CommandRepeats
import BusNinja.CommandNames
import BusNinja.CommandLine
import BusNinja.CommandScripts
import BusNinja.CommandArguments
import BusNinja.CommandWords
import BusNinja.CommandPointers
import BusNinja.NumeralWrapping
import BusNinja.CommandInstructions
import BusNinja.CommandBrackets
import BusNinja.CommandComments
import BusNinja.CommandSpelling
import BusNinja.BusSwitches
import BusNinja.BusDump
import BusNinja.BusI2cRequests
import BusNinja.BusSettings
import BusNinja.ConsoleLines
import BusNinja.ConsoleSessions
import BusNinja.ConsoleDisplay
import BusNinja.BusI2cSessions
import BusNinja.ConsoleKeys
import BusNinja.ConsoleCalls
import BusNinja.LateArrivals
import BusNinja.TickAtomicity
import BusNinja.BitbangExit
import BusNinja.KeyCommands
import BusNinja.JtagTaps
import BusNinja.JtagReference
import BusNinja.JtagPacked
import BusNinja.JtagEmu
import BusNinja.JtagRequests
import BusNinja.JtagBuffer
import BusNinja.JtagReplies
import BusNinja.JtagDelays
import BusNinja.JtagPort
import BusNinja.JtagProbe
import BusNinja.UsbModes
import BusNinja.LedSteps
import BusNinja.LedLevels
import BusNinja.LedPlaying
import BusNinja.LedDuty
import BusNinja.LedSessions
