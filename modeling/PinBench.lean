import PinBench.Bus.I2c
import PinBench.Bus.Interrupted
import PinBench.Listing.Queue
import PinBench.Listing.Receiver
import PinBench.Main
import PinBench.Proofs.Bit
import PinBench.Proofs.Link
import PinBench.Proofs.Rig.Shape
import PinBench.Proofs.Rig.Site
import PinBench.Proofs.Rig.Spot
import PinBench.Proofs.Rig.Levels
import PinBench.Proofs.Rig.Places
import PinBench.Proofs.PinWrite.Call
import PinBench.Proofs.PinWrite.Masked
import PinBench.Proofs.PinWrite.Strict
import PinBench.Proofs.Move
import PinBench.Proofs.BringUp
import PinBench.Proofs.Mirror
import PinBench.Proofs.Station.Operation
import PinBench.Proofs.Tracker
import PinBench.Proofs.Debounce
import PinBench.Proofs.Station.Faithful
import PinBench.Proofs.Command
import PinBench.Proofs.Condition
import PinBench.Proofs.Availability
import PinBench.Proofs.Configuration.Apart
import PinBench.Proofs.Configuration.Check
import PinBench.Proofs.Configuration.Problem
import PinBench.Proofs.Bus.Simulated
import PinBench.Proofs.InStep
import PinBench.Proofs.Station.Moves
import PinBench.Proofs.Station.Plant
import PinBench.Proofs.Station.Start
import PinBench.Proofs.Station.Readback
import PinBench.Proofs.Bus.Alike
import PinBench.Proofs.Station.Alike
import PinBench.Proofs.Station.Unseen
import PinBench.Proofs.Station.Sound
import PinBench.Proofs.PinWrite.Paths
import PinBench.Proofs.PinWrite.Faults
import PinBench.Proofs.PinWrite.Spot
import PinBench.Proofs.PinWrite.Again
import PinBench.Proofs.PinWrite.Commute
import PinBench.Proofs.Station.Switch
import PinBench.Proofs.Station.Dispatch
import PinBench.Proofs.Station.Turns
import PinBench.Proofs.Station.Told
import PinBench.Proofs.Station.Refusal
import PinBench.Proofs.Station.Views
import PinBench.Proofs.Text.Utf8
import PinBench.Proofs.Text.Torn
import PinBench.Proofs.Listing.Marker
import PinBench.Proofs.Listing.Lines
import PinBench.Proofs.Listing.Framing
import PinBench.Proofs.Listing.Last
import PinBench.Proofs.Listing.Noise
import PinBench.Proofs.Listing.Recovery
import PinBench.Proofs.Listing.Latest
import PinBench.Proofs.Listing.Chunks
import PinBench.Proofs.Listing.Bounded
import PinBench.Proofs.Json.Token
import PinBench.Proofs.Json.Wording
import PinBench.Proofs.Json.Text
import PinBench.Proofs.Json.Magnitude
import PinBench.Proofs.Text.Blank
import PinBench.Proofs.Text.Numeral
import PinBench.Proofs.Json.HexByte
import PinBench.Proofs.Json.Codec
import PinBench.Proofs.Json.Variation
import PinBench.Proofs.Json.ReadBack
import PinBench.Proofs.Json.Rearranged
import PinBench.Proofs.Console
import PinBench.Proofs.Station.Demand
import PinBench.Proofs.Station.Reasons
import PinBench.Proofs.Station.Readings
import PinBench.Proofs.Station.Arguments
