import PinBench.Command

/-!
# Configurations

What a configuration file holds.

* `Device`: a remote device that reports inputs.
* `Bench`: cards, categories, commands and devices under one name.
* `Configuration`: the hardware, the benches that share it, and the default one.
* `Configuration.bench?`, `Configuration.rig`: a bench by name, and its rig at first.
-/

namespace PinBench

open Json (Codec Fields)

/-! ## Benches -/

/-- A remote device that reports inputs. -/
structure Device where
  name : String
  host : String
  port : UInt16
  password : String
  deriving DecidableEq

def Device.codec : Codec Device :=
  (Fields.cons (.required "name" .text) <|
    .cons (.required "host" .text) <|
    .cons (.withDefault "port" .word16 23) <|
    .cons (.withDefault "password" .text "") .nil).record
  (fun (name, host, port, password, ()) => ⟨name, host, port, password⟩)
  (fun d => (d.name, d.host, d.port, d.password, ()))

structure Bench where
  name : String
  cards : List Card
  categories : List Category
  commands : List Command
  devices : List Device
  deriving DecidableEq

def Bench.codec : Codec Bench :=
  (Fields.cons (.required "Name" .text) <|
    .cons (.withDefault "Cards" (.list Card.codec) []) <|
    .cons (.withDefault "Etats" (.list Category.codec) []) <|
    .cons (.withDefault "Commandes" (.list Command.codec) []) <|
    .cons (.withDefault "Telnet" (.list Device.codec) []) .nil).record
  (fun (name, cards, categories, commands, devices, ()) =>
    ⟨name, cards, categories, commands, devices⟩)
  (fun b => (b.name, b.cards, b.categories, b.commands, b.devices, ()))

/-! ## Files -/

/-- The hardware that all benches share. -/
structure Hardware where
  defaultLevel : Bool
  expanders : List Expander
  groups : List PinGroup
  deriving DecidableEq

def Hardware.codec : Codec Hardware :=
  (Fields.cons (.withDefault "defaultState" .bool false) <|
    .cons (.required "modules" (.list Expander.codec)) <|
    .cons (.required "pinout" (.list PinGroup.codec)) .nil).record
  (fun (level, expanders, groups, ()) => ⟨level, expanders, groups⟩)
  (fun h => (h.defaultLevel, h.expanders, h.groups, ()))

structure Configuration where
  /-- The name of the bench to start with. -/
  defaultBench : String
  hardware : Hardware
  benches : List Bench
  deriving DecidableEq

namespace Configuration

/-- The general section holds the name of the default bench and nothing else. -/
def generalCodec : Codec String :=
  (Fields.cons (.required "defaultConfig" .text) .nil).record (fun (s, ()) => s) (fun s => (s, ()))

def codec : Codec Configuration :=
  (Fields.cons (.required "app" generalCodec) <|
    .cons (.required "gpio" Hardware.codec) <|
    .cons (.required "configs" (.list Bench.codec)) .nil).record
  (fun (bench, hardware, benches, ()) => ⟨bench, hardware, benches⟩)
  (fun c => (c.defaultBench, c.hardware, c.benches, ()))

/-- The bench of a name. -/
def bench? (c : Configuration) (name : String) : Option Bench :=
  c.benches.find? (·.name == name)

/-- The rig of a bench before any write. -/
def rig (c : Configuration) (b : Bench) : Rig :=
  ⟨c.hardware.expanders, c.hardware.groups, b.cards, c.hardware.defaultLevel⟩

end Configuration

end PinBench
