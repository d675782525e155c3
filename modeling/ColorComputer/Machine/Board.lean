import ColorComputer.Bus
import ColorComputer.Chip.Gime
import ColorComputer.Chip.Pia
import ColorComputer.Input.Panel
import ColorComputer.Memory.Banked
import ColorComputer.Output.SampleQueue

/-!
# The board

The chips, the memory, the cartridge port and the input panel, wired to one bus. Addresses below
$FF00 lead to memory; the page from $FF00 on is decoded here:

| Addresses        | Device                                                      |
|------------------|-------------------------------------------------------------|
| $FF00 to $FF1F   | first adapter: keyboard, joysticks, line and field edges    |
| $FF20 to $FF3F   | second adapter: converter, sound enable, cartridge edge     |
| $FF40            | cartridge bank, write only                                  |
| $FF90 to $FF9F   | GIME control and video registers                            |
| $FFA0 to $FFAF   | task registers of the memory map                            |
| $FFB0 to $FFBF   | palette                                                     |
| $FFC0 to $FFDF   | selector bits: an even address clears one, an odd one sets it |
| $FFF0 to $FFFF   | vectors, from the end of the system ROM                     |

Nothing drives the rest of the page.

* `peek_eq_read`: looking at an address shows what reading it would return.
-/

namespace ColorComputer

/-- The chips and what is wired to them. -/
structure Board where
  memory : Memory
  gime : Gime
  /-- The first adapter. -/
  pia0 : Pia
  /-- The second adapter. -/
  pia1 : Pia
  cartridge : Option Cartridge
  panel : Panel
  /-- The selector bits. -/
  selector : BitVec 16

namespace Board

/-- A board whose chips are reset, with nothing in the cartridge port. -/
def fresh (memory : Memory) (panel : Panel) : Board where
  memory := memory
  gime := .reset
  pia0 := .reset
  pia1 := .reset
  cartridge := none
  panel := panel
  selector := 0

/-- Reset every chip and clear the memory. The cartridge stays, with its first bank chosen. -/
def reset (b : Board) : Board where
  memory := b.memory.reset
  gime := .reset
  pia0 := .reset
  pia1 := .reset
  cartridge := b.cartridge.map (·.reset)
  panel := b.panel
  selector := 0

/-! ### What the wires carry -/

/-- Selector bit 12 doubles the speed of the processor. -/
def multiplier (b : Board) : Nat := if b.selector.getLsbD 12 then 2 else 1

/-- The level on the interrupt request line. -/
def irqLevel (b : Board) : Bool := b.pia0.interrupt || b.gime.irqActive

/-- The level on the fast interrupt request line. -/
def firqLevel (b : Board) : Bool := b.pia1.interrupt || b.gime.firqActive

/-- The level of the converter, from the high six pins of port A of the second adapter. -/
def converter (b : Board) : BitVec 6 := b.pia1.a.driven.extractLsb' 2 6

/-- The axis that C2 of both ports of the first adapter selects. -/
def axisSelector (b : Board) : BitVec 2 := BitVec.ofBool b.pia0.b.c2 ++ BitVec.ofBool b.pia0.a.c2

/-- The sample heard now. C2 of port B of the second adapter enables sound. -/
def sample (b : Board) : Int16 := converterSample b.converter b.pia1.b.c2

/-- What the panel drives on port A of the first adapter, whose port B strobes the columns. -/
def panelRows (b : Board) : Byte :=
  b.panel.rows b.pia0.b.driven (b.converter.setWidth 8) b.axisSelector

/-- What is wired to the pins of the first adapter. -/
def outside (b : Board) : Pia.Outside := { Pia.Outside.open with a := b.panelRows }

/-! ### Decoding -/

/-- The devices of the page from $FF00 on. -/
inductive Device
  | pia0 | pia1 | bank | gime | task | selector | vector | unwired
  deriving DecidableEq

namespace Device

/-- The device at an address of the page from $FF00 on. -/
def ofAddress (address : Word) : Device :=
  if address ≤ 0xFF1F then pia0
  else if address ≤ 0xFF3F then pia1
  else if address = 0xFF40 then bank
  else if address < 0xFF90 then unwired
  else if address ≤ 0xFF9F then gime
  else if address ≤ 0xFFAF then task
  else if address ≤ 0xFFBF then gime
  else if address ≤ 0xFFDF then selector
  else if address < 0xFFF0 then unwired
  else vector

end Device

/-- The address is on the page of devices. -/
def isDevice (address : Word) : Bool := 0xFF00 ≤ address

/-- What a device shows at an address. -/
def peekDevice (b : Board) (address : Word) : Byte :=
  match Device.ofAddress address with
  | .pia0 => b.pia0.peek b.outside (address.setWidth 2)
  | .pia1 => b.pia1.peek .open (address.setWidth 2)
  | .gime => b.gime.peek address
  | .task => (b.memory.mmu.register (address.setWidth 4)).setWidth 8
  | .vector => b.memory.vectorByte address
  | .bank | .selector | .unwired => openBus

/-- Read a device. -/
def readDevice (b : Board) (address : Word) : Byte × Board :=
  match Device.ofAddress address with
  | .pia0 =>
    let (value, pia0) := b.pia0.read b.outside (address.setWidth 2)
    (value, { b with pia0 := pia0 })
  | .pia1 =>
    let (value, pia1) := b.pia1.read .open (address.setWidth 2)
    (value, { b with pia1 := pia1 })
  | .gime =>
    let (value, gime) := b.gime.read address
    (value, { b with gime := gime })
  | .task => ((b.memory.mmu.register (address.setWidth 4)).setWidth 8, b)
  | .vector => (b.memory.vectorByte address, b)
  | .bank | .selector | .unwired => (openBus, b)

/-- The board after a device was read. -/
def afterReadDevice (b : Board) (address : Word) : Board :=
  match Device.ofAddress address with
  | .pia0 => { b with pia0 := b.pia0.afterRead (address.setWidth 2) }
  | .pia1 => { b with pia1 := b.pia1.afterRead (address.setWidth 2) }
  | .gime => { b with gime := b.gime.afterRead address }
  | _ => b

/-- Change the map. -/
def mapMmu (b : Board) (f : Mmu → Mmu) : Board :=
  match b with
  | ⟨memory, gime, pia0, pia1, cartridge, panel, selector⟩ =>
    ⟨memory.mapMmu f, gime, pia0, pia1, cartridge, panel, selector⟩

/-- What the memory map takes from a write to the GIME: INIT0, the task of INIT1, and the bits that
extend block numbers. -/
def shareGimeWrite (b : Board) (address : Word) (value : Byte) : Board :=
  if address = 0xFF90 then b.mapMmu (·.writeInit0 value)
  else if address = 0xFF91 then b.mapMmu fun m => { m with task := value.setWidth 1 }
  else if address = 0xFF9B then b.mapMmu fun m => { m with extension := value }
  else b

/-- Set or clear a selector bit. Bit 15 switches the window of the memory map off. -/
def writeSelector (b : Board) (address : Word) : Board :=
  let bit : BitVec 16 := 1 <<< (address.extractLsb' 1 4).toNat
  let selector := if address.getLsbD 0 then b.selector ||| bit else b.selector &&& ~~~bit
  { b.mapMmu (fun m => { m with allRam := selector.getLsbD 15 }) with selector := selector }

/-- Write to a device. -/
def writeDevice (b : Board) (address : Word) (value : Byte) : Board :=
  match Device.ofAddress address with
  | .pia0 => { b with pia0 := b.pia0.write (address.setWidth 2) value }
  | .pia1 => { b with pia1 := b.pia1.write (address.setWidth 2) value }
  | .bank => { b with cartridge := b.cartridge.map (·.setBank value) }
  | .gime => { b with gime := b.gime.write address value }.shareGimeWrite address value
  | .task => b.mapMmu (·.setRegister (address.setWidth 4) (value.setWidth 6))
  | .selector => b.writeSelector address
  | .vector | .unwired => b

/-- Change the memory. -/
def writeMemory (b : Board) (address : Word) (value : Byte) : Board :=
  match b with
  | ⟨memory, gime, pia0, pia1, cartridge, panel, selector⟩ =>
    ⟨memory.write address value, gime, pia0, pia1, cartridge, panel, selector⟩

/-- What an address shows. -/
def peek (b : Board) (address : Word) : Byte :=
  if isDevice address then b.peekDevice address else b.memory.read b.cartridge address

/-- Read an address. Reading memory disturbs nothing. -/
def read (b : Board) (address : Word) : Byte × Board :=
  if isDevice address then b.readDevice address else (b.memory.read b.cartridge address, b)

/-- Write to an address. -/
def write (b : Board) (address : Word) (value : Byte) : Board :=
  if isDevice address then b.writeDevice address value else b.writeMemory address value

instance : Bus Board where
  read := read
  write := write
  peek := peek

theorem readDevice_eq (b : Board) (address : Word) :
    b.readDevice address = (b.peekDevice address, b.afterReadDevice address) := by
  unfold readDevice peekDevice afterReadDevice
  cases Device.ofAddress address with
  | pia0 => simp only [Pia.read_eq]
  | pia1 => simp only [Pia.read_eq]
  | gime => simp only [Gime.read_eq]
  | _ => rfl

/-- A read returns what looking at the address shows. -/
theorem read_eq (b : Board) (address : Word) : Bus.read b address =
    (b.peek address, if isDevice address then b.afterReadDevice address else b) := by
  show b.read address = _
  unfold read peek
  split
  · exact b.readDevice_eq address
  · rfl

/-- Looking at an address shows what reading it would return. -/
theorem peek_eq_read (b : Board) (address : Word) : Bus.peek b address = (Bus.read b address).1 := by
  rw [read_eq]
  rfl

end Board

end ColorComputer
