import ColorComputer.Machine.Basic

/-!
# Looking into the machine

A path of the machine names a chip and a path of that chip (`cpu.cc.z`, `gime.border`), an address in
memory (`memory.$FFFE`), or something of the machine itself. An address is written in hexadecimal,
with a dollar sign or `0x` before it or neither, and perhaps a plus sign after that.

* `parseAddress?_dollar`: an address reads back from its four digits after a dollar sign.
-/

namespace ColorComputer.Machine

/-- The rest of a text after what it begins with. -/
def after? (start text : List Char) : Option (List Char) :=
  if start.isPrefixOf text then some (text.drop start.length) else none

/-- The digits of an address without the sign before them. A sign alone is no number. -/
def withoutPlus : List Char → List Char
  | '+' :: c :: rest => c :: rest
  | text => text

/-- The address that a text names, if it is one of 16 bits. -/
def parseAddress? (text : List Char) : Option Word :=
  let digits := ((after? ['$'] text).or (after? ['0', 'x'] text)).getD text
  match Text.Hex.value? (withoutPlus digits) with
  | some value => if value < 65536 then some (BitVec.ofNat 16 value) else none
  | none => none

/-- What the paths of the memory map name. -/
def mmuTable : ProbeTable Mmu :=
  [ProbeTable.entry "enabled" fun m => .flag m.enabled,
   ProbeTable.entry "task" fun m => .byte (m.task.setWidth 8),
   ProbeTable.entry "all_ram" fun m => .flag m.allRam,
   ProbeTable.entry "constant_page" fun m => .flag m.constantPage]

variable {τ : Type}

/-- The paths of the machine itself. -/
def ownTable : ProbeTable (Machine τ) :=
  [ProbeTable.entry "frame" fun m => .count m.frames,
   ProbeTable.entry "sam" fun m => .word m.circuit.board.selector,
   ProbeTable.entry "cartridge" fun m => .label ((m.cartridge.map (·.name)).getD ""),
   ProbeTable.entry "audio.buffered" fun m => .long (BitVec.ofNat 32 m.circuit.samples.size)]

/-- The parts of the machine that have paths of their own, by what those paths begin with. -/
def parts : List (String × (Machine τ → String → Option Reading)) :=
  [("cpu.", fun m => Probe.probe m.circuit.cpu),
   ("gime.", fun m => Probe.probe m.circuit.board.gime),
   ("pia0.", fun m => Probe.probe m.circuit.board.pia0),
   ("pia1.", fun m => Probe.probe m.circuit.board.pia1),
   ("mmu.", fun m => mmuTable.toProbe.probe m.circuit.board.memory.mmu),
   ("memory.", fun m path => (parseAddress? path.toList).map fun a => .byte (m.peek a))]

/-- What stands at a path. A path that begins like those of a part belongs to that part alone. -/
def look (m : Machine τ) (path : String) : Option Reading :=
  let inPart := parts.findSome? fun (start, probe) =>
    (after? start.toList path.toList).map fun rest => probe m (String.ofList rest)
  match inPart with
  | some found => found
  | none => ownTable.toProbe.probe m path

instance : Probe (Machine τ) where
  probe := look
  paths :=
    ["cpu.<reg>", "gime.<reg>", "pia0.<reg>", "pia1.<reg>", "mmu.enabled", "mmu.task",
      "mmu.all_ram", "mmu.constant_page", "memory.<address>", "frame", "sam", "cartridge",
      "audio.buffered"]

theorem withoutPlus_digits (width n : Nat) :
    withoutPlus (Text.Hex.digits width n) = Text.Hex.digits width n := by
  unfold withoutPlus
  split
  · rename_i c rest h
    exact absurd (h ▸ List.mem_cons_self) (Text.Hex.not_mem_digits width n (by decide))
  · rfl

/-- An address reads back from its four digits after a dollar sign. -/
theorem parseAddress?_dollar (a : Word) :
    parseAddress? ('$' :: Text.Hex.digits 4 a.toNat) = some a := by
  have h := Text.Hex.value?_digits 3 a.toNat a.isLt
  simp [parseAddress?, after?, withoutPlus_digits, h, a.isLt]

end ColorComputer.Machine
