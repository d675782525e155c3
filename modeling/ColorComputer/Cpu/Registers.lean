import ColorComputer.Cpu.ConditionCodes

/-!
# The register file

The accumulators are kept as bytes. `D`, `W` and `Q` are views of them, so a pair never disagrees
with its halves. `E`, `F`, `V` and `MD` exist on the Hitachi part only.

* `word_setWord_self`, `byte_setByte_self`: a register gives back what was put into it.
* `word_setWord_of_ne`, `byte_setByte_of_ne`: another register of the same width is untouched.
-/

namespace ColorComputer

/-- The registers. -/
@[ext] structure Registers where
  a : Byte
  b : Byte
  x : Word
  y : Word
  u : Word
  s : Word
  pc : Word
  dp : Byte
  cc : ConditionCodes
  e : Byte
  f : Byte
  v : Word
  md : Byte
  deriving DecidableEq

/-- The registers of a byte, by name. -/
inductive ByteRegister
  | a | b | cc | dp | e | f
  deriving DecidableEq

/-- The registers of a word, by name. -/
inductive WordRegister
  | d | x | y | u | s | pc | w | v
  deriving DecidableEq

namespace Registers

/-- Every register zero, every flag clear. -/
def zeros : Registers := ⟨0, 0, 0, 0, 0, 0, 0, 0, .clear, 0, 0, 0, 0⟩

instance : Inhabited Registers := ⟨zeros⟩

/-- The accumulator `D`, made of `A` and `B`. -/
def d (r : Registers) : Word := Word.ofBytes r.a r.b

/-- The accumulator `W`, made of `E` and `F`. -/
def w (r : Registers) : Word := Word.ofBytes r.e r.f

/-- The accumulator `Q`, made of `D` and `W`. -/
def q (r : Registers) : Long := Long.ofWords r.d r.w

/-- Put a word into `A` and `B`. -/
def setD (r : Registers) (value : Word) : Registers :=
  { r with a := Word.highByte value, b := Word.lowByte value }

/-- Put a word into `E` and `F`. -/
def setW (r : Registers) (value : Word) : Registers :=
  { r with e := Word.highByte value, f := Word.lowByte value }

/-- Put a long into `D` and `W`. -/
def setQ (r : Registers) (value : Long) : Registers :=
  (r.setD (Long.highWord value)).setW (Long.lowWord value)

/-- The content of a byte register. -/
def byte (r : Registers) : ByteRegister → Byte
  | .a => r.a
  | .b => r.b
  | .cc => r.cc.toByte
  | .dp => r.dp
  | .e => r.e
  | .f => r.f

/-- Put a byte into a byte register. -/
def setByte (r : Registers) (name : ByteRegister) (value : Byte) : Registers :=
  match name with
  | .a => { r with a := value }
  | .b => { r with b := value }
  | .cc => { r with cc := .ofByte value }
  | .dp => { r with dp := value }
  | .e => { r with e := value }
  | .f => { r with f := value }

/-- The content of a word register. -/
def word (r : Registers) : WordRegister → Word
  | .d => r.d
  | .x => r.x
  | .y => r.y
  | .u => r.u
  | .s => r.s
  | .pc => r.pc
  | .w => r.w
  | .v => r.v

/-- Put a word into a word register. -/
def setWord (r : Registers) (name : WordRegister) (value : Word) : Registers :=
  match name with
  | .d => r.setD value
  | .x => { r with x := value }
  | .y => { r with y := value }
  | .u => { r with u := value }
  | .s => { r with s := value }
  | .pc => { r with pc := value }
  | .w => r.setW value
  | .v => { r with v := value }

/-! ### The mode register -/

/-- MD bit 0: the processor runs in native mode. -/
def native (r : Registers) : Bool := r.md.getLsbD 0

/-- MD bit 1: a fast interrupt stacks the entire state. -/
def firqEntire (r : Registers) : Bool := r.md.getLsbD 1

/-! ### Laws -/

@[simp] theorem d_setD (r : Registers) (v : Word) : (r.setD v).d = v :=
  Word.ofBytes_highByte_lowByte v

@[simp] theorem w_setW (r : Registers) (v : Word) : (r.setW v).w = v :=
  Word.ofBytes_highByte_lowByte v

@[simp] theorem q_setQ (r : Registers) (v : Long) : (r.setQ v).q = v := by
  have hd : (r.setQ v).d = Long.highWord v := Word.ofBytes_highByte_lowByte _
  have hw : (r.setQ v).w = Long.lowWord v := Word.ofBytes_highByte_lowByte _
  rw [q, hd, hw, Long.ofWords_highWord_lowWord]

@[simp] theorem byte_setByte_self (r : Registers) (n : ByteRegister) (v : Byte) :
    (r.setByte n v).byte n = v := by
  cases n <;> simp [byte, setByte]

theorem byte_setByte_of_ne (r : Registers) {m n : ByteRegister} (v : Byte) (h : m ≠ n) :
    (r.setByte n v).byte m = r.byte m := by
  cases n <;> cases m <;> first | rfl | exact absurd rfl h

@[simp] theorem word_setWord_self (r : Registers) (n : WordRegister) (v : Word) :
    (r.setWord n v).word n = v := by
  cases n <;> simp [word, setWord]

theorem word_setWord_of_ne (r : Registers) {m n : WordRegister} (v : Word) (h : m ≠ n) :
    (r.setWord n v).word m = r.word m := by
  cases n <;> cases m <;> first | rfl | exact absurd rfl h

end Registers

end ColorComputer
