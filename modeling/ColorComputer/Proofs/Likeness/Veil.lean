import ColorComputer.Proofs.Likeness.Step

/-!
# The veil over the extended registers

`E`, `F`, `V` and `MD` exist on the greater part only. The veil likeness shares every other
register and fixes these four on either side, each core having its own. It covers the instructions
of the lesser part.

* `base_setByte`, `base_setWord` — changing a shared register commutes with the veil.
* `Likeness.veil` — the likeness, for two parts that both run in emulation mode.
* `Likeness.attentive_veil` — veiled cores enter handlers in the same way.
-/

namespace ColorComputer

/-- What the greater part keeps beyond the lesser one. -/
@[ext] structure Extras where
  e : Byte
  f : Byte
  v : Word
  md : Byte

namespace Registers

/-- The extended registers. -/
def extras (r : Registers) : Extras := ⟨r.e, r.f, r.v, r.md⟩

/-- The registers that both parts have, the others zero. -/
def base (r : Registers) : Registers := { r with e := 0, f := 0, v := 0, md := 0 }

/-! ### Shared registers -/

theorem byte_base (r : Registers) {n : ByteRegister}
    (hn : RegisterName.isBase (.byte n) = true) : r.base.byte n = r.byte n := by
  cases n with
  | e | f => exact Bool.noConfusion hn
  | a | b | cc | dp => rfl

theorem word_base (r : Registers) {n : WordRegister}
    (hn : RegisterName.isBase (.word n) = true) : r.base.word n = r.word n := by
  cases n with
  | w | v => exact Bool.noConfusion hn
  | d | x | y | u | s | pc => rfl

theorem base_setByte (r : Registers) {n : ByteRegister}
    (hn : RegisterName.isBase (.byte n) = true) (v : Byte) :
    (r.setByte n v).base = r.base.setByte n v ∧ (r.setByte n v).extras = r.extras := by
  cases n with
  | e | f => exact Bool.noConfusion hn
  | a | b | cc | dp => exact ⟨rfl, rfl⟩

theorem base_setWord (r : Registers) {n : WordRegister}
    (hn : RegisterName.isBase (.word n) = true) (v : Word) :
    (r.setWord n v).base = r.base.setWord n v ∧ (r.setWord n v).extras = r.extras := by
  cases n with
  | w | v => exact Bool.noConfusion hn
  | d | x | y | u | s | pc => exact ⟨rfl, rfl⟩

end Registers

/-! ### Veiled registers -/

/-- Register files that share what both parts have, each with its own extended registers. -/
structure Veiled (g h : Extras) (r r' : Registers) : Prop where
  base : r.base = r'.base
  left : r.extras = g
  right : r'.extras = h

namespace Veiled

variable {g h : Extras} {r r' : Registers}

theorem byte_eq (hr : Veiled g h r r') {n : ByteRegister}
    (hn : RegisterName.isBase (.byte n) = true) : r.byte n = r'.byte n := by
  rw [← r.byte_base hn, hr.base, r'.byte_base hn]

theorem word_eq (hr : Veiled g h r r') {n : WordRegister}
    (hn : RegisterName.isBase (.word n) = true) : r.word n = r'.word n := by
  rw [← r.word_base hn, hr.base, r'.word_base hn]

theorem cc_eq (hr : Veiled g h r r') : r.cc = r'.cc := by
  show r.base.cc = r'.base.cc
  rw [hr.base]

theorem setByte (hr : Veiled g h r r') {n : ByteRegister}
    (hn : RegisterName.isBase (.byte n) = true) (v : Byte) :
    Veiled g h (r.setByte n v) (r'.setByte n v) := by
  obtain ⟨h1, h2⟩ := r.base_setByte hn v
  obtain ⟨h3, h4⟩ := r'.base_setByte hn v
  exact ⟨by rw [h1, h3, hr.base], h2.trans hr.left, h4.trans hr.right⟩

theorem setWord (hr : Veiled g h r r') {n : WordRegister}
    (hn : RegisterName.isBase (.word n) = true) (v : Word) :
    Veiled g h (r.setWord n v) (r'.setWord n v) := by
  obtain ⟨h1, h2⟩ := r.base_setWord hn v
  obtain ⟨h3, h4⟩ := r'.base_setWord hn v
  exact ⟨by rw [h1, h3, hr.base], h2.trans hr.left, h4.trans hr.right⟩

theorem setCc (hr : Veiled g h r r') (cc : ConditionCodes) :
    Veiled g h { r with cc := cc } { r' with cc := cc } :=
  ⟨congrArg (fun r : Registers => { r with cc := cc }) hr.base, hr.left, hr.right⟩

end Veiled

/-- Processors of two given parts that differ in their extended registers only. -/
structure VeiledCpu (v w : Variant) (g h : Extras) (c d : Cpu) : Prop where
  regs : Veiled g h c.regs d.regs
  left : c.variant = v
  right : d.variant = w
  lines : c.lines = d.lines
  armed : c.nmiArmed = d.nmiArmed
  wait : c.wait = d.wait

/-! ### Register codes -/

/-- A code that names the same shared register, or nothing with the same reading, on both parts. -/
def SharedCode (v w : Variant) (code : Nat) : Prop :=
  CodedRegister.decode v code = CodedRegister.decode w code ∧
    ∀ n, CodedRegister.decode v code = .named n → n.isBase = true

namespace VeiledCpu

variable {v w : Variant} {g h : Extras} {c d : Cpu}

theorem loadWord (hc : VeiledCpu v w g h c d) {n : WordRegister}
    (hn : RegisterName.isBase (.word n) = true) (value : Word) :
    VeiledCpu v w g h (c.loadWord n value) (d.loadWord n value) :=
  ⟨hc.regs.setWord hn value, hc.left, hc.right, hc.lines,
    congrArg (fun armed => armed || decide (n = .s)) hc.armed, hc.wait⟩

theorem readCoded_eq (hc : VeiledCpu v w g h c d) {code : Nat} (hs : SharedCode v w code) :
    c.readCoded code = d.readCoded code := by
  obtain ⟨he, hn⟩ := hs
  unfold Cpu.readCoded
  rw [hc.left, hc.right, ← he]
  cases hd : CodedRegister.decode v code with
  | absent reads => rfl
  | named name =>
    have hb := hn name hd
    cases name with
    | byte n => exact congrArg Datum.byte (hc.regs.byte_eq hb)
    | word n => exact congrArg Datum.word (hc.regs.word_eq hb)

theorem writeCoded (hc : VeiledCpu v w g h c d) {code : Nat} (hs : SharedCode v w code)
    {value : Datum} (hv : ∀ n, CodedRegister.decode v code = .named (.word n) →
      value.widened v = value.widened w) :
    VeiledCpu v w g h (c.writeCoded code value) (d.writeCoded code value) := by
  obtain ⟨he, hn⟩ := hs
  unfold Cpu.writeCoded
  rw [hc.left, hc.right, ← he]
  cases hd : CodedRegister.decode v code with
  | absent reads => exact hc
  | named name =>
    have hb := hn name hd
    cases name with
    | byte n =>
      exact ⟨hc.regs.setByte hb _, rfl, rfl, hc.lines, hc.armed, hc.wait⟩
    | word n =>
      dsimp only
      rw [← hv n hd]
      exact hc.loadWord hb _

end VeiledCpu

/-- Two codes that may be copied or swapped: both shared, and either the parts are the same or
nothing is widened. -/
structure SharedCodes (v w : Variant) (s t : Nat) : Prop where
  first : SharedCode v w s
  second : SharedCode v w t
  width : v = w ∨ (s < 8 ∧ t < 8) ∨ (8 ≤ s ∧ 8 ≤ t)

theorem decode_of_lt (v : Variant) {code : Nat} (h : code < 8) :
    (∃ n, CodedRegister.decode v code = .named (.word n)) ∨
      ∃ x, CodedRegister.decode v code = .absent (.word x) := by
  have hc : code = 0 ∨ code = 1 ∨ code = 2 ∨ code = 3 ∨ code = 4 ∨ code = 5 ∨ code = 6 ∨
      code = 7 := by omega
  rcases hc with rfl | rfl | rfl | rfl | rfl | rfl | rfl | rfl
  · exact Or.inl ⟨_, rfl⟩
  · exact Or.inl ⟨_, rfl⟩
  · exact Or.inl ⟨_, rfl⟩
  · exact Or.inl ⟨_, rfl⟩
  · exact Or.inl ⟨_, rfl⟩
  · exact Or.inl ⟨_, rfl⟩
  · cases v with
    | motorola => exact Or.inr ⟨_, rfl⟩
    | hitachi => exact Or.inl ⟨_, rfl⟩
  · cases v with
    | motorola => exact Or.inr ⟨_, rfl⟩
    | hitachi => exact Or.inl ⟨_, rfl⟩

theorem decode_of_ge (v : Variant) {code : Nat} (h : 8 ≤ code) (n : WordRegister) :
    CodedRegister.decode v code ≠ .named (.word n) := by
  unfold CodedRegister.decode CodedRegister.hitachiOnly
  cases v <;> split <;> simp [Variant.extendedRegisters] <;> omega

namespace VeiledCpu

variable {v w : Variant} {g h : Extras} {c d : Cpu} {s t : Nat}

/-- A word is widened in the same way by both parts: not at all. -/
theorem widened_eq (hs : SharedCodes v w s t) (c : Cpu) (n : WordRegister)
    (hn : CodedRegister.decode v t = .named (.word n)) (hc : c.variant = v) :
    (c.readCoded s).widened v = (c.readCoded s).widened w := by
  rcases hs.width with rfl | ⟨h1, _⟩ | ⟨_, h2⟩
  · rfl
  · have hx : ∃ x, c.readCoded s = .word x := by
      unfold Cpu.readCoded
      rw [hc]
      rcases decode_of_lt v h1 with ⟨n, he⟩ | ⟨x, he⟩
      · exact ⟨_, by rw [he]⟩
      · exact ⟨_, by rw [he]⟩
    obtain ⟨x, he⟩ := hx
    rw [he]
    rfl
  · exact absurd hn (decode_of_ge v h2 n)

theorem transfer (hc : VeiledCpu v w g h c d) (hs : SharedCodes v w s t) :
    VeiledCpu v w g h (c.transfer s t) (d.transfer s t) := by
  unfold Cpu.transfer
  rw [← hc.readCoded_eq hs.first]
  exact hc.writeCoded hs.second fun n hn => widened_eq hs c n hn hc.left

theorem exchange (hc : VeiledCpu v w g h c d) (hs : SharedCodes v w s t) :
    VeiledCpu v w g h (c.exchange s t) (d.exchange s t) := by
  have hr : SharedCodes v w t s :=
    ⟨hs.second, hs.first, hs.width.imp id (Or.imp And.symm And.symm)⟩
  unfold Cpu.exchange
  rw [← hc.readCoded_eq hs.first, ← hc.readCoded_eq hs.second]
  refine (hc.writeCoded hs.first fun n hn => ?_).writeCoded hs.second fun n hn => ?_
  · exact widened_eq hr c n hn hc.left
  · exact widened_eq hs c n hn hc.left

end VeiledCpu

/-! ### The likeness -/

/-- A part with these extended registers runs in emulation mode and stacks short frames. -/
structure Quiet (v : Variant) (g : Extras) : Prop where
  emulation : v.extendedRegisters = true → g.md.getLsbD 0 = false
  short : v.extendedRegisters = true → g.md.getLsbD 1 = false

theorem Quiet.native {v : Variant} {g : Extras} (hq : Quiet v g) {c : Cpu} (hv : c.variant = v)
    (hg : c.regs.extras = g) : c.native = false := by
  subst hv hg
  cases he : c.variant.extendedRegisters with
  | false =>
    unfold Cpu.native
    rw [he]
    rfl
  | true =>
    have hm := hq.emulation he
    unfold Cpu.native
    rw [he]
    exact hm

theorem Quiet.firqEntire {v : Variant} {g : Extras} (hq : Quiet v g) {c : Cpu} (hv : c.variant = v)
    (hg : c.regs.extras = g) :
    (c.variant.extendedRegisters && c.regs.firqEntire) = false := by
  subst hv hg
  cases he : c.variant.extendedRegisters with
  | false => rfl
  | true => exact hq.short he

/-- Cores of two parts that run in emulation mode and differ in their extended registers only. The
accounts of all cycles may differ; the cycles of the step must not. -/
def Likeness.veil {β : Type} [Bus β] {v w : Variant} {g h : Extras} (hg : Quiet v g)
    (hh : Quiet w h) : Likeness β where
  sees := RegisterName.isBase
  indexOk p := Postbyte.decode v p = Postbyte.decode w p ∧
    ∀ n ∈ (Postbyte.decode v p).form.names, n.isBase = true
  codesOk p := SharedCodes v w (p.toNat / 16) (p.toNat % 16)
  arms := True
  alike := Veiled g h
  rel c d := VeiledCpu v w g h c.cpu d.cpu ∧ c.bus = d.bus ∧ c.cycles = d.cycles
  sees_base h := h
  byte_eq hr _ hn := hr.byte_eq hn
  word_eq hr _ hn := hr.word_eq hn
  cc_eq hr := hr.cc_eq
  setByte hr _ hn x := hr.setByte hn x
  setWord hr _ hn x := hr.setWord hn x
  setCc hr cc := hr.setCc cc
  regs hr := hr.1.regs
  bus_eq hr := hr.2.1
  withRegs hr _ _ h := ⟨⟨h, hr.1.left, hr.1.right, hr.1.lines, hr.1.armed, hr.1.wait⟩, hr.2⟩
  load hr _ hn _ x := ⟨hr.1.loadWord hn x, hr.2⟩
  stop hr x := ⟨⟨hr.1.regs, hr.1.left, hr.1.right, hr.1.lines, hr.1.armed, rfl⟩, hr.2⟩
  read hr a := ⟨hr.1, congrArg (fun b => (Bus.read b a).2) hr.2.1, hr.2.2⟩
  write hr a x := ⟨hr.1, congrArg (fun b => Bus.write b a x) hr.2.1, hr.2.2⟩
  charge := by
    intro c d hr cost
    refine ⟨hr.1, hr.2.1, ?_⟩
    show c.cycles + cost c.cpu.native = d.cycles + cost d.cpu.native
    rw [hg.native hr.1.left hr.1.regs.left, hh.native hr.1.right hr.1.regs.right, hr.2.2]
  decode := by
    intro c d hr p hp
    rw [hr.1.left, hr.1.right]
    exact hp
  transfer hr _ hp _ := ⟨hr.1.transfer hp, hr.2⟩
  exchange hr _ hp _ := ⟨hr.1.exchange hp, hr.2⟩

section Veil

variable {β : Type} [Bus β] {v w : Variant} {g h : Extras} (hg : Quiet v g) (hh : Quiet w h)

theorem Likeness.framed_veil : (Likeness.veil (β := β) hg hh).Framed where
  native hr := by
    rw [hg.native hr.1.left hr.1.regs.left, hh.native hr.1.right hr.1.regs.right]
  sees hr hn := by
    rw [hg.native hr.1.left hr.1.regs.left] at hn
    exact Bool.noConfusion hn

/-- Veiled cores enter handlers in the same way. -/
theorem Likeness.attentive_veil : (Likeness.veil (β := β) hg hh).Attentive where
  wait hr := hr.1.wait
  lines hr := hr.1.lines
  armed hr := hr.1.armed
  firqEntire hr := by
    rw [hg.firqEntire hr.1.left hr.1.regs.left, hh.firqEntire hr.1.right hr.1.regs.right]
  react hr lines := ⟨⟨hr.1.regs, hr.1.left, hr.1.right, rfl, hr.1.armed, hr.1.wait⟩, hr.2⟩
  settle hr :=
    ⟨⟨hr.1.regs, hr.1.left, hr.1.right, hr.1.lines, hr.1.armed, hr.1.wait⟩, hr.2⟩

end Veil

end ColorComputer
