import ColorComputer.Proofs.Executing
import ColorComputer.Proofs.PushPull
import ColorComputer.Proofs.Return

/-!
# Register codes

A code of four bits names a register of either width, or none. What a code reads and what a write to
it changes is the same register, for every code and on both parts; and a register and its halves are
the only ones that share anything. So two registers of one width are swapped without a trace in any
other, and back again.

* `RegisterName.code`, `Variant.has` — the codes as a table of names.
* `CodedRegister.names_or_lacks` — a code names one register or is one of those that name none.
* `Registers.put_comm`, `Registers.swap_swap` — registers that share nothing leave each other alone.
* `Cpu.accesses` — reading and writing by a code.
* `Cpu.register_codes` — and transferring and exchanging by two of them, in steps that do so.
-/

namespace ColorComputer

/-! ### Names and codes -/

namespace RegisterName

/-- The code of a register. -/
def code : RegisterName → Nat
  | .word .d => 0x0
  | .word .x => 0x1
  | .word .y => 0x2
  | .word .u => 0x3
  | .word .s => 0x4
  | .word .pc => 0x5
  | .word .w => 0x6
  | .word .v => 0x7
  | .byte .a => 0x8
  | .byte .b => 0x9
  | .byte .cc => 0xA
  | .byte .dp => 0xB
  | .byte .e => 0xE
  | .byte .f => 0xF

/-- The pair of which the register is a half. -/
def pair? : RegisterName → Option WordRegister
  | .byte .a | .byte .b => some .d
  | .byte .e | .byte .f => some .w
  | _ => none

/-- One of the registers is a half of the other. -/
def Overlaps (m n : RegisterName) : Prop :=
  m.pair?.map .word = some n ∨ n.pair?.map .word = some m

instance (m n : RegisterName) : Decidable (m.Overlaps n) :=
  inferInstanceAs (Decidable (_ ∨ _))

/-- A half is not as wide as its pair. -/
theorem not_overlaps_of_size {m n : RegisterName} (h : m.size = n.size) : ¬ m.Overlaps n := by
  cases m with
  | byte m =>
    cases n with
    | byte n => cases m <;> cases n <;> decide
    | word n => exact absurd h (by simp [size])
  | word m =>
    cases n with
    | byte n => exact absurd h (by simp [size])
    | word n => simp [Overlaps, pair?]

end RegisterName

namespace Variant

/-- The part has the register. -/
def has (variant : Variant) : RegisterName → Bool
  | .word .w | .word .v | .byte .e | .byte .f => variant.extendedRegisters
  | _ => true

/-- The codes that name no register of the part. -/
def lacking : Variant → List Nat
  | motorola => [0x6, 0x7, 0xC, 0xD, 0xE, 0xF]
  | hitachi => [0xC, 0xD]

/-- What such a code reads as: all ones on the Motorola part and zero on the other. -/
def blank (code : Nat) : Variant → Datum
  | motorola => if code < 0xE then .word 0xFFFF else .byte 0xFF
  | hitachi => .word 0

end Variant

namespace CodedRegister

variable {variant : Variant} {code : Nat} {name : RegisterName}

theorem decode_code (h : variant.has name = true) : decode variant name.code = named name := by
  cases name with
  | byte n | word n => cases n <;> first | rfl | exact if_pos h

theorem of_decode (h : decode variant code = named name) :
    variant.has name = true ∧ name.code = code := by
  unfold decode hitachiOnly at h
  cases variant <;> split at h <;> cases h <;> exact ⟨rfl, rfl⟩

/-- A code names a register of the part, or it is one of those that name none. -/
theorem names_or_lacks (variant : Variant) {code : Nat} (h : code < 16) :
    (code ∈ variant.lacking ∧ decode variant code = absent (variant.blank code)) ∨
      (code ∉ variant.lacking ∧ ∃ name, variant.has name = true ∧ name.code = code) := by
  have hall : ∀ code < 16, (match decode variant code with
      | named _ => decide (code ∉ variant.lacking)
      | absent reads => decide (code ∈ variant.lacking ∧ reads = variant.blank code)) = true := by
    cases variant <;> decide
  have hc := hall code h
  cases hd : decode variant code with
  | named name =>
    rw [hd] at hc
    exact .inr ⟨of_decide_eq_true hc, name, of_decode hd⟩
  | absent reads =>
    rw [hd] at hc
    obtain ⟨hl, rfl⟩ := of_decide_eq_true hc
    exact .inl ⟨hl, rfl⟩

end CodedRegister

/-! ### Values of either width -/

namespace Datum

/-- The bytes that a value takes. -/
def size : Datum → Nat
  | byte _ => 1
  | word _ => 2

/-- What a register makes of a value. -/
def fitted (variant : Variant) (name : RegisterName) (value : Datum) : Datum :=
  match name with
  | .byte _ => .byte value.lowByte
  | .word _ => .word (value.widened variant)

theorem fitted_of_size {variant : Variant} {name : RegisterName} {value : Datum}
    (h : value.size = name.size) : value.fitted variant name = value := by
  cases name with
  | byte _ =>
    cases value with
    | byte _ => rfl
    | word _ => exact nomatch h
  | word _ =>
    cases value with
    | byte _ => exact nomatch h
    | word _ => rfl

end Datum

/-! ### Registers of either width -/

namespace Registers

variable (r : Registers)

/-- The content of a register. -/
def datum : RegisterName → Datum
  | .byte name => .byte (r.byte name)
  | .word name => .word (r.word name)

/-- Put a value into a register that is as wide. -/
def put (name : RegisterName) (value : Datum) : Registers :=
  match name with
  | .byte name => r.setByte name value.lowByte
  | .word name => r.setWord name value.zeroExtended

/-- Swap two registers. -/
def swap (m n : RegisterName) : Registers := (r.put m (r.datum n)).put n (r.datum m)

/-- Nothing but these registers, their halves and what they are halves of is different. -/
structure SameBut (names : List RegisterName) (r' : Registers) : Prop where
  datum : ∀ other, (∀ name ∈ names, other ≠ name ∧ ¬ other.Overlaps name) →
    r'.datum other = r.datum other
  md : r'.md = r.md

@[simp] theorem size_datum (name : RegisterName) : (r.datum name).size = name.size := by
  cases name <;> rfl

theorem datum_put_self {name : RegisterName} {value : Datum} (h : value.size = name.size) :
    (r.put name value).datum name = value := by
  cases name with
  | byte n =>
    cases value with
    | byte v => exact congrArg Datum.byte (r.byte_setByte_self n v)
    | word _ => exact nomatch h
  | word n =>
    cases value with
    | byte _ => exact nomatch h
    | word v => exact congrArg Datum.word (r.word_setWord_self n v)

theorem put_datum (name : RegisterName) : r.put name (r.datum name) = r := by
  have h : r.put name (r.datum name) = r.copy r name := by cases name <;> rfl
  rw [h, copy_self]

theorem put_put (name : RegisterName) (value value' : Datum) :
    (r.put name value).put name value' = r.put name value' := by
  cases name with
  | byte n => cases n <;> rfl
  | word n => exact r.setWord_setWord n _ _

/-- Registers that share nothing are written independently of each other. -/
theorem put_comm {m n : RegisterName} (hne : m ≠ n) (h : ¬ m.Overlaps n) (value value' : Datum) :
    (r.put m value).put n value' = (r.put n value').put m value := by
  cases m with
  | byte m =>
    cases n with
    | byte n => cases m <;> cases n <;> first | rfl | exact absurd rfl hne
    | word n => cases m <;> cases n <;> first | rfl | exact absurd (by decide) h
  | word m =>
    cases n with
    | byte n => cases m <;> cases n <;> first | rfl | exact absurd (by decide) h
    | word n => cases m <;> cases n <;> first | rfl | exact absurd rfl hne

/-- A register that shares nothing with the one that is written keeps its content. -/
theorem datum_put_of_apart {m n : RegisterName} (hne : m ≠ n) (h : ¬ m.Overlaps n)
    (value : Datum) : (r.put n value).datum m = r.datum m := by
  have hm : (r.put n value).put m (r.datum m) = r.put n value := by
    rw [← r.put_comm hne h, put_datum]
  rw [← hm, datum_put_self _ (r.size_datum m)]

theorem md_put (name : RegisterName) (value : Datum) : (r.put name value).md = r.md := by
  cases name with
  | byte n => cases n <;> rfl
  | word n => cases n <;> rfl

theorem cc_put {name : RegisterName} (h : name ≠ .byte .cc) (value : Datum) :
    (r.put name value).cc = r.cc := by
  cases name with
  | byte n => exact r.cc_setByte (fun he => h (congrArg RegisterName.byte he)) _
  | word n => exact r.cc_setWord n _

variable {r}

theorem SameBut.put {names : List RegisterName} {r' : Registers} (h : r.SameBut names r')
    {name : RegisterName} (hn : name ∈ names) (value : Datum) :
    r.SameBut names (r'.put name value) where
  datum other ho := by
    rw [datum_put_of_apart _ (ho name hn).1 (ho name hn).2, h.datum other ho]
  md := by rw [md_put, h.md]

theorem SameBut.refl (names : List RegisterName) : r.SameBut names r := ⟨fun _ _ => rfl, rfl⟩

section Swap

variable {m n : RegisterName} (h : m.size = n.size)
include h

theorem datum_swap_right : (r.swap m n).datum n = r.datum m :=
  datum_put_self _ (by rw [size_datum, h])

theorem datum_swap_left : (r.swap m n).datum m = r.datum n := by
  by_cases hne : m = n
  · subst hne
    exact datum_swap_right h
  · rw [swap, datum_put_of_apart _ hne (RegisterName.not_overlaps_of_size h),
      datum_put_self _ (by rw [size_datum, h])]

/-- Registers of one width that are swapped twice are as they were. -/
theorem swap_swap : (r.swap m n).swap m n = r := by
  rw [swap, datum_swap_right h, datum_swap_left h]
  by_cases hne : m = n
  · subst hne
    rw [put_put, swap, put_put, put_put, put_datum]
  · have ho := RegisterName.not_overlaps_of_size h
    rw [swap, ← put_comm _ hne ho, put_put, put_put, put_datum, put_datum]

end Swap

end Registers

/-! ### Reading and writing by a code -/

namespace Cpu

variable {cpu : Cpu} {code : Nat} {name m n : RegisterName}

theorem readCoded_of_named (h : CodedRegister.decode cpu.variant code = .named name) :
    cpu.readCoded code = cpu.regs.datum name := by
  unfold readCoded
  rw [h]
  cases name <;> rfl

theorem writeCoded_of_named (h : CodedRegister.decode cpu.variant code = .named name)
    (value : Datum) : cpu.writeCoded code value =
      { cpu with
        regs := cpu.regs.put name (value.fitted cpu.variant name)
        nmiArmed := cpu.nmiArmed || decide (name = .word .s) } := by
  unfold writeCoded
  rw [h]
  cases name with
  | byte n => simp [Registers.put, Datum.fitted, Datum.lowByte]
  | word n => simp [loadWord, Registers.put, Datum.fitted, Datum.zeroExtended]

theorem readCoded_of_absent {reads : Datum}
    (h : CodedRegister.decode cpu.variant code = .absent reads) : cpu.readCoded code = reads := by
  unfold readCoded
  rw [h]

theorem writeCoded_of_absent {reads : Datum}
    (h : CodedRegister.decode cpu.variant code = .absent reads) (value : Datum) :
    cpu.writeCoded code value = cpu := by
  unfold writeCoded
  rw [h]

theorem exchange_of_has (hm : cpu.variant.has m = true) (hn : cpu.variant.has n = true)
    (hs : m.size = n.size) : cpu.exchange m.code n.code =
      { cpu with
        regs := cpu.regs.swap m n
        nmiArmed := cpu.nmiArmed || (decide (m = .word .s) || decide (n = .word .s)) } := by
  have hfm : (cpu.regs.datum n).fitted cpu.variant m = cpu.regs.datum n :=
    Datum.fitted_of_size (by rw [Registers.size_datum, hs])
  have hfn : (cpu.regs.datum m).fitted cpu.variant n = cpu.regs.datum m :=
    Datum.fitted_of_size (by rw [Registers.size_datum, hs])
  have hm := CodedRegister.decode_code hm
  have hn := CodedRegister.decode_code hn
  have hn' : CodedRegister.decode
      (cpu.writeCoded m.code (cpu.readCoded n.code)).variant n.code = .named n := by
    rw [variant_writeCoded, hn]
  rw [exchange, writeCoded_of_named hn', writeCoded_of_named hm, readCoded_of_named hm,
    readCoded_of_named hn, hfm, hfn, Bool.or_assoc]
  rfl

theorem transfer_of_has (hm : cpu.variant.has m = true) (hn : cpu.variant.has n = true)
    (hs : m.size = n.size) : cpu.transfer m.code n.code =
      { cpu with
        regs := cpu.regs.put n (cpu.regs.datum m)
        nmiArmed := cpu.nmiArmed || decide (n = .word .s) } := by
  rw [transfer, readCoded_of_named (CodedRegister.decode_code hm),
    writeCoded_of_named (CodedRegister.decode_code hn),
    Datum.fitted_of_size (by rw [Registers.size_datum, hs])]

/-! ### The laws -/

/-- What reading and writing by the code of a register does. -/
structure Accesses (cpu : Cpu) (code : Nat) (name : RegisterName) : Prop where
  /-- The code reads the register. -/
  read : cpu.readCoded code = cpu.regs.datum name
  /-- What was written is read. -/
  read_write : ∀ value, value.size = name.size →
    (cpu.writeCoded code value).readCoded code = value
  /-- To write what was read changes no register. -/
  write_read : (cpu.writeCoded code (cpu.readCoded code)).regs = cpu.regs
  /-- A write changes no other register. -/
  others : ∀ value, cpu.regs.SameBut [name] (cpu.writeCoded code value).regs
  /-- A write changes what another code reads only if that reads a half of the register, or what the
  register is a half of. -/
  elsewhere : ∀ value code', (cpu.writeCoded code value).readCoded code' ≠ cpu.readCoded code' →
    code' = code ∨ ∃ other, cpu.variant.has other = true ∧ other.code = code' ∧
      other.Overlaps name
  /-- Besides, only a write to `S` changes anything, and that arms NMI. -/
  rest : ∀ value, cpu.writeCoded code value =
    { cpu with
      regs := (cpu.writeCoded code value).regs
      nmiArmed := cpu.nmiArmed || decide (name = .word .s) }

/-- What an exchange of two registers does. -/
structure Swaps (cpu : Cpu) (m n : RegisterName) (swapped : Cpu) : Prop where
  left : swapped.regs.datum m = cpu.regs.datum n
  right : swapped.regs.datum n = cpu.regs.datum m
  others : cpu.regs.SameBut [m, n] swapped.regs
  undone : (swapped.exchange m.code n.code).regs = cpu.regs
  rest : swapped =
    { cpu with
      regs := swapped.regs
      nmiArmed := cpu.nmiArmed || (decide (m = .word .s) || decide (n = .word .s)) }

/-- What a transfer from a register to another does. -/
structure Copies (cpu : Cpu) (m n : RegisterName) (copied : Cpu) : Prop where
  copy : copied.regs.datum n = cpu.regs.datum m
  others : cpu.regs.SameBut [n] copied.regs
  codes : n ≠ .byte .cc → copied.regs.cc = cpu.regs.cc
  rest : copied =
    { cpu with
      regs := copied.regs
      nmiArmed := cpu.nmiArmed || decide (n = .word .s) }

theorem accesses (h : cpu.variant.has name = true) : cpu.Accesses name.code name := by
  have hd := CodedRegister.decode_code h
  have hw := writeCoded_of_named hd
  refine ⟨readCoded_of_named hd, fun value hv => ?_, ?_, fun value => ?_, fun value code' hne => ?_,
    fun value => ?_⟩
  · rw [readCoded_of_named (by rw [variant_writeCoded, hd]), hw, Datum.fitted_of_size hv,
      Registers.datum_put_self _ hv]
  · rw [hw, readCoded_of_named hd, Datum.fitted_of_size (cpu.regs.size_datum name),
      Registers.put_datum]
  · rw [hw]
    exact (Registers.SameBut.refl [name]).put (List.mem_singleton_self name) _
  · cases hc : CodedRegister.decode cpu.variant code' with
    | absent reads =>
      refine absurd ?_ hne
      rw [readCoded_of_absent hc, readCoded_of_absent (by rw [variant_writeCoded, hc])]
    | named other =>
      obtain ⟨ho, hcode⟩ := CodedRegister.of_decode hc
      by_cases he : other = name
      · exact .inl (by rw [← hcode, he])
      · refine .inr ⟨other, ho, hcode, not_not.1 fun hov => hne ?_⟩
        rw [readCoded_of_named hc, readCoded_of_named (by rw [variant_writeCoded, hc]), hw,
          Registers.datum_put_of_apart _ he hov]
  · rw [hw]

theorem swaps (hm : cpu.variant.has m = true) (hn : cpu.variant.has n = true)
    (hs : m.size = n.size) : cpu.Swaps m n (cpu.exchange m.code n.code) := by
  have hx := exchange_of_has hm hn hs
  have hv : (cpu.exchange m.code n.code).variant = cpu.variant := by rw [hx]
  have hx' := exchange_of_has (hv ▸ hm) (hv ▸ hn) hs
  refine ⟨?_, ?_, ?_, ?_, ?_⟩
  · rw [hx, Registers.datum_swap_left hs]
  · rw [hx, Registers.datum_swap_right hs]
  · rw [hx]
    exact ((Registers.SameBut.refl [m, n]).put List.mem_cons_self _).put
      (List.mem_cons_of_mem _ List.mem_cons_self) _
  · rw [hx', hx, Registers.swap_swap hs]
  · rw [hx]

theorem copies (hm : cpu.variant.has m = true) (hn : cpu.variant.has n = true)
    (hs : m.size = n.size) : cpu.Copies m n (cpu.transfer m.code n.code) := by
  have ht := transfer_of_has hm hn hs
  have hput : cpu.regs.SameBut [n] (cpu.transfer m.code n.code).regs := by
    rw [ht]
    exact (Registers.SameBut.refl [n]).put List.mem_cons_self _
  refine ⟨?_, hput, fun hcc => ?_, ?_⟩
  · rw [ht, Registers.datum_put_self _ (by rw [Registers.size_datum, hs])]
  · rw [ht, Registers.cc_put _ hcc]
  · rw [ht]

/-! ### Steps -/

variable {β : Type} [Bus β] {bus : β} {i : Instruction} {post : Byte}

/-- The processor behind an opcode and a postbyte of one byte each. -/
def behind (cpu : Cpu) : Cpu :=
  { cpu with wait := .running, regs := { cpu.regs with pc := cpu.regs.pc + 2 } }

theorem awake_of_execute (hm : cpu.move = .execute) :
    cpu.awake = { cpu with wait := .running } := by
  have hr := wait_awake_of_execute hm
  rcases cpu.awake_eq_or with he | ⟨_, he⟩
  · rw [← hr, he]
  · exact he

/-- What a step makes of the processor whose instruction fetches a postbyte and changes the processor
as that says. -/
theorem cpu_step_of_postbyte {f : Byte → Cpu → Cpu} (h : cpu.Executes bus i post)
    (hp : i.page? = some .base)
    (hf : ∀ c : Core β, (Exec.perform i c).2.cpu = f c.nextByte (Exec.fetch c).2.cpu)
    (ht : (f post cpu.behind).totalCycles = cpu.totalCycles) :
    (cpu.step bus).cpu =
      { f post cpu.behind with totalCycles := cpu.totalCycles + (cpu.step bus).cycles } := by
  let begun : Core β := (⟨cpu.awake, bus, 0⟩ : Core β).begun i
  have hpost : begun.nextByte = post := h.post
  have hcpu : begun.cpu = { cpu.awake with regs := begun.cpu.regs } := Exec.cpu_fetchOpcode _
  have hregs : begun.cpu.regs = { cpu.regs with pc := cpu.regs.pc + 1 } := regs_begun_of_page h hp
  have hready : (Exec.fetch begun).2.cpu = cpu.behind := by
    have hx : (Exec.fetch begun).2.cpu = { begun.cpu with
      regs := { begun.cpu.regs with pc := begun.cpu.regs.pc + 1 } } := rfl
    rw [hx, hcpu, hregs, awake_of_execute h.move, behind, ← Word.add_one_add_one]
  have hs : cpu.step bus = (Exec.perform i begun).2.settled := step_of_executes h
  have hdone : (Exec.perform i begun).2.cpu = f post cpu.behind := by rw [hf, hready, hpost]
  have hsettled : (cpu.step bus).cpu = { (Exec.perform i begun).2.cpu with
      totalCycles := (Exec.perform i begun).2.cpu.totalCycles + (cpu.step bus).cycles } := by
    rw [hs]
    rfl
  rw [hsettled, hdone, ht]

theorem cpu_step_tfr (h : cpu.Executes bus .tfr post) : (cpu.step bus).cpu =
    { cpu.behind.transfer (post.toNat / 16) (post.toNat % 16) with
      totalCycles := cpu.totalCycles + (cpu.step bus).cycles } :=
  cpu_step_of_postbyte (f := fun post cpu => cpu.transfer (post.toNat / 16) (post.toNat % 16)) h rfl
    (fun _ => rfl) (frame_writeCoded _ _ _).2

theorem cpu_step_exg (h : cpu.Executes bus .exg post) : (cpu.step bus).cpu =
    { cpu.behind.exchange (post.toNat / 16) (post.toNat % 16) with
      totalCycles := cpu.totalCycles + (cpu.step bus).cycles } :=
  cpu_step_of_postbyte (f := fun post cpu => cpu.exchange (post.toNat / 16) (post.toNat % 16)) h rfl
    (fun _ => rfl) ((frame_writeCoded _ _ _).2.trans (frame_writeCoded _ _ _).2)

/-- **Register codes obey the lens laws.** A code that names no register of the part reads as a fixed
value and ignores writes; any other one names a register, and gives back what was put into it and
changes no other. An exchange of two registers of one width swaps these two, and another one undoes
it; a transfer between them copies. Nothing else changes, but that a write to `S` arms NMI. Steps that
transfer or exchange do so by the codes of their postbyte. -/
theorem register_codes (cpu : Cpu) :
    (∀ code < 16, code ∈ cpu.variant.lacking → cpu.readCoded code = cpu.variant.blank code ∧
      ∀ value, cpu.writeCoded code value = cpu) ∧
    (∀ code < 16, code ∉ cpu.variant.lacking →
      ∃ name, cpu.variant.has name = true ∧ name.code = code ∧ cpu.Accesses code name) ∧
    (∀ m n, cpu.variant.has m = true → cpu.variant.has n = true → m.size = n.size →
      cpu.Swaps m n (cpu.exchange m.code n.code) ∧
      cpu.Copies m n (cpu.transfer m.code n.code)) ∧
    ∀ (bus : β) (post : Byte),
      (cpu.Executes bus .tfr post → (cpu.step bus).cpu =
        { cpu.behind.transfer (post.toNat / 16) (post.toNat % 16) with
          totalCycles := cpu.totalCycles + (cpu.step bus).cycles }) ∧
      (cpu.Executes bus .exg post → (cpu.step bus).cpu =
        { cpu.behind.exchange (post.toNat / 16) (post.toNat % 16) with
          totalCycles := cpu.totalCycles + (cpu.step bus).cycles }) := by
  refine ⟨fun code hlt hl => ?_, fun code hlt hl => ?_, fun m n hm hn hs => ?_,
    fun bus post => ⟨cpu_step_tfr, cpu_step_exg⟩⟩
  · obtain ⟨-, hd⟩ | ⟨hn, -⟩ := CodedRegister.names_or_lacks cpu.variant hlt
    · exact ⟨readCoded_of_absent hd, writeCoded_of_absent hd⟩
    · exact absurd hl hn
  · obtain ⟨hl', -⟩ | ⟨-, name, hh, rfl⟩ := CodedRegister.names_or_lacks cpu.variant hlt
    · exact absurd hl' hl
    · exact ⟨name, hh, rfl, accesses hh⟩
  · exact ⟨swaps hm hn hs, copies hm hn hs⟩

/-- A processor that holds different words in `X` and `S`. -/
def swapping : Cpu :=
  { fresh .motorola with regs := { Registers.zeros with x := 0x1234, s := 0x8000 } }

/-- They are swapped, and NMI is armed; `W`, which the part lacks, reads as all ones. -/
theorem register_codes_swapping :
    let bus := FlatMemory.beginning [0x1E, 0x14] (by decide)
    swapping.readCoded 0x6 = .word 0xFFFF ∧
      (∃ name, name.code = 0x4 ∧ swapping.Accesses 0x4 name) ∧
      swapping.Swaps (.word .x) (.word .s) (swapping.exchange 0x1 0x4) ∧
      (swapping.step bus).cpu =
        { swapping with
          regs := { swapping.regs with x := 0x8000, s := 0x1234, pc := 0x0002 }
          nmiArmed := true
          totalCycles := 8 } := by
  intro bus
  obtain ⟨hlacking, hnamed, hpairs, hsteps⟩ := register_codes (β := FlatMemory) swapping
  obtain ⟨name, -, hcode, haccesses⟩ := hnamed 0x4 (by decide) (by decide)
  have hx : swapping.Executes bus .exg 0x14 :=
    ⟨by decide, by decide +kernel, by decide, by decide +kernel⟩
  exact ⟨(hlacking 0x6 (by decide) (by decide)).1, ⟨name, hcode, haccesses⟩,
    (hpairs (.word .x) (.word .s) (by decide) (by decide) (by decide)).1,
    ((hsteps bus 0x14).2 hx).trans (by decide +kernel)⟩

end Cpu

end ColorComputer
