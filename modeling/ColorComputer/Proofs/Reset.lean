import ColorComputer.Console
import ColorComputer.Proofs.Age
import ColorComputer.Proofs.Bare
import ColorComputer.Proofs.Ledger
import ColorComputer.Proofs.Looking

/-!
# What reset forgets

Software reaches every register and all of the memory, but not the ROM, the amount of memory, the
rate of the samples or the clock. What a machine went through therefore leaves no trace in it once
it is reset: it is a new machine of the same configuration, except that two counts go on and that
the frame stays until it is painted.

* `Machine.Of` — the machine is one of a configuration, whatever was done to it.
* `reset_eq_aged` — a machine that is reset is an aged new one.
* `reset_forgets` — so nothing tells the two apart but their counts and the frame.
-/

namespace ColorComputer

/-! ### Memory -/

theorem Memory.reset_write (m : Memory) (a : Word) (v : Byte) : (m.write a v).reset = m.reset := by
  unfold write writePlace
  split <;> rfl

namespace Board

variable (b : Board) (a : Word)

/-- Reading leaves the memory alone. -/
theorem memory_read : (Bus.read b a).2.memory = b.memory := by
  rw [read_eq_without]
  rfl

/-- Writing changes neither the amount of memory nor the ROM. -/
theorem reset_memory_write (v : Byte) : (Bus.write b a v).memory.reset = b.memory.reset := by
  refine b.write_cases a v ?memory ?_ ?_ ?_ ?_ ?_ ?_ ?_
  case memory => exact fun _ => b.memory.reset_write a v
  all_goals intros; rfl

end Board

/-! ### Runs -/

/-- What reset leaves of a memory stays the same, whatever happens. -/
theorem lasting_reset_memory (memory : Memory) :
    Board.Lasting fun b : Board => b.memory.reset = memory where
  toSteady := .of_chips (fun h _ _ _ => h) fun h a v => (Board.reset_memory_write _ a v).trans h
  port h _ := h
  panel h _ := h
  reset h := h

/-! ### The scheduler -/

namespace Scheduler

variable {σ τ : Type} [Duration τ] (host : Host σ τ)

theorem reset_updateTimer (s : Scheduler τ) (u : Option (TimerUpdate τ)) :
    (s.updateTimer u).reset = s.reset := by
  cases u with
  | none => rfl
  | some u => cases u <;> rfl

theorem reset_advance (slice : Slice σ τ) :
    (advance host slice).scheduler.reset = slice.scheduler.reset := by
  show (piece host slice.scheduler slice.host).scheduler.reset = _
  rw [scheduler_piece, reset_updateTimer, settled_fst]
  rfl

/-- Time changes neither the rate of the samples nor the clock. -/
theorem reset_run (s : Scheduler τ) (x : σ) (time : τ) :
    (s.run host x time).scheduler.reset = s.reset :=
  run_kept (I := fun slice => slice.scheduler.reset = s.reset)
    (fun slice h => (reset_advance host slice).trans h) x time rfl

end Scheduler

/-! ### Machines of a configuration -/

/-- Reset leaves such a memory and such a scheduler as a new machine of the configuration has. -/
structure Machine.Of {τ : Type} [Duration τ] (c : Configuration) (m : Machine τ) : Prop where
  memory : m.circuit.board.memory.reset = .fresh c.ram c.rom
  scheduler : m.scheduler.reset = .fresh c.audioRate c.overclock

namespace Machine

variable {τ : Type} [Duration τ]

theorem reset_scheduler_play (m : Machine τ) (stretches : List (Stretch τ)) :
    (m.play stretches).scheduler.reset = m.scheduler.reset := by
  induction stretches generalizing m with
  | nil => rfl
  | cons stretch rest ih =>
    refine (ih (m.pass stretch)).trans ?_
    cases stretch with
    | time time => exact Scheduler.reset_run _ m.scheduler m.circuit time
    | _ => rfl

namespace Of

variable {c : Configuration} {m : Machine τ}

theorem build (c : Configuration) (panel : Panel) : (Machine.build c panel : Machine τ).Of c :=
  ⟨rfl, rfl⟩

/-- Whatever is done to a machine, it is one of its configuration. -/
theorem perform (h : m.Of c) (operation : Operation τ) : (operation.perform m).Of c where
  memory := (lasting_reset_memory _).perform h.memory operation
  scheduler := by
    rw [← h.scheduler]
    cases operation with
    | control control =>
      cases control with
      | call call =>
        show (call.perform m).scheduler.reset = m.scheduler.reset
        rw [call.scheduler_perform, reset_scheduler_play]
      | reset => rfl
      | fit variant => rfl
    | _ => rfl

theorem after (h : m.Of c) (operations : List (Operation τ)) : (m.after operations).Of c := by
  induction operations generalizing m with
  | nil => exact h
  | cons operation rest ih => exact ih (h.perform operation)

end Of

end Machine

/-! ### A new machine -/

/-- What reset leaves of a circuit is what it leaves of a new one, but for the counts. -/
theorem Circuit.reset_eq_aged {c d : Circuit} (hb : c.board.reset = d.board.reset)
    (hv : c.cpu.variant = d.cpu.variant) (ht : d.cpu.totalCycles = 0)
    (hd : d.samples.dropped = 0) :
    c.reset = d.reset.aged c.cpu.totalCycles c.samples.dropped := by
  unfold reset Cpu.reset aged Cpu.aged SampleQueue.clear SampleQueue.aged
  dsimp only
  rw [hb, hv, ht, hd, Nat.zero_add, Nat.zero_add]

/-- A machine that is reset is a new machine of its configuration, with the same part, panel and
cartridge, that is older and has another frame. -/
theorem Machine.reset_eq_aged {τ : Type} [Duration τ] {c : Configuration} {m : Machine τ}
    (h : m.Of c) {held : Option Cartridge}
    (hc : held.map (·.reset) = m.cartridge.map (·.reset)) :
    m.reset = (Console.takeOver
      (Machine.build { c with cpu := m.circuit.cpu.variant } m.circuit.board.panel) held).aged
        m.circuit.cpu.totalCycles m.circuit.samples.dropped (some m.frame) := by
  have hb : ∀ new : Board, new.memory.reset = .fresh c.ram c.rom →
      new.cartridge.map (·.reset) = m.cartridge.map (·.reset) → new.panel = m.circuit.board.panel →
      m.circuit.board.reset = new.reset := by
    intro new hm hn hp
    have hn' : m.circuit.board.cartridge.map (·.reset) = new.cartridge.map (·.reset) := hn.symm
    unfold Board.reset
    rw [h.memory, hm, hn', hp]
  have hs := h.scheduler
  cases held with
  | none =>
    have hr := Circuit.reset_eq_aged (c := m.circuit)
      (d := ⟨.fresh m.circuit.cpu.variant, .fresh (.fresh c.ram c.rom) m.circuit.board.panel,
        .empty⟩) (hb _ rfl hc rfl) rfl rfl rfl
    show (⟨m.circuit.reset, m.scheduler.reset, m.frame, 0⟩ : Machine τ) = _
    rw [hr, hs]
    rfl
  | some held =>
    have hr := Circuit.reset_eq_aged (c := m.circuit)
      (d := ((Machine.build { c with cpu := m.circuit.cpu.variant } m.circuit.board.panel :
        Machine τ).insert held).circuit) (hb _ rfl hc rfl) rfl rfl rfl
    show (⟨m.circuit.reset, m.scheduler.reset, m.frame, 0⟩ : Machine τ) = _
    rw [hr, hs]
    rfl

/-- What is seen of a machine that is older, and has another frame if one is given. -/
def View.aged {τ : Type} (k d : Nat) (stale : Option Frame) (v : View τ) : View τ :=
  { v with
    totalCycles := v.totalCycles + k
    dropped := v.dropped + d
    pixels := stale.elim v.pixels Frame.pixels }

theorem Machine.view_aged {τ : Type} (k d : Nat) (stale : Option Frame) (m : Machine τ) :
    (m.aged k d stale).view = m.view.aged k d stale := by
  cases stale <;> rfl

/-- Take a machine of a configuration and do to it what you like, then reset it. Take a new machine
of the configuration with the part that is fitted then, the same panel and the same cartridge,
whatever bank was chosen. Whatever is done to the two from then on, they answer alike and the same
is seen of them, but for the counts, which are ahead by what was counted before, and the frame,
which stays what it was until it is painted. -/
theorem reset_forgets {τ : Type} [Duration τ] {c : Configuration} {panel : Panel} {m : Machine τ}
    (hm : Machine.ofConfiguration c panel = .ok m) (history : List (Operation τ))
    {held : Option Cartridge}
    (hc : held.map (·.reset) = (m.after history).cartridge.map (·.reset)) :
    let old := m.after history
    ∃ new : Machine τ,
      Machine.ofConfiguration { c with cpu := old.circuit.cpu.variant } old.circuit.board.panel =
        .ok new ∧
      ∀ later : List (Operation τ),
        old.reset.answers later = (Console.takeOver new held).answers later ∧
        (old.reset.after later).view = ((Console.takeOver new held).after later).view.aged
          old.circuit.cpu.totalCycles old.circuit.samples.dropped
          (if later.any (·.paints) then none else some old.frame) := by
  have hf : c.fault? = none := by
    unfold Machine.ofConfiguration at hm
    split at hm
    · cases hm
    · assumption
  have hb : Machine.build c panel = m := by
    rw [Machine.ofConfiguration_of_fault?_eq_none hf] at hm
    exact Except.ok.inj hm
  have ho : (m.after history).Of c := by
    rw [← hb]
    exact (Machine.Of.build c panel).after history
  refine ⟨_, Machine.ofConfiguration_of_fault?_eq_none (by exact hf) _, fun later => ?_⟩
  rw [Machine.reset_eq_aged ho hc]
  exact ⟨answers_aged _ _ _ _ later, by rw [after_aged, Machine.view_aged]⟩

/-! ### A machine with a past -/

theorem Machine.cartridge_after_insert {τ : Type} [Duration τ] (m : Machine τ)
    (past : List (Operation τ)) (cartridge : Cartridge) :
    (m.after (past ++ [.control (.call (.insert cartridge))])).cartridge = some cartridge := by
  rw [after_append]
  rfl

namespace Plugged

/-- A machine whose ROM is blank. -/
def configuration : Configuration := { Configuration.standard with rom := romOf fun _ => 0 }

theorem fault?_configuration : configuration.fault? = none := by
  have hr : configuration.rom = romOf fun _ => 0 := rfl
  have ho : configuration.overclock = 1 := rfl
  rw [Configuration.fault?_eq_none_iff, hr, size_romOf, ho]
  exact ⟨rfl, Nat.le_refl 1, by decide⟩

/-- A cartridge that holds one instruction, in which a bank was chosen. -/
def cartridge (bank : Byte) : Cartridge := ⟨"return", ⟨#[0x39]⟩, bank, by decide⟩

/-- A field passes, memory is written, another processor is fitted and a cartridge put into the
port. -/
def history : List (Operation Float) :=
  [.control (.call .frame), .write 0x1000 0x55, .control (.fit .hitachi)] ++
    [.control (.call (.insert (cartridge 5)))]

end Plugged

/-- The byte in memory and the bank of the cartridge are forgotten; the processor stays. -/
theorem reset_forgets_plugged :
    let old := (Machine.build Plugged.configuration .released : Machine Float).after Plugged.history
    old.cartridge = some (Plugged.cartridge 5) ∧
    ∃ new : Machine Float,
      Machine.ofConfiguration { Plugged.configuration with cpu := old.circuit.cpu.variant }
        old.circuit.board.panel = .ok new ∧
      ∀ later : List (Operation Float),
        old.reset.answers later =
          (Console.takeOver new (some (Plugged.cartridge 0))).answers later ∧
        (old.reset.after later).view =
          ((Console.takeOver new (some (Plugged.cartridge 0))).after later).view.aged
            old.circuit.cpu.totalCycles old.circuit.samples.dropped
            (if later.any (·.paints) then none else some old.frame) := by
  have hc : ((Machine.build Plugged.configuration .released : Machine Float).after
      Plugged.history).cartridge = some (Plugged.cartridge 5) :=
    Machine.cartridge_after_insert _ _ _
  refine ⟨hc, reset_forgets
    (Machine.ofConfiguration_of_fault?_eq_none Plugged.fault?_configuration .released)
    Plugged.history ?_⟩
  rw [hc]
  rfl

end ColorComputer
