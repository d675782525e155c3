import Mathlib.Data.List.Induction
import ColorComputer.Console
import ColorComputer.Proofs.Bare
import ColorComputer.Proofs.Looking

/-!
# The cartridge and the processor of a console

The cartridge of a console lies on the bench or is in the port of its machine, and it passes from
one to the other when a machine is switched on or off. A processor that is chosen waits for the next
reset. What a console has is therefore told by what was done to it: the cartridge by the last image
that it took and was not told to put away, the processor by the choice that the last reset found.

* `Circuit.steady_variant`, `Board.steady_label` — a machine that runs keeps both.
* `Console.Keeps` — a console has what its past says.
* `Console.Keeps.perform` — whatever is done to it, it goes on having it.
* `Console.custody` — the cartridge, the machine and the processor after any past.
-/

namespace ColorComputer

/-! ### What a run keeps -/

/-- What a cartridge is, whatever bank is chosen. -/
def Cartridge.label (c : Cartridge) : String × ByteArray := (c.name, c.image)

/-- Software chooses banks, and does nothing else to a cartridge. -/
theorem Board.steady_label (label : Option (String × ByteArray)) :
    Steady fun b : Board => b.cartridge.map Cartridge.label = label := by
  refine .of_chips (fun h _ _ _ => h) fun {b} h a v => ?_
  refine b.write_cases a v ?_ ?_ ?_ ?bank ?_ ?_ ?_ ?_
  case bank =>
    rw [← h]
    exact Option.map_map ..
  all_goals intros; exact h

namespace Cpu

variable {β : Type} [Bus β]

theorem variant_step (cpu : Cpu) (bus : β) : (cpu.step bus).cpu.variant = cpu.variant := by
  have hP : CoreInvariant fun c : Core β => c.cpu.variant = cpu.variant :=
    { cpu := fun h _ hv _ _ => hv.trans h
      read := fun h _ => h
      write := fun h _ _ => h
      charge := fun h _ => h }
  rw [step_eq]
  exact Exec.kept_ofMove hP (fun h _ => h) cpu.move ⟨cpu.awake, bus, 0⟩ cpu.variant_awake

/-- No program changes the part that it runs on. -/
theorem variant_runUntil (budget : Nat) (core : Core β) :
    (runUntil budget core).cpu.variant = core.cpu.variant := by
  refine runUntil_induction budget ?_ ?_ ?_ core
  · intro core hu
    rw [runUntil_of_le hu]
  · intro core hu hm
    rw [runUntil_idle hu hm]
    rfl
  · intro core hu hm ih
    rw [runUntil_advance hu hm, ih]
    exact core.cpu.variant_step core.bus

end Cpu

namespace Circuit

theorem variant_raise (c : Circuit) (source : Byte) :
    (c.raise source).cpu.variant = c.cpu.variant := by
  show (assertRaised c.cpu _).variant = _
  unfold assertRaised
  split <;> split <;> rfl

theorem variant_assertAdapters (c : Circuit) :
    c.assertAdapters.cpu.variant = c.cpu.variant := by
  unfold assertAdapters
  split <;> split <;> rfl

/-- Nothing that a circuit does while time passes changes its processor for another. -/
theorem steady_variant (variant : Variant) :
    Steady fun c : Circuit => c.cpu.variant = variant where
  runCycles {c} h budget := (Cpu.variant_runUntil budget ⟨c.cpu, c.board, 0⟩).trans h
  takeSample h := h
  raise {c} h source := (c.variant_raise source).trans h
  takeTimerUpdate h := h
  driveLine {c} h level := by
    unfold driveLine
    cases level <;> cases c.board.cartridge.isSome <;>
      simp [variant_assertAdapters, variant_raise, h]
  driveField {c} h level := by
    unfold driveField
    cases level <;> simp [variant_assertAdapters, variant_raise, h]

end Circuit

/-! ### What a machine has -/

/-- The machine has this cartridge in its port, if any, and runs on this part. -/
structure Machine.Has {τ : Type} (m : Machine τ) (label : Option (String × ByteArray))
    (variant : Variant) : Prop where
  cartridge : m.cartridge.map Cartridge.label = label
  processor : m.circuit.cpu.variant = variant

namespace Machine.Has

variable {τ : Type} {m : Machine τ} {label : Option (String × ByteArray)} {variant : Variant}
  (h : m.Has label variant)
include h

theorem insert (cartridge : Cartridge) : (m.insert cartridge).Has (some cartridge.label) variant :=
  ⟨rfl, h.processor⟩

theorem eject : m.eject.Has none variant := ⟨rfl, h.processor⟩

theorem fit (other : Variant) : (m.fit other).Has label other := by
  refine ⟨h.cartridge, ?_⟩
  show (if m.circuit.cpu.variant = other then m.circuit.cpu else _).variant = other
  split
  · assumption
  · rfl

theorem mapPanel (f : Panel → Panel) : (m.mapPanel f).Has label variant :=
  ⟨h.cartridge, h.processor⟩

theorem drainInto (buffer : List Int16) : (m.drainInto buffer).2.2.Has label variant :=
  ⟨h.cartridge, h.processor⟩

variable [Duration τ]

/-- A reset leaves the part where it is, and of the cartridge forgets the bank. -/
theorem reset : m.reset.Has label variant := by
  refine ⟨?_, h.processor⟩
  have hc : (m.circuit.board.reset.cartridge).map Cartridge.label = label := by
    rw [← h.cartridge]
    exact Option.map_map ..
  exact (Board.steady_label label).serve hc (.readWord 0xFFFE)

theorem runFrame : m.runFrame.2.Has label variant :=
  ⟨(Board.steady_label label).circuit.runFrame h.cartridge,
    (Circuit.steady_variant variant).runFrame h.processor⟩

theorem runSlice (time : τ) : (m.runSlice time).2.Has label variant :=
  ⟨(Board.steady_label label).circuit.runSlice h.cartridge time,
    (Circuit.steady_variant variant).runSlice h.processor time⟩

omit [Duration τ] in
theorem runCycles (budget : Nat) : (m.runCycles budget).2.Has label variant :=
  ⟨(Board.steady_label label).circuit.runCycles h.cartridge budget,
    (Circuit.steady_variant variant).runCycles h.processor budget⟩

end Machine.Has

/-! ### What is done to a console -/

/-- What is done to a console. -/
inductive Command (τ : Type)
  | start (configuration : Configuration)
  | shutdown
  | reset
  | load (name : String) (image : ByteArray)
  | eject
  | choose (variant : Variant)
  | frame
  | slice (time : τ)
  | cycles (budget : Nat)
  | touch (f : Panel → Panel)
  | drain (buffer : List Int16)

/-- The console after a command. -/
def Command.perform {τ : Type} [Duration τ] (c : Console τ) : Command τ → Console τ
  | start configuration => (c.start configuration).2
  | shutdown => c.shutdown
  | reset => c.reset
  | load name image => (c.loadCartridge name image).2
  | eject => c.ejectCartridge
  | choose variant => c.chooseCpu variant
  | frame => c.runFrame.2
  | slice time => (c.runSlice time).2
  | cycles budget => (c.runCycles budget).2
  | touch f => c.mapPanel f
  | drain buffer => (c.drainInto buffer).2.2

/-- The console after one command after the other. -/
def Console.after {τ : Type} [Duration τ] (c : Console τ) (commands : List (Command τ)) :
    Console τ := commands.foldl Command.perform c

/-! ### What its past says of a console -/

/-- An image that is taken. -/
def Cartridge.Fits (image : ByteArray) : Prop := 0 < image.size ∧ image.size ≤ Cartridge.maxSize

instance : DecidablePred Cartridge.Fits := fun _ => inferInstanceAs (Decidable (_ ∧ _))

section Past

variable {τ : Type}

/-- The last image that was taken, unless it was put away since. The past is told the latest
first. -/
def lastLoaded : List (Command τ) → Option (String × ByteArray)
  | [] => none
  | .load name image :: older =>
    if Cartridge.Fits image then some (name, image) else lastLoaded older
  | .eject :: _ => none
  | _ :: older => lastLoaded older

/-- The last time it was switched on there was no fault, and it was not switched off since. -/
def isOn : List (Command τ) → Bool
  | [] => false
  | .start configuration :: _ => configuration.fault?.isNone
  | .shutdown :: _ => false
  | _ :: older => isOn older

/-- The part that was chosen last, by itself or with a configuration that has no fault. -/
def lastChosen : List (Command τ) → Variant
  | [] => Configuration.standard.cpu
  | .start configuration :: older =>
    if configuration.fault?.isNone then configuration.cpu else lastChosen older
  | .choose variant :: _ => variant
  | _ :: older => lastChosen older

/-- The part that was fitted last: that of the configuration, and from a reset on the one that was
chosen when it came. An image that is taken resets. -/
def lastFitted : List (Command τ) → Variant
  | [] => Configuration.standard.cpu
  | .start configuration :: _ => configuration.cpu
  | .reset :: older => lastChosen older
  | .load _ image :: older =>
    if Cartridge.Fits image then lastChosen older else lastFitted older
  | _ :: older => lastFitted older

end Past

/-! ### What a console has -/

theorem Machine.has_build {τ : Type} [Duration τ] (configuration : Configuration) (panel : Panel) :
    (build configuration panel : Machine τ).Has none configuration.cpu :=
  Has.reset (m := ⟨⟨.fresh configuration.cpu,
    .fresh (.fresh configuration.ram configuration.rom) panel, .empty⟩, _, _, _⟩) ⟨rfl, rfl⟩

namespace Cartridge

theorem ofImage?_of_fits (name : String) {image : ByteArray} (h : Fits image) :
    ∃ cartridge, ofImage? name image = .ok cartridge ∧ cartridge.label = (name, image) := by
  have hn : image.size ≠ 0 := Nat.pos_iff_ne_zero.1 h.1
  refine ⟨⟨name, image, 0, h.1⟩, ?_, rfl⟩
  unfold ofImage?
  rw [dif_neg hn, if_neg (Nat.not_lt.2 h.2)]

theorem ofImage?_of_not_fits (name : String) {image : ByteArray} (h : ¬ Fits image) :
    ∃ fault, ofImage? name image = .error fault := by
  cases ho : ofImage? name image with
  | error fault => exact ⟨fault, rfl⟩
  | ok cartridge => exact absurd ((ofImage?_eq_ok_iff name image).1 ⟨cartridge, ho⟩) h

end Cartridge

namespace Console

/-- A console has what its past says: the cartridge, in the port of its machine if one is on; the
part that is chosen; and the part that is fitted. -/
structure Keeps {τ : Type} (c : Console τ) (past : List (Command τ)) : Prop where
  ready : c.isReady = isOn past
  cartridge : c.bench.cartridge.map Cartridge.label = lastLoaded past
  chosen : c.cpu = lastChosen past
  machine : ∀ m, c.bench.machine? = some m → m.Has (lastLoaded past) (lastFitted past)

namespace Keeps

section Bench

variable {τ : Type} {past : List (Command τ)} {cpu : Variant} {rate : Nat}
  {fault : Option ConsoleFault}

theorem bare {panel : Panel} {held : Option Cartridge} (ho : isOn past = false)
    (hl : held.map Cartridge.label = lastLoaded past) (hc : cpu = lastChosen past) :
    Keeps ⟨.bare panel held, cpu, rate, fault⟩ past where
  ready := ho.symm
  cartridge := hl
  chosen := hc
  machine _ hm := nomatch hm

theorem on {m : Machine τ} (ho : isOn past = true) (hm : m.Has (lastLoaded past) (lastFitted past))
    (hc : cpu = lastChosen past) : Keeps ⟨.machine m, cpu, rate, fault⟩ past where
  ready := ho.symm
  cartridge := hm.cartridge
  chosen := hc
  machine _ hs := Option.some.inj hs ▸ hm

theorem fresh : (Console.fresh : Console τ).Keeps [] := .bare rfl rfl rfl

end Bench

variable {τ : Type} [Duration τ] {c : Console τ} {past : List (Command τ)} (h : c.Keeps past)
include h

/-- A machine that is switched on takes over what lies on the bench. -/
theorem start (configuration : Configuration) :
    (c.start configuration).2.Keeps (.start configuration :: past) := by
  unfold Console.start Machine.ofConfiguration
  cases hf : configuration.fault? with
  | some fault =>
    have hc : lastChosen (.start configuration :: past) = lastChosen past := by
      simp [lastChosen, hf]
    exact .bare (by simp [isOn, hf]) h.cartridge (h.chosen.trans hc.symm)
  | none =>
    have hb : (Machine.build configuration c.bench.panel : Machine τ).Has none configuration.cpu :=
      Machine.has_build configuration c.bench.panel
    refine .on (by simp [isOn, hf]) ?_ (by simp [lastChosen, hf])
    -- a machine that was on before has left its cartridge on the bench by now
    show Machine.Has _ (lastLoaded past) configuration.cpu
    rw [← h.cartridge]
    show Machine.Has (takeOver _ c.bench.cartridge) _ _
    cases c.bench.cartridge with
    | none => exact hb
    | some cartridge => exact (hb.insert cartridge).reset

/-- At a reset the part that is chosen is fitted. -/
theorem reset : c.reset.Keeps (.reset :: past) := by
  obtain ⟨bench, cpu, rate, fault⟩ := c
  cases bench with
  | bare panel held => exact .bare h.ready.symm h.cartridge h.chosen
  | machine m =>
    refine .on h.ready.symm ?_ h.chosen
    show Machine.Has _ (lastLoaded past) (lastChosen past)
    rw [← h.chosen]
    exact ((h.machine m rfl).fit cpu).reset

theorem load (name : String) (image : ByteArray) :
    (c.loadCartridge name image).2.Keeps (.load name image :: past) := by
  unfold loadCartridge
  by_cases hf : Cartridge.Fits image
  · obtain ⟨cartridge, ho, hl⟩ := Cartridge.ofImage?_of_fits name hf
    have hloaded : lastLoaded (.load name image :: past) = some cartridge.label := by
      rw [hl]
      exact if_pos hf
    have hfitted : lastFitted (.load name image :: past) = lastChosen past := if_pos hf
    rw [ho]
    -- a machine that is on is reset with what it was given, and so gets the part that is chosen
    obtain ⟨bench, cpu, rate, fault⟩ := c
    cases bench with
    | bare panel held => exact .bare h.ready.symm hloaded.symm h.chosen
    | machine m =>
      refine .on h.ready.symm ?_ h.chosen
      rw [hloaded, hfitted, ← h.chosen]
      exact (((h.machine m rfl).insert cartridge).fit cpu).reset
  · obtain ⟨fault, ho⟩ := Cartridge.ofImage?_of_not_fits name hf
    have hloaded : lastLoaded (.load name image :: past) = lastLoaded past := if_neg hf
    have hfitted : lastFitted (.load name image :: past) = lastFitted past := if_neg hf
    rw [ho]
    constructor
    · exact h.ready
    · exact h.cartridge.trans hloaded.symm
    · exact h.chosen
    · intro m hm
      rw [hloaded, hfitted]
      exact h.machine m hm

omit [Duration τ] in
theorem eject : c.ejectCartridge.Keeps (.eject :: past) := by
  obtain ⟨bench, cpu, rate, fault⟩ := c
  cases bench with
  | bare panel held => exact .bare h.ready.symm rfl h.chosen
  | machine m => exact .on h.ready.symm (h.machine m rfl).eject h.chosen

omit [Duration τ] in
/-- Letting the machine run keeps all that it has. -/
theorem withMachine {α : Type} {f : Machine τ → α × Machine τ} {now : List (Command τ)}
    (hf : ∀ {m : Machine τ} {label variant}, m.Has label variant → (f m).2.Has label variant)
    (ho : isOn now = isOn past) (hl : lastLoaded now = lastLoaded past)
    (hc : lastChosen now = lastChosen past) (hv : lastFitted now = lastFitted past) :
    (c.withMachine f).2.Keeps now := by
  obtain ⟨bench, cpu, rate, fault⟩ := c
  cases bench with
  | bare panel held =>
    exact .bare (ho.trans h.ready.symm) (h.cartridge.trans hl.symm) (h.chosen.trans hc.symm)
  | machine m =>
    refine .on (ho.trans h.ready.symm) ?_ (h.chosen.trans hc.symm)
    rw [hl, hv]
    exact hf (h.machine m rfl)

/-- Whatever is done to a console, it goes on having what its past says. -/
theorem perform (command : Command τ) : (command.perform c).Keeps (command :: past) := by
  cases command with
  | start configuration => exact h.start configuration
  | shutdown => exact .bare rfl h.cartridge h.chosen
  | reset => exact h.reset
  | load name image => exact h.load name image
  | eject => exact h.eject
  | choose variant => exact ⟨h.ready, h.cartridge, rfl, h.machine⟩
  | frame => exact h.withMachine (fun hm => hm.runFrame) rfl rfl rfl rfl
  | slice time => exact h.withMachine (fun hm => hm.runSlice time) rfl rfl rfl rfl
  | cycles budget => exact h.withMachine (fun hm => hm.runCycles budget) rfl rfl rfl rfl
  | touch f =>
    obtain ⟨bench, cpu, rate, fault⟩ := c
    cases bench with
    | bare panel held => exact .bare h.ready.symm h.cartridge h.chosen
    | machine m => exact .on h.ready.symm ((h.machine m rfl).mapPanel f) h.chosen
  | drain buffer =>
    obtain ⟨bench, cpu, rate, fault⟩ := c
    cases bench with
    | bare panel held => exact .bare h.ready.symm h.cartridge h.chosen
    | machine m => exact .on h.ready.symm ((h.machine m rfl).drainInto buffer) h.chosen

end Keeps

variable {τ : Type} [Duration τ]

/-- A console that was never switched on has what its past says, whatever was done to it since. -/
theorem keeps_after (commands : List (Command τ)) :
    (fresh.after commands : Console τ).Keeps commands.reverse := by
  induction commands using List.reverseRecOn with
  | nil => exact .fresh
  | append_singleton commands command ih =>
    rw [after, List.foldl_append, List.reverse_append]
    exact ih.perform command

/-- An image that is refused is refused by every console, and changes nothing but the latest
fault. -/
theorem loadCartridge_of_error (c : Console τ) {name : String} {image : ByteArray}
    {fault : CartridgeFault} (h : Cartridge.ofImage? name image = .error fault) :
    c.loadCartridge name image =
      (some (.cartridge fault), { c with lastFault := some (.cartridge fault) }) := by
  unfold loadCartridge
  rw [h]

theorem loadCartridge_of_not_fits (c : Console τ) (name : String) {image : ByteArray}
    (h : ¬ Cartridge.Fits image) : ∃ fault, c.loadCartridge name image =
      (some (.cartridge fault), { c with lastFault := some (.cartridge fault) }) := by
  obtain ⟨fault, ho⟩ := Cartridge.ofImage?_of_not_fits name h
  exact ⟨fault, c.loadCartridge_of_error ho⟩

omit [Duration τ] in
/-- Where no machine is on, nothing runs and nothing changes. -/
theorem withMachine_of_not_ready {α : Type} {c : Console τ} (h : c.isReady = false)
    (f : Machine τ → α × Machine τ) : c.withMachine f = (none, c) := by
  obtain ⟨bench, cpu, rate, fault⟩ := c
  cases bench with
  | bare panel held => rfl
  | machine m => simp [isReady, Bench.machine?] at h

/-- Whatever was done to a console, it has the cartridge whose image it took last, if it was not put
away since, and a machine that is on has it in its port. A machine is on if it was switched on
without a fault and not switched off since, and it runs on the part that was chosen when it was last
switched on or reset. An image that is refused changes nothing but the latest fault; and while no
machine is on nothing runs and nothing changes. -/
theorem custody (commands : List (Command τ)) :
    let c : Console τ := fresh.after commands
    let past := commands.reverse
    c.cartridgeName? = (lastLoaded past).map Prod.fst ∧
    c.isReady = isOn past ∧
    (∀ m, c.bench.machine? = some m → m.cartridge.map Cartridge.label = lastLoaded past ∧
      m.circuit.cpu.variant = lastFitted past) ∧
    (∀ (name : String) (image : ByteArray), ¬ Cartridge.Fits image →
      ∃ fault, c.loadCartridge name image =
        (some (.cartridge fault), { c with lastFault := some (.cartridge fault) })) ∧
    (c.isReady = false → c.runFrame = (none, c) ∧ (∀ time, c.runSlice time = (none, c)) ∧
      ∀ budget, c.runCycles budget = (none, c)) := by
  intro c past
  have h : c.Keeps past := keeps_after commands
  refine ⟨?_, h.ready, fun m hm => ?_, fun name image hf => ?_, fun hr => ⟨?_, fun time => ?_,
    fun budget => ?_⟩⟩
  · rw [← h.cartridge, Option.map_map]
    rfl
  · exact ⟨(h.machine m hm).cartridge, (h.machine m hm).processor⟩
  · exact c.loadCartridge_of_not_fits name hf
  · exact withMachine_of_not_ready hr _
  · exact withMachine_of_not_ready hr _
  · exact withMachine_of_not_ready hr _

/-- What is chosen after the last reset is not fitted yet. -/
example : lastFitted (τ := Float)
    [.choose .motorola, .reset, .choose .hitachi, .start .standard] = .hitachi := rfl

end Console

end ColorComputer
