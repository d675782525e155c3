import ColorComputer.Proofs.Custody
import ColorComputer.Proofs.DevicePage
import ColorComputer.Proofs.Touched

/-!
# Switching on

A console that is switched on gets a new machine. Whatever the console went through, all that this
machine takes over is the panel and the image of the cartridge; a bank that was chosen is forgotten,
and so is whether the cartridge came before the machine or after it. A configuration with a fault
leaves the console as it was, without its machine.

* `takeOver_congr` — of the cartridge that is taken over, the name and the image count.
* `Machine.Unused` — a machine that did nothing yet but be reset.
* `Unused.reset_insert` — a reset with a cartridge makes any unused machine the same.
* `start_of_fault`, `start_of_sound` — the two outcomes of switching on.
* `start_load` — a cartridge may be loaded before switching on or after.
* `start_determined` — what a console that is switched on depends on.
-/

namespace ColorComputer

/-! ### The cartridge that is taken over -/

/-- A reset leaves of a cartridge the name and the image. -/
theorem Cartridge.reset_congr {a b : Cartridge} (h : a.label = b.label) : a.reset = b.reset := by
  obtain ⟨name, image, bank, hp⟩ := a
  obtain ⟨name', image', bank', hp'⟩ := b
  obtain ⟨rfl, rfl⟩ := Prod.mk.inj h
  rfl

namespace Machine

variable {τ : Type} [Duration τ] {m : Machine τ}

/-- Two cartridges of one name and image are the same to a machine that is reset with them. -/
theorem reset_insert_congr {a b : Cartridge} (h : a.label = b.label) :
    (m.insert a).reset = (m.insert b).reset := by
  have hb : (m.insert a).circuit.board.reset = (m.insert b).circuit.board.reset := by
    show ({ m.circuit.board.reset with cartridge := some a.reset } : Board) = _
    rw [Cartridge.reset_congr h]
    rfl
  show (⟨(m.insert a).circuit.reset, _, _, _⟩ : Machine τ) = ⟨(m.insert b).circuit.reset, _, _, _⟩
  unfold Circuit.reset
  rw [hb]
  rfl

/-- Of the cartridge that is taken over, the name and the image count. -/
theorem takeOver_congr {held held' : Option Cartridge}
    (h : held.map Cartridge.label = held'.map Cartridge.label) :
    Console.takeOver m held = Console.takeOver m held' := by
  cases held with
  | none => cases held' with
    | none => rfl
    | some b => cases h
  | some a => cases held' with
    | none => cases h
    | some b => exact reset_insert_congr (Option.some.inj h)

/-! ### Unused machines -/

/-- A machine of a configuration that did nothing yet but be reset. -/
structure Unused (c : Configuration) (panel : Panel) (m : Machine τ) : Prop extends m.Of c where
  processor : m.circuit.cpu.variant = c.cpu
  panel : m.circuit.board.panel = panel
  totalCycles : m.circuit.cpu.totalCycles = 0
  dropped : m.circuit.samples.dropped = 0
  frame : m.frame = .black

namespace Unused

variable {c : Configuration} {panel : Panel}

/-- To be reset is not to be used. -/
theorem reset (h : m.Unused c panel) : m.reset.Unused c panel where
  toOf := h.toOf.perform (.control .reset)
  processor := h.processor
  panel := (Board.steady_panel panel).serve (b := m.circuit.board.reset) h.panel (.readWord 0xFFFE)
  totalCycles := h.totalCycles
  dropped := h.dropped
  frame := h.frame

theorem insert (h : m.Unused c panel) (cartridge : Cartridge) :
    (m.insert cartridge).Unused c panel :=
  ⟨⟨h.memory, h.scheduler⟩, h.processor, h.panel, h.totalCycles, h.dropped, h.frame⟩

theorem build (c : Configuration) (panel : Panel) :
    (Machine.build c panel : Machine τ).Unused c panel where
  toOf := .build c panel
  processor := rfl
  panel := (Board.steady_panel panel).serve
    (b := (Board.fresh (.fresh c.ram c.rom) panel).reset) rfl (.readWord 0xFFFE)
  totalCycles := rfl
  dropped := rfl
  frame := rfl

theorem takeOver (c : Configuration) (panel : Panel) (held : Option Cartridge) :
    (Console.takeOver (Machine.build c panel : Machine τ) held).Unused c panel := by
  cases held with
  | none => exact .build c panel
  | some cartridge => exact ((build c panel).insert cartridge).reset

/-- A reset with a cartridge leaves of an unused machine nothing but its configuration and its
panel. -/
theorem reset_insert (h : m.Unused c panel) (cartridge : Cartridge) :
    (m.insert cartridge).reset = ((Machine.build c panel).insert cartridge).reset := by
  have hi := h.insert cartridge
  have hc : (some cartridge).map (·.reset) = (m.insert cartridge).cartridge.map (·.reset) := rfl
  have haged := reset_eq_aged hi.toOf hc
  rw [hi.processor, hi.panel, hi.totalCycles, hi.dropped, hi.frame] at haged
  exact haged

/-- The processor of an unused machine is the one that would be fitted. -/
theorem fit_insert (h : m.Unused c panel) (cartridge : Cartridge) :
    (m.insert cartridge).fit c.cpu = m.insert cartridge :=
  congrArg (fun cpu => (⟨⟨cpu, _, _⟩, _, _, _⟩ : Machine τ)) (if_pos h.processor)

end Unused

end Machine

/-! ### The two outcomes -/

namespace Console

variable {τ : Type} [Duration τ]

/-- A configuration with a fault leaves no machine; all else stays. -/
theorem start_of_fault (c : Console τ) {bad : Configuration} {fault : ConfigurationFault}
    (h : bad.fault? = some fault) :
    c.start bad = (some (.configuration fault),
      ⟨.bare c.bench.panel c.bench.cartridge, c.cpu, c.audioRate, some (.configuration fault)⟩) := by
  unfold start Machine.ofConfiguration
  rw [h]
  rfl

/-- A configuration without a fault makes a machine. -/
theorem start_of_sound (c : Console τ) {configuration : Configuration}
    (h : configuration.fault? = none) :
    c.start configuration = (none,
      ⟨.machine (takeOver (.build configuration c.bench.panel) c.bench.cartridge),
        configuration.cpu, configuration.audioRate, none⟩) := by
  unfold start Machine.ofConfiguration
  rw [h]
  rfl

/-- Of what a console was, the panel and the name and the image of the cartridge count. -/
theorem start_congr {c d : Console τ} {configuration : Configuration}
    (h : configuration.fault? = none)
    (hc : c.bench.cartridge.map Cartridge.label = d.bench.cartridge.map Cartridge.label)
    (hp : c.bench.panel = d.bench.panel) : c.start configuration = d.start configuration := by
  rw [c.start_of_sound h, d.start_of_sound h, hp, Machine.takeOver_congr hc]

/-! ### Cartridges that come before the machine or after it -/

/-- A cartridge that is loaded is the one held from then on, and the user's hands stay where they
are. -/
theorem bench_loadCartridge (c : Console τ) {name : String} {image : ByteArray}
    {cartridge : Cartridge} (h : Cartridge.ofImage? name image = .ok cartridge) :
    (c.loadCartridge name image).1 = none ∧
    (c.loadCartridge name image).2.bench.panel = c.bench.panel ∧
    (c.loadCartridge name image).2.bench.cartridge.map Cartridge.label = some cartridge.label := by
  obtain ⟨bench, cpu, audioRate, lastFault⟩ := c
  unfold loadCartridge
  rw [h]
  cases bench with
  | bare panel held => exact ⟨rfl, rfl, rfl⟩
  | machine m =>
    have hm : m.Has (m.cartridge.map Cartridge.label) m.circuit.cpu.variant := ⟨rfl, rfl⟩
    have hp := (Board.steady_panel m.circuit.board.panel).serve
      (b := ((m.insert cartridge).fit cpu).circuit.board.reset) rfl (.readWord 0xFFFE)
    exact ⟨rfl, hp, (((hm.insert cartridge).fit cpu).reset).cartridge⟩

/-- A cartridge that is put into a machine just switched on comes to the same as one that it took
over. -/
theorem load_start (c : Console τ) {configuration : Configuration} (hf : configuration.fault? = none)
    {name : String} {image : ByteArray} {cartridge : Cartridge}
    (h : Cartridge.ofImage? name image = .ok cartridge) :
    (c.start configuration).2.loadCartridge name image =
      (none, ⟨.machine (takeOver (.build configuration c.bench.panel) (some cartridge)),
        configuration.cpu, configuration.audioRate, none⟩) := by
  have hu : (takeOver (.build configuration c.bench.panel) c.bench.cartridge : Machine τ).Unused
      configuration c.bench.panel := .takeOver configuration c.bench.panel c.bench.cartridge
  rw [c.start_of_sound hf]
  unfold loadCartridge
  rw [h]
  refine congrArg (fun m => (none, (⟨.machine m, _, _, _⟩ : Console τ))) ?_
  show Machine.reset (Machine.fit (Machine.insert _ cartridge) configuration.cpu) = _
  rw [hu.fit_insert, hu.reset_insert]
  rfl

/-- An image that is taken may be loaded before switching on or after. -/
theorem start_load (c : Console τ) {configuration : Configuration} (hf : configuration.fault? = none)
    (name : String) {image : ByteArray} (h : Cartridge.Fits image) :
    (c.loadCartridge name image).2.start configuration =
      (c.start configuration).2.loadCartridge name image := by
  obtain ⟨cartridge, ho, -⟩ := Cartridge.ofImage?_of_fits name h
  obtain ⟨-, hp, hc⟩ := c.bench_loadCartridge ho
  have hheld : _ = (some cartridge).map Cartridge.label := hc
  rw [c.load_start hf ho, start_of_sound _ hf, hp, Machine.takeOver_congr hheld]

/-- Two consoles with their panels in the same state and with a cartridge of the same name and image,
or with none: a configuration without a fault switches both on, and then there is nothing that tells
one from the other. Trying a configuration with a fault first makes no difference, and it leaves the
panel, the cartridge, the part that is chosen and the rate as they were. Nor does it make a difference
whether an image that is taken is loaded before or after; one that is refused is refused either way,
and then only the latest fault differs. -/
theorem start_determined {c d : Console τ} {configuration : Configuration}
    (hf : configuration.fault? = none)
    (hc : c.bench.cartridge.map Cartridge.label = d.bench.cartridge.map Cartridge.label)
    (hp : c.bench.panel = d.bench.panel) :
    (∃ m, c.start configuration =
        (none, ⟨.machine m, configuration.cpu, configuration.audioRate, none⟩) ∧
      d.start configuration = c.start configuration) ∧
    (∀ (bad : Configuration) (fault : ConfigurationFault), bad.fault? = some fault →
      c.start bad = (some (.configuration fault),
        ⟨.bare c.bench.panel c.bench.cartridge, c.cpu, c.audioRate,
          some (.configuration fault)⟩) ∧
      (c.start bad).2.start configuration = c.start configuration) ∧
    (∀ (name : String) (image : ByteArray), Cartridge.Fits image →
      (c.loadCartridge name image).1 = none ∧
      (c.loadCartridge name image).2.start configuration =
        (c.start configuration).2.loadCartridge name image) ∧
    (∀ (name : String) (image : ByteArray), ¬ Cartridge.Fits image →
      ∃ fault, (c.loadCartridge name image).1 = some (.cartridge fault) ∧
        (c.loadCartridge name image).2.start configuration = c.start configuration ∧
        (c.start configuration).2.loadCartridge name image = (some (.cartridge fault),
          { (c.start configuration).2 with lastFault := some (.cartridge fault) })) := by
  refine ⟨⟨_, c.start_of_sound hf, (start_congr hf hc hp).symm⟩, fun bad fault hb => ?_,
    fun name image h => ?_, fun name image h => ?_⟩
  · have hs := c.start_of_fault hb
    exact ⟨hs, by rw [hs]; exact start_congr hf rfl rfl⟩
  · obtain ⟨cartridge, ho, -⟩ := Cartridge.ofImage?_of_fits name h
    exact ⟨(c.bench_loadCartridge ho).1, c.start_load hf name h⟩
  · obtain ⟨fault, ho⟩ := Cartridge.ofImage?_of_not_fits name h
    have hl := c.loadCartridge_of_error ho
    exact ⟨fault, by rw [hl], by rw [hl]; exact start_congr hf rfl rfl,
      loadCartridge_of_error _ ho⟩

end Console

/-! ### Two consoles with different pasts -/

namespace Plugged

/-- A machine with a past is on, with a cartridge in which a bank was chosen. -/
def busy : Console Float :=
  ⟨.machine ((Machine.build configuration .released).after history), .hitachi, 8000, none⟩

/-- A configuration without a ROM was tried while such a cartridge was held. -/
def failed (panel : Panel) : Console Float :=
  (Console.start ⟨.bare panel (some (cartridge 0)), .motorola, 44100, none⟩ .standard).2

theorem failed_eq (panel : Panel) : failed panel = ⟨.bare panel (some (cartridge 0)), .motorola,
    44100, some (.configuration .missingRom)⟩ := by
  have hm : Configuration.standard.fault? = some .missingRom := by decide
  unfold failed
  rw [Console.start_of_fault _ hm]
  rfl

theorem panel_failed (panel : Panel) : (failed panel).bench.panel = panel := by
  rw [failed_eq]
  rfl

theorem cartridge_failed (panel : Panel) :
    (failed panel).bench.cartridge = some (cartridge 0) := by
  rw [failed_eq]
  rfl

theorem cartridge_busy : busy.bench.cartridge = some (cartridge 5) :=
  Machine.cartridge_after_insert _ _ _

end Plugged

/-- The two start alike; so does the first after it was given an empty image, and after it tried a
configuration without a ROM. An image that is taken may come before or after. -/
theorem Console.start_determined_plugged :
    let failed := Plugged.failed Plugged.busy.bench.panel
    Plugged.busy.bench.cartridge = some (Plugged.cartridge 5) ∧
    failed.bench.cartridge = some (Plugged.cartridge 0) ∧
    failed.lastFault = some (.configuration .missingRom) ∧
    failed.start Plugged.configuration = Plugged.busy.start Plugged.configuration ∧
    (Plugged.busy.start .standard).2.start Plugged.configuration =
      Plugged.busy.start Plugged.configuration ∧
    (Plugged.busy.loadCartridge "other" ⟨#[0x12]⟩).2.start Plugged.configuration =
      (Plugged.busy.start Plugged.configuration).2.loadCartridge "other" ⟨#[0x12]⟩ ∧
    (Plugged.busy.loadCartridge "none" .empty).2.start Plugged.configuration =
      Plugged.busy.start Plugged.configuration := by
  intro failed
  have hc : Plugged.busy.bench.cartridge.map Cartridge.label =
      failed.bench.cartridge.map Cartridge.label := by
    rw [Plugged.cartridge_busy, Plugged.cartridge_failed]
    rfl
  have hp : Plugged.busy.bench.panel = failed.bench.panel := (Plugged.panel_failed _).symm
  obtain ⟨⟨m, -, hs⟩, hbad, htaken, hrefused⟩ :=
    Console.start_determined Plugged.fault?_configuration hc hp
  obtain ⟨-, hretry⟩ := hbad .standard .missingRom (by decide)
  obtain ⟨-, hload⟩ := htaken "other" ⟨#[0x12]⟩ (by decide)
  obtain ⟨fault, -, hnone, -⟩ := hrefused "none" .empty (by decide)
  have hfault := congrArg Console.lastFault (Plugged.failed_eq Plugged.busy.bench.panel)
  exact ⟨Plugged.cartridge_busy, Plugged.cartridge_failed _, hfault, hs, hretry, hload, hnone⟩

end ColorComputer
