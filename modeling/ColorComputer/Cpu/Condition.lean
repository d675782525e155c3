import ColorComputer.Cpu.ConditionCodes

/-!
# Branch conditions

The sixteen conditions on which a branch is taken, in the order of their encoding. Each condition
with an odd number is the opposite of the one before it.

* `holds_not`: of two opposite conditions exactly one holds.
-/

namespace ColorComputer

/-- What a branch asks of the condition codes. -/
inductive Condition
  | always | never
  | higher | lowerOrSame
  | carryClear | carrySet
  | notEqual | equal
  | overflowClear | overflowSet
  | plus | minus
  | greaterOrEqual | less
  | greater | lessOrEqual
  deriving DecidableEq

namespace Condition

/-- The condition encoded by the low four bits of a branch. -/
def ofNibble : Nat → Condition
  | 0x0 => always
  | 0x1 => never
  | 0x2 => higher
  | 0x3 => lowerOrSame
  | 0x4 => carryClear
  | 0x5 => carrySet
  | 0x6 => notEqual
  | 0x7 => equal
  | 0x8 => overflowClear
  | 0x9 => overflowSet
  | 0xA => plus
  | 0xB => minus
  | 0xC => greaterOrEqual
  | 0xD => less
  | 0xE => greater
  | _ => lessOrEqual

/-- The condition holds of these codes. -/
def holds : Condition → ConditionCodes → Bool
  | always, _ => true
  | never, _ => false
  | higher, cc => !(cc.carry || cc.zero)
  | lowerOrSame, cc => cc.carry || cc.zero
  | carryClear, cc => !cc.carry
  | carrySet, cc => cc.carry
  | notEqual, cc => !cc.zero
  | equal, cc => cc.zero
  | overflowClear, cc => !cc.overflow
  | overflowSet, cc => cc.overflow
  | plus, cc => !cc.negative
  | minus, cc => cc.negative
  | greaterOrEqual, cc => cc.negative == cc.overflow
  | less, cc => cc.negative != cc.overflow
  | greater, cc => !cc.zero && cc.negative == cc.overflow
  | lessOrEqual, cc => cc.zero || cc.negative != cc.overflow

/-- The opposite condition. -/
def not : Condition → Condition
  | always => never
  | never => always
  | higher => lowerOrSame
  | lowerOrSame => higher
  | carryClear => carrySet
  | carrySet => carryClear
  | notEqual => equal
  | equal => notEqual
  | overflowClear => overflowSet
  | overflowSet => overflowClear
  | plus => minus
  | minus => plus
  | greaterOrEqual => less
  | less => greaterOrEqual
  | greater => lessOrEqual
  | lessOrEqual => greater

/-- Of two opposite conditions exactly one holds. -/
theorem holds_not (c : Condition) (cc : ConditionCodes) : c.not.holds cc = !c.holds cc := by
  cases c <;> simp only [not, holds, bne, Bool.not_not, Bool.not_and, Bool.not_or,
    Bool.not_true, Bool.not_false]

end Condition

end ColorComputer
