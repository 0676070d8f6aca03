import DhrWorkbench.Invocation
import DhrWorkbench.Proofs.PathTexts

/-!
# Which file a started toolchain is given

The toolchain is handed the text of its target and started in the target's folder, so a relative
target is seen from two folders: from the working directory it is meant, from its own folder it is
opened. The two readings agree just if the target, folded, descends by one name more than it climbs,
or climbs past the root without descending further (`word_meets_target_iff`). An absolute target,
and so every target of the desk, is met.
-/

namespace DhrWorkbench

namespace Host

/-- A target seen from the working directory is absolute and folded. -/
theorem absoluteText_spec (h : Host) (t : Text) : (Path.ofText (h.absoluteText t)).isAbsolute
    ∧ Path.normalText (h.absoluteText t) = h.absoluteText t := by
  have hcwd : (Path.ofText h.cwdText).isAbsolute := Path.isAbsolute_ofText_iff.2 rfl
  have habs := Path.isAbsolute_joinText hcwd t
  have hplace := Path.isPlace_normal habs fun name => Path.isName_of_mem_namesOf
  have hread : Path.ofText (h.absoluteText t)
      = (Path.ofText (Path.joinText h.cwdText t)).normal := Path.ofText_text habs hplace.isName
  refine ⟨?_, Path.normalText_text habs hplace⟩
  rw [hread]
  exact habs

end Host

namespace Invocation

/-- From the folder in which it is run, a target leads to the file that is meant. -/
def IsMet (h : Host) (target : Text) : Prop :=
  (Path.ofText target).isAbsolute
    ∨ (Path.ofText target).descent = (Path.ofText target).climb + 1
    ∨ ((Path.ofText target).descent ≤ (Path.ofText target).climb
      ∧ h.cwd.length ≤ (Path.ofText target).climb)

instance (h : Host) (target : Text) : Decidable (IsMet h target) :=
  inferInstanceAs (Decidable (_ ∨ _ ∨ _ ∧ _))

theorem getLast?_command (t : Toolchain) (mode : Mode) (target : Text) :
    (command t mode target).getLast? = some target := by
  cases mode <;> rfl

theorem runFolder_eq (h : Host) (target : Text) :
    runFolder h target = Path.folderText (h.absoluteText target) := by
  have hslash := Path.isAbsolute_ofText_iff.1 (h.absoluteText_spec target).1
  have hne := Path.folderText_ne_nil (List.mem_of_mem_head? hslash)
  unfold runFolder
  simp [hne]

theorem textFrom_runFolder_iff {h : Host} (hcwd : Path.IsPlace h.cwd) (target : Text) :
    Path.textFrom (runFolder h target) target = h.absoluteText target ↔ IsMet h target := by
  rw [runFolder_eq]
  by_cases habs : (Path.ofText target).isAbsolute
  · have hsame : Path.textFrom (Path.folderText (h.absoluteText target)) target
        = h.absoluteText target := by
      rw [Path.textFrom_of_isAbsolute habs]
      exact (Path.textFrom_of_isAbsolute habs h.cwdText).symm
    exact iff_of_true hsame (.inl habs)
  · have hseen : h.absoluteText target = Path.textFrom (Path.mk .root h.cwd).text target := rfl
    rw [hseen, Path.textFrom_folderText_iff hcwd habs]
    simp [IsMet, habs]

/-- The last word of a command, seen from the folder in which it is started, names the target as it
is seen from the working directory just if the target is absolute or, folded, descends by one name
more than it climbs, or climbs past the root and descends no further. Of a target that was first
made absolute it always does. -/
theorem word_meets_target_iff (h : Host) (hcwd : Path.IsPlace h.cwd) (t : Toolchain) (mode : Mode)
    (target : Text) :
    (∃ word, (command t mode target).getLast? = some word
      ∧ (Path.textFrom (runFolder h target) word = h.absoluteText target ↔ IsMet h target))
    ∧ ∃ word, (command t mode (h.absoluteText target)).getLast? = some word
      ∧ Path.textFrom (runFolder h (h.absoluteText target)) word = h.absoluteText target := by
  refine ⟨⟨target, getLast?_command t mode target, textFrom_runFolder_iff hcwd target⟩,
    h.absoluteText target, getLast?_command t mode _, ?_⟩
  obtain ⟨habs, hnormal⟩ := h.absoluteText_spec target
  rw [Path.textFrom_of_isAbsolute habs, hnormal]

/-- A host whose working directory is two folders deep. -/
def inSources : Host := ⟨⟨[]⟩, ["w", "src"], "/home/dhr", [], [], none⟩

def someJar : Toolchain := ⟨"/opt/DhrLang.jar", .bundled, "java"⟩

theorem isPlace_inSources : Path.IsPlace inSources.cwd := by decide

theorem detour_met : Path.IsPlace inSources.cwd ∧ IsMet inSources "./../lib//a.dhr"
    ∧ ∃ word, (command someJar .check "./../lib//a.dhr").getLast? = some word
      ∧ Path.textFrom (runFolder inSources "./../lib//a.dhr") word
        = inSources.absoluteText "./../lib//a.dhr" := by
  have hmet : IsMet inSources "./../lib//a.dhr" := by decide
  obtain ⟨⟨word, hword, hiff⟩, -⟩ :=
    word_meets_target_iff inSources isPlace_inSources someJar .check "./../lib//a.dhr"
  exact ⟨isPlace_inSources, hmet, word, hword, hiff.2 hmet⟩

/-- A file in a folder below the working directory is looked for in a folder below its own. -/
theorem nested_target_missed : Path.IsPlace inSources.cwd
    ∧ inSources.absoluteText "lib/a.dhr" = Text.ofString "/w/src/lib/a.dhr"
    ∧ ∀ mode, ∃ word, (command someJar mode "lib/a.dhr").getLast? = some word
      ∧ Path.textFrom (runFolder inSources "lib/a.dhr") word
        = Text.ofString "/w/src/lib/lib/a.dhr" := by
  refine ⟨isPlace_inSources, by decide, fun mode => ?_⟩
  exact ⟨_, getLast?_command someJar mode _, by decide⟩

end Invocation

end DhrWorkbench
