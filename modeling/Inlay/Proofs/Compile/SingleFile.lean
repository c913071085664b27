import Inlay.Proofs.Command.Reporting
import Inlay.Proofs.Command.Verdict
import Inlay.Proofs.Path.Swapping
import Inlay.Proofs.Volume.Contents

/-!
# Compiling a single file

A single file may have any name, and without an output folder its output is the path with the target
extension. That path is the file itself if the file has the target extension already, which is then
overwritten (`exists_overwritten_input`). What else a compilation writes is its report, so that the
file keeps its content unless it is named by one of the two (`input_kept_unless_named`).
-/

namespace Inlay

open Inlay.Action

namespace Compile

variable [Host]

theorem runOn_compileWith_of_file {request : Request} {profile : Profile} {compiler : Compiler}
    {s : Workspace} (hfile : s.volume.isFile request.input = true) :
    (compileWith request profile compiler).runOn s =
      (compileSingle request profile compiler).runOn s := by
  unfold compileWith
  rw [runOn_bind_of_ok (runOn_get s), if_pos hfile]

/-! ### What a compilation writes -/

section
variable {R : Volume → Volume → Prop} (hr : ∀ v, R v v) (ht : ∀ u v w, R u v → R v w → R u w)
  (hmake : ∀ v w path, Path.IsUsable path → v.makeFolder path = .ok w → R v w) {job : Job}
  (h : ∀ v w content, Path.IsUsable job.output → v.write job.output content = .ok w → R v w)
include hr ht hmake h

theorem moves_compileFile (compiler : Compiler) (profile : Profile) :
    Moves R (compileFile compiler profile job) := by
  unfold compileFile
  refine moves_bind ht ((keeps_need _ _).moves hr) fun encoding =>
    moves_bind ht ((keeps_readSource _ _).moves hr) fun source => ?_
  split
  · exact (keeps_throw _).moves hr
  · refine moves_bind ht (moves_ensureParent hr ht hmake _) fun _ =>
      moves_bind ht ?_ fun _ => (keeps_log _ _ _).moves hr
    unfold writeOutput
    exact moves_bind ht ((keeps_guard _ _).moves hr) fun _ => moves_writeText hr ht h _ _

theorem moves_toOutcome (compiler : Compiler) (profile : Profile) :
    Moves R (toOutcome compiler profile job) := by
  unfold toOutcome
  refine moves_bind ht (moves_attempt (moves_compileFile hr ht hmake h compiler profile))
    fun result => ?_
  cases result with
  | ok _ => exact (keeps_pure _).moves hr
  | error f =>
    dsimp only
    split
    · exact (keeps_bind (keeps_log _ _ _) fun _ => keeps_pure _).moves hr
    · exact (keeps_throw _).moves hr

end

/-! ### One file and its report -/

/-- What a single file ends with: its report, and its result. -/
def finishSingle (request : Request) (profile : Profile) (output : Path) (outcome : Outcome) :
    Action Result := do
  let folder := Path.folder (← Action.absolute output)
  let _ ← Report.writeIfAsked profile folder [outcome]
  pure (.ofBatch request output [outcome] [])

section
variable {request : Request} {profile : Profile} {source target : Text}
  (hs : profile.sourceExtension = some source) (ht : profile.targetExtension = some target)
include hs ht

theorem runOn_compileSingle (compiler : Compiler) (s : Workspace) :
    (compileSingle request profile compiler).runOn s =
      let output := singleOutput s.volume request.input request.output target source
      (toOutcome compiler profile ⟨request.input, output⟩ >>=
        finishSingle request profile output).runOn
          (s.logged ⟨Level.info, logger, s!"Compiling file: {str request.input}"⟩) := by
  unfold compileSingle
  rw [runOn_bind_of_ok (runOn_need_some ht s), runOn_bind_of_ok (runOn_need_some hs s),
    runOn_bind_of_ok (runOn_get s), runOn_bind_of_ok (runOn_log _ _ _ s)]
  rfl

end

/-- The output of a single file and the report beside it. -/
def writtenPaths (profile : Profile) (v : Volume) (output : Path) : List Path :=
  output :: if profile.saveErrorLog = some true then
    (profile.errorLogName.map (Path.join (Path.folder (v.absolute output)))).toList else []

theorem writing_finishSingle (request : Request) (profile : Profile) {v : Volume}
    (output : Path) (outcome : Outcome) {s : Workspace} (h : s.volume.current = v.current) :
    Volume.Writing (writtenPaths profile v output) s.volume
      ((finishSingle request profile output outcome).runOn s).2.volume := by
  have habsolute : s.volume.absolute output = v.absolute output := by
    rw [Volume.absolute, Volume.absolute, Volume.currentPath, Volume.currentPath, h]
  have hreport : Moves (Volume.Writing (writtenPaths profile v output))
      (Report.writeIfAsked profile (Path.folder (s.volume.absolute output)) [outcome]) :=
    Report.moves_writeIfAsked_of (Volume.Writing.refl _) Volume.Writing.trans
      (Volume.writing_makeFolder _) (fun hsave name hname _ _ _ hu hw hv => hv.writes_write
        (by simp [writtenPaths, hsave, hname, habsolute]) hu hw) [outcome]
  unfold finishSingle
  rw [runOn_bind]
  cases hfull : (absolute output).runOn s with
  | mk result t =>
    cases result with
    | error e =>
      have hkept := (eq_absolute output).of_runOn hfull
      simp only
      rw [← hkept]
      exact Volume.Writing.refl _ _
    | ok full =>
      obtain ⟨_, rfl, rfl⟩ := of_runOn_absolute hfull
      exact moves_bind Volume.Writing.trans hreport
        (fun _ => (keeps_pure _).moves (Volume.Writing.refl _)) t

/-- An action and what comes after it, which still has the same current folder. -/
theorem writing_bind {α β : Type} {paths : List Path} {a : Action α} {f : α → Action β}
    {s : Workspace} (ha : Moves (Volume.Writing paths) a)
    (hf : ∀ x t, t.volume.current = s.volume.current →
      Volume.Writing paths t.volume ((f x).runOn t).2.volume) :
    Volume.Writing paths s.volume ((a >>= f).runOn s).2.volume := by
  intro hv
  have hfirst := ha s hv
  rw [runOn_bind]
  cases hrun : a.runOn s with
  | mk result t =>
    rw [hrun] at hfirst
    cases result with
    | error e => exact hfirst
    | ok x => exact hfirst.trans (hf x t hfirst.current hfirst.sound)

theorem writing_compileSingle {request : Request} {profile : Profile} {source target : Text}
    (hs : profile.sourceExtension = some source) (ht : profile.targetExtension = some target)
    (compiler : Compiler) (s : Workspace) :
    Volume.Writing (writtenPaths profile s.volume
        (singleOutput s.volume request.input request.output target source)) s.volume
      ((compileSingle request profile compiler).runOn s).2.volume := by
  have hwriting {u : Workspace} (output : Path) (h : u.volume = s.volume) :
      Volume.Writing (writtenPaths profile s.volume output) u.volume
        ((toOutcome compiler profile ⟨request.input, output⟩ >>=
          finishSingle request profile output).runOn u).2.volume := by
    have hmem : output ∈ writtenPaths profile s.volume output := List.mem_cons_self ..
    refine writing_bind (moves_toOutcome (Volume.Writing.refl _) Volume.Writing.trans
      (Volume.writing_makeFolder _) (fun v w content hu hw hv => hv.writes_write hmem hu hw)
      compiler profile) fun outcome t ht => ?_
    rw [h] at ht
    exact writing_finishSingle request profile output outcome ht
  rw [runOn_compileSingle hs ht]
  have hdone := hwriting (singleOutput s.volume request.input request.output target source)
    (s.logged_volume ⟨Level.info, logger, s!"Compiling file: {str request.input}"⟩)
  rwa [Workspace.logged_volume] at hdone

theorem writing_compilePath_of_file {request : Request} {profile : Profile} {source target : Text}
    (hs : profile.sourceExtension = some source) (ht : profile.targetExtension = some target)
    {s : Workspace} (hfile : s.volume.isFile request.input = true) (choice : Option Compiler) :
    Volume.Writing (writtenPaths profile s.volume
        (singleOutput s.volume request.input request.output target source)) s.volume
      ((compilePath request profile choice).runOn s).2.volume := by
  have hchosen := (sameFiles_chosen profile.compiler choice s).volume
  rw [compilePath_eq, runOn_bind]
  cases hrun : (chosen profile.compiler choice).runOn s with
  | mk result u =>
    rw [hrun] at hchosen
    cases result with
    | error f =>
      simp only at hchosen ⊢
      rw [hchosen]
      exact Volume.Writing.refl _ _
    | ok compiler =>
      simp only at hchosen ⊢
      rw [← hchosen] at hfile ⊢
      rw [runOn_compileWith_of_file hfile]
      exact writing_compileSingle hs ht compiler u

omit [Host] in
theorem singleOutput_of_none {request : Request} (h : request.output.filter (!·.isEmpty) = none)
    (v : Volume) (target source : Text) :
    singleOutput v request.input request.output target source =
      Path.swapExtension request.input target source := by
  rw [singleOutput, h]

/-- Another extension makes another file, as long as no link leads from one to the other. -/
theorem not_sameFile_of_ne {source target path : Path} (hs : '/' ∉ source) (ht : '/' ∉ target)
    {v : Volume} (hv : v.Sound) (hfree : v.LinkFree)
    (hne : Path.swapExtension path target source ≠ path) :
    ¬ v.SameFile (Path.swapExtension path target source) path := by
  rintro ⟨place, hswapped, hpath⟩
  have hbase := (hv.getLast?_of_target hfree hswapped).symm.trans
    (hv.getLast?_of_target hfree hpath)
  exact hne (Path.swapExtension_eq_of_base hs ht path (Option.some.inj hbase))

/-- A single file compiled without an output has one that is the file itself exactly if it has the
target extension and not the source extension. Whatever fails, the file has its content afterwards,
unless its output or the report names the same file; without links an output that is spelled
differently never does. -/
theorem input_kept_unless_named {mode : CheckMode} {given : Value} {table : Table}
    {findings : List Finding} (hcheck : checkSettings mode given = .ok (table, findings))
    {request : Request} (hout : request.output.filter (!·.isEmpty) = none) {s : Workspace}
    (hv : s.volume.Sound) (hfile : s.volume.isFile request.input = true)
    (choice : Option Compiler) :
    ∃ source target name, (Profile.ofTable table).sourceExtension = some source ∧
      (Profile.ofTable table).targetExtension = some target ∧
      (Profile.ofTable table).errorLogName = some name ∧
      let output := singleOutput s.volume request.input request.output target source
      let report := Path.join (Path.folder (s.volume.absolute output)) name
      (output = request.input ↔ ¬ source <:+ request.input ∧ target <:+ request.input ∧
        ∀ c ∈ target.tail, c ≠ '.' ∧ Path.isSeparator c = false) ∧
      ∀ result t, (compilePath request (Profile.ofTable table) choice).runOn s = (result, t) →
        (t.volume.read request.input = s.volume.read request.input ∨
          t.volume.SameFile output request.input ∨
          (Profile.ofTable table).saveErrorLog = some true ∧
            t.volume.SameFile report request.input) ∧
        ('/' ∉ source → '/' ∉ target → s.volume.LinkFree → output ≠ request.input →
          ¬ t.volume.SameFile output request.input) := by
  have hc := checked_of_checkSettings hcheck
  obtain ⟨source, target, hs, ht, _, hhead, hne⟩ := hc.extensions
  obtain ⟨name, hname⟩ := hc.errorLogName
  obtain ⟨hsne, _⟩ := hc.extensions_ne_nil hs ht
  refine ⟨source, target, name, hs, ht, hname, ?_⟩
  intro output report
  have houtput : output = Path.swapExtension request.input target source :=
    singleOutput_of_none hout _ _ _
  refine ⟨?_, fun result t hrun => ?_⟩
  · rw [houtput]
    exact Path.swapExtension_eq_self_iff hsne hhead hne
  have hwrites := writing_compilePath_of_file hs ht hfile choice hv
  rw [hrun] at hwrites
  constructor
  · obtain ⟨content, hstat⟩ := Volume.isFile_iff.1 hfile
    have hread := Volume.read_eq_ok_iff.2 hstat
    rw [hread]
    refine (hwrites.read hv hread).imp_right fun ⟨other, hmem, hsame⟩ => ?_
    rcases List.mem_cons.1 hmem with rfl | hmem
    · exact Or.inl hsame
    · split at hmem
      · next hsave =>
        rw [hname, Option.map_some, Option.toList_some, List.mem_singleton] at hmem
        rw [hmem] at hsame
        exact Or.inr ⟨hsave, hsame⟩
      · simp at hmem
  · intro hss hts hfree hother
    rw [houtput] at hother ⊢
    exact not_sameFile_of_ne hss hts hwrites.sound (hwrites.linkFree hfree) hother

end Compile

end Inlay

namespace Inlay.Compile

open Inlay.Standard

def oneTemplate : Workspace :=
  .holding [([['r']], .folder), ([['r'], "page.tpl".toList], .file (Utf8.encode ['x']))]

theorem input_kept_unless_named_of_template :
    ∃ t, (compilePath ⟨"compile", "r/page.tpl".toList, none, false⟩
        (Profile.ofTable Setting.defaults) (some .passthrough)).runOn oneTemplate =
          (.ok (.ofBatch ⟨"compile", "r/page.tpl".toList, none, false⟩ "r/page.php".toList
            [.compiled "r/page.tpl".toList "r/page.php".toList] []), t) ∧
      t.volume.read "r/page.tpl".toList = .ok (Utf8.encode ['x']) := by
  have hcheck : checkSettings .lenient (.table []) = .ok (Setting.defaults, []) := rfl
  have hsound : oneTemplate.volume.Sound := by decide
  have hfile : oneTemplate.volume.isFile
      (Request.mk "compile" "r/page.tpl".toList none false).input = true := by cbv
  obtain ⟨source, target, name, hs, ht, _, hself, hruns⟩ :=
    input_kept_unless_named hcheck rfl hsound hfile (some .passthrough)
  obtain rfl : ".tea".toList = source := Option.some.inj hs
  obtain rfl : ".php".toList = target := Option.some.inj ht
  obtain ⟨t, hrun⟩ : ∃ t, (compilePath ⟨"compile", "r/page.tpl".toList, none, false⟩
      (Profile.ofTable Setting.defaults) (some .passthrough)).runOn oneTemplate =
        (.ok (.ofBatch ⟨"compile", "r/page.tpl".toList, none, false⟩ "r/page.php".toList
            [.compiled "r/page.tpl".toList "r/page.php".toList] []), t) := ⟨_, by cbv⟩
  obtain ⟨hkept, hother⟩ := hruns _ t hrun
  refine ⟨t, hrun, ?_⟩
  have hread : oneTemplate.volume.read "r/page.tpl".toList = .ok (Utf8.encode ['x']) := by cbv
  rcases hkept with hkept | hsame | ⟨hsave, _⟩
  · exact hkept.trans hread
  · have htree : oneTemplate.volume.Tree := by decide
    have hnot : ¬ ".php".toList <:+ "r/page.tpl".toList := by decide
    exact absurd hsame (hother (by decide) (by decide) (fun _ _ => htree.not_link)
      fun h => hnot (hself.1 h).2.1)
  · exact absurd hsave (by decide)

/-- A file with the target extension is its own output, and its fragments are gone. -/
theorem exists_overwritten_input :
    ∃ (table : Table) (findings : List Finding) (request : Request) (s t : Workspace)
      (result : Result),
      checkSettings .lenient (.table []) = .ok (table, findings) ∧
      request.output = none ∧ s.volume.Sound ∧ s.volume.isFile request.input = true ∧
      singleOutput s.volume request.input request.output ".php".toList ".tea".toList =
        request.input ∧
      (compilePath request (Profile.ofTable table) (some .passthrough)).runOn s =
        (.ok result, t) ∧
      s.volume.read request.input = .ok (Utf8.encode "<?tea x ?>".toList) ∧
      t.volume.read request.input = .ok (Utf8.encode "<?php x ?>".toList) := by
  let request : Request := ⟨"compile", "r/page.php".toList, none, false⟩
  let s : Workspace := .holding [([['r']], .folder),
    ([['r'], "page.php".toList], .file (Utf8.encode "<?tea x ?>".toList))]
  obtain ⟨t, hrun, hread⟩ : ∃ t, (compilePath request (Profile.ofTable Setting.defaults)
      (some .passthrough)).runOn s =
        (.ok (.ofBatch request "r/page.php".toList
          [.compiled "r/page.php".toList "r/page.php".toList] []), t) ∧
      t.volume.read "r/page.php".toList = .ok (Utf8.encode "<?php x ?>".toList) :=
    ⟨_, by cbv, by cbv⟩
  exact ⟨Setting.defaults, [], request, s, t, _, rfl, rfl, by decide, by cbv, by decide, hrun,
    by cbv, hread⟩

end Inlay.Compile
