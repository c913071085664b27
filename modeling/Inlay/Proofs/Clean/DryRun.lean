import Inlay.Proofs.Clean.Accounting
import Inlay.Proofs.Command.Reporting

/-!
# Cleaning that is only tried

A dry run goes through the files that a real run goes through and touches none of them, so it has no
failures and writes no report (`exists_runOn_cleanFiles_dry`). The real run has an outcome for each
of them, whatever it cannot remove, unless it ends at its report (`dry_run_foretells`): a report
that cannot be put into words, or under its name, is a failure of the command
(`exists_lost_outcomes`).
-/

namespace Inlay.Clean

variable [Host]

open Inlay.Action

variable {source target : Text}

/-! ### The dry run -/

/-- What a dry run says about a file. -/
def spared (source target : Text) (file : Path) : Outcome :=
  .skipped (sourceOf source target file) file

theorem exists_runOn_cleanEach_dry (source target : Text) (files : List Path) (s : Workspace) :
    ∃ t, (files.mapM (cleanFile true source target)).runOn s =
        (.ok (files.map (spared source target)), t) ∧ t.volume = s.volume := by
  induction files generalizing s with
  | nil => exact ⟨s, rfl, rfl⟩
  | cons file files ih =>
    have hfile : (cleanFile true source target file).runOn s =
        (.ok (spared source target file),
          s.logged ⟨Level.info, logger, s!"Would delete: {str file}"⟩) := rfl
    obtain ⟨t, hrun, hv⟩ := ih (s.logged ⟨Level.info, logger, s!"Would delete: {str file}"⟩)
    rw [List.mapM_cons, runOn_bind_of_ok hfile, runOn_bind_of_ok hrun]
    exact ⟨t, rfl, hv.trans (s.logged_volume _)⟩

section
variable {profile : Profile} (hprofile : profile.Checked)
  (hs : profile.sourceExtension = some source) (ht : profile.targetExtension = some target)
  {request : Request}
include hprofile hs ht

theorem exists_runOn_cleanFiles_dry (hdry : request.dryRun = true) (files : List Path)
    (s : Workspace) :
    ∃ r t, (cleanFiles request profile files).runOn s = (.ok r, t) ∧ t.volume = s.volume ∧
      r.outcomes = (selectGenerated source target files).map (spared source target) := by
  obtain ⟨t, hrun, hv⟩ :=
    exists_runOn_cleanEach_dry source target (selectGenerated source target files) s
  rw [← hdry] at hrun
  have hfine : ∀ o ∈ (selectGenerated source target files).map (spared source target),
      o.ok = true := by simp [spared, Outcome.skipped]
  obtain ⟨r, u, hfiles, hout, hu⟩ := exists_runOn_cleanFiles hprofile hs ht hrun hfine
  exact ⟨r, u, hfiles, hu.trans hv, hout⟩

/-! ### The real run -/

/-- A command ends at the report of its failures: it is asked for, and it cannot be put into words
or under its name. -/
def Silenced (profile : Profile) (folder : Path) (outcomes : List Outcome) (f : Failure) : Prop :=
  profile.saveErrorLog = some true ∧ (∃ o ∈ outcomes, o.ok = false) ∧
    ∃ name, profile.errorLogName = some name ∧ Report.Unsaid (Path.join folder name) outcomes f

/-- Each selected file has been removed or not, and then the report has been written or not. Only
that may leave the command without a result. -/
theorem exists_runOn_cleanFiles_stages (hreal : request.dryRun = false) {files : List Path}
    (hnodup : files.Nodup) (husable : ∀ file ∈ files, Path.IsUsable file) {s : Workspace}
    (hv : s.volume.Sound) :
    ∃ outcomes t result u, (cleanFiles request profile files).runOn s = (result, u) ∧
      outcomes.map (·.output) = selectGenerated source target files ∧
      (∀ before o after, outcomes = before ++ o :: after →
        Told source target s.faults s.volume (removed before) o) ∧
      s.volume.Lacks t (removed outcomes) ∧ t.Retains u.volume ∧
      ((∀ o ∈ outcomes, o.ok = true) → u.volume = t) ∧
      ((∃ r, result = .ok r ∧ r.outcomes = outcomes) ∨
        ∃ f, result = .error f ∧ Silenced profile request.input outcomes f) := by
  have hselected : (selectGenerated source target files).Nodup :=
    (List.mergeSort_perm _ _).nodup_iff.2 (hnodup.filter _)
  obtain ⟨outcomes, t, hrun, houtputs, htold, hgone⟩ := exists_runOn_cleanEach source target
    s.faults hselected (fun file hfile => husable file ((mem_selectGenerated ..).1 hfile).1)
    (fun _ _ => rfl) hv.lacks
  rw [← hreal] at hrun
  obtain ⟨report, u, hreport, hretains, hquiet, hends⟩ :=
    Report.exists_runOn_writeIfAsked hprofile request.input outcomes hgone.sound
  cases report with
  | ok path =>
    obtain ⟨w, hfiles, hw⟩ := exists_runOn_cleanFiles_of_report hs ht hrun hreport
    exact ⟨outcomes, t.volume, _, w, hfiles, houtputs, htold, hgone, hw ▸ hretains,
      fun hok => by rw [hw, (hquiet hok).2], Or.inl ⟨_, rfl, rfl⟩⟩
  | error f =>
    have hfiles : (cleanFiles request profile files).runOn s = (.error f, u) := by
      unfold cleanFiles
      rw [runOn_bind_of_ok (runOn_need_some hs s), runOn_bind_of_ok (runOn_need_some ht s),
        runOn_bind_of_ok hrun, runOn_bind_of_error hreport]
    have hfailed : ∃ o ∈ outcomes, o.ok = false := by
      by_contra hnone
      have hok : ∀ o ∈ outcomes, o.ok = true := fun o ho => by
        by_contra hnot
        exact hnone ⟨o, ho, by simpa using hnot⟩
      simpa using (hquiet hok).1
    obtain ⟨hsave, hname⟩ := hends f rfl
    exact ⟨outcomes, t.volume, _, u, hfiles, houtputs, htold, hgone, hretains,
      fun hok => by rw [(hquiet hok).2], Or.inr ⟨f, rfl, hsave, hfailed, hname⟩⟩

theorem exists_runOn_cleanFiles_real (hreal : request.dryRun = false) {files : List Path}
    (hnodup : files.Nodup) (husable : ∀ file ∈ files, Path.IsUsable file) {s : Workspace}
    (hv : s.volume.Sound) :
    ∃ outcomes result t, (cleanFiles request profile files).runOn s = (result, t) ∧
      outcomes.map (fun o => (o.source, o.output)) =
        (selectGenerated source target files).map
          (fun file => (sourceOf source target file, file)) ∧
      (∀ place, s.volume.get? place ≠ none → t.volume.get? place = none →
        ∃ o ∈ outcomes, s.volume.Denotes o.output place) ∧
      ((∃ r, result = .ok r ∧ r.outcomes = outcomes) ∨
        ∃ f, result = .error f ∧ Silenced profile request.input outcomes f) := by
  obtain ⟨outcomes, w, result, t, hrun, houtputs, htold, hgone, hretains, _, hend⟩ :=
    exists_runOn_cleanFiles_stages hprofile hs ht hreal hnodup husable hv
  refine ⟨outcomes, result, t, hrun, ?_, fun place hbefore hafter => ?_, hend⟩
  · rw [← houtputs, List.map_map]
    refine List.map_congr_left fun o ho => ?_
    obtain ⟨before, after, hsplit⟩ := List.append_of_mem ho
    obtain ⟨_, _, htell⟩ := htold before o after hsplit
    rw [Function.comp_apply, htell]
    cases refusal? s.faults _ o.output <;> rfl
  · -- The report takes nothing away, so the entry has been removed by its path.
    have hnone : w.get? place = none := by
      by_contra hstays
      exact hretains place hstays hafter
    by_contra hothers
    refine hbefore ((hgone.kept place fun path hpath hd => hothers ?_).symm.trans hnone)
    obtain ⟨o, ho, rfl⟩ := List.mem_map.1 hpath
    exact ⟨o, List.mem_of_mem_filter ho, hd⟩

end

/-! ### The command -/

theorem keeps_cleanPath_dry {profile : Profile} (hprofile : profile.Checked) {request : Request}
    (hdry : request.dryRun = true) : Keeps (cleanPath request profile) := by
  obtain ⟨source, target, hs, ht, _⟩ := hprofile.extensions
  have hfiles (files : List Path) : Keeps (cleanFiles request profile files) := by
    intro s
    obtain ⟨r, t, hrun, hv, _⟩ :=
      exists_runOn_cleanFiles_dry hprofile hs ht hdry files s
    rw [hrun]
    exact hv
  unfold cleanPath
  refine keeps_bind keeps_get fun s => ?_
  simp only
  split
  · exact keeps_throw _
  · refine keeps_bind (keeps_log _ _ _) fun _ =>
      keeps_bind (keeps_attempt (Walk.keeps_walkFiles _ _)) fun result => ?_
    split
    · exact keeps_bind (keeps_log _ _ _) fun _ => keeps_pure _
    · exact keeps_throw _
    · exact hfiles _

theorem exists_runOn_cleanPath_of_fresh {profile : Profile} (hprofile : profile.Checked)
    (request : Request) {s t w : Workspace} (hv : s.volume.Sound) {files : List Path}
    (hwalk : (Compile.walkFiles profile request.input).runOn s = (.ok files, w))
    (ht : Walk.Fresh s request.input 0 t) :
    ∃ u, (cleanPath request profile).runOn t = (cleanFiles request profile files).runOn u ∧
      u.volume = s.volume := by
  have hfolder := (Walk.repeats_of_walkFiles hprofile hv hwalk).isFolder
  obtain ⟨u, hrun, hu, _⟩ := Walk.exists_runOn_walkFiles_of_fresh hprofile hv hwalk
    (ht.logged ⟨Level.info, logger, s!"Cleaning generated files under: {str request.input}"⟩)
  exact ⟨u, runOn_cleanPath_of_walked (ht.volume ▸ hfolder) hrun, hu⟩

/-- A dry run changes nothing, and it tells what a real run comes to from the same volume if the
same folders can be listed and the same states read, whichever removals fail: the same files, each
with its source, in the same order, among which is whatever is gone in the end. The real run gives
these outcomes, unless it ends at the report of a failure. -/
theorem dry_run_foretells {mode : CheckMode} {given : Value} {table : Table}
    {findings : List Finding} (hcheck : checkSettings mode given = .ok (table, findings))
    (request : Request) {s t : Workspace} (hv : s.volume.Sound) (hvolume : t.volume = s.volume)
    (hfaults : ∀ op path, op = .list ∨ op = .stat →
      concerning op path t.faults = concerning op path s.faults) :
    let dry := (cleanPath { request with dryRun := true } (Profile.ofTable table)).runOn s
    let real := (cleanPath { request with dryRun := false } (Profile.ofTable table)).runOn t
    dry.2.volume = s.volume ∧
      ∀ files w, (Compile.walkFiles (Profile.ofTable table) request.input).runOn s =
          (.ok files, w) →
        ∃ told outcomes, dry.1 = .ok told ∧
          told.outcomes.map (fun o => (o.source, o.output)) =
            outcomes.map (fun o => (o.source, o.output)) ∧
          (∀ place, s.volume.get? place ≠ none → real.2.volume.get? place = none →
            ∃ o ∈ told.outcomes, s.volume.Denotes o.output place) ∧
          ((∃ found, real.1 = .ok found ∧ found.outcomes = outcomes) ∨
            ∃ f, real.1 = .error f ∧
              Silenced (Profile.ofTable table) request.input outcomes f) := by
  intro dry real
  have hprofile := checked_of_checkSettings hcheck
  obtain ⟨source, target, hs, ht, _⟩ := hprofile.extensions
  refine ⟨keeps_cleanPath_dry hprofile rfl s, fun files w hwalk => ?_⟩
  have hwalked := Walk.repeats_of_walkFiles hprofile hv hwalk
  -- Both runs come to the same files, on workspaces with the same volume.
  obtain ⟨u, hdry, _⟩ := exists_runOn_cleanPath_of_fresh hprofile { request with dryRun := true }
    hv hwalk (Walk.Fresh.of_eq rfl rfl 0)
  obtain ⟨x, hreal, hx⟩ := exists_runOn_cleanPath_of_fresh hprofile { request with dryRun := false }
    hv hwalk (Walk.Fresh.of_asks hvolume hfaults request.input 0)
  have htried : ({ request with dryRun := true } : Request).dryRun = true := rfl
  have hmeant : ({ request with dryRun := false } : Request).dryRun = false := rfl
  obtain ⟨told, u', hdryFiles, _, htold⟩ :=
    exists_runOn_cleanFiles_dry hprofile hs ht htried files u
  obtain ⟨outcomes, result, x', hrealFiles, houtcomes, hgone, hend⟩ :=
    exists_runOn_cleanFiles_real hprofile hs ht hmeant hwalked.nodup hwalked.usable (hx ▸ hv)
  have hdryRun : dry = (.ok told, u') := hdry.trans hdryFiles
  have hrealRun : real = (result, x') := hreal.trans hrealFiles
  have hpairs : told.outcomes.map (fun o => (o.source, o.output)) =
      outcomes.map (fun o => (o.source, o.output)) := by
    rw [houtcomes, htold, List.map_map]
    rfl
  rw [hdryRun, hrealRun]
  refine ⟨told, outcomes, rfl, hpairs, fun place hbefore hafter => ?_, hend⟩
  rw [← hx] at hbefore ⊢
  obtain ⟨o, ho, hdenotes⟩ := hgone place hbefore hafter
  have hmem : (o.source, o.output) ∈ told.outcomes.map fun o => (o.source, o.output) := by
    rw [hpairs]
    exact List.mem_map_of_mem ho
  obtain ⟨o', ho', heq⟩ := List.mem_map.1 hmem
  exact ⟨o', ho', (Prod.mk.inj heq).2 ▸ hdenotes⟩

end Inlay.Clean

namespace Inlay.Clean

open Inlay.Standard Inlay.Action

/-- The files that a walk of `stubborn` returns. -/
def stubbornFiles : List Path :=
  ["r/b.tea".toList, "r/b.php".toList, "r/a.tea".toList, "r/a.php".toList, "r/c.php".toList]

/-- Without a report a real run has an outcome for a file that it cannot remove, of which the dry
run has no notion. -/
theorem dry_run_foretells_of_stubborn :
    let profile := Profile.ofTable Setting.defaults
    let dry := (cleanPath ⟨"clean", "r".toList, none, true⟩ profile).runOn stubborn
    let real := (cleanPath ⟨"clean", "r".toList, none, false⟩ profile).runOn stubborn
    dry.2.volume = stubborn.volume ∧ ∃ told found, dry.1 = .ok told ∧ real.1 = .ok found ∧
      told.outcomes.map (fun o => (o.source, o.output)) =
        found.outcomes.map (fun o => (o.source, o.output)) := by
  have hcheck : checkSettings .lenient (.table []) = .ok (Setting.defaults, []) := rfl
  have hwalk : (Compile.walkFiles (Profile.ofTable Setting.defaults) "r".toList).runOn stubborn =
      (.ok stubbornFiles, stubborn) := by cbv
  obtain ⟨hkept, hall⟩ := dry_run_foretells hcheck ⟨"clean", "r".toList, none, false⟩
    (show stubborn.volume.Sound by decide) rfl fun _ _ _ => rfl
  obtain ⟨told, outcomes, htold, hpairs, _, ⟨found, hfound, rfl⟩ | ⟨f, _, hsave, _⟩⟩ :=
    hall _ _ hwalk
  · exact ⟨hkept, told, found, htold, hfound, hpairs⟩
  · exact absurd hsave (by decide)

/-- Settings that ask for a report under a name that no file can have. -/
def misnamed : Table :=
  (Setting.defaults.set Setting.saveErrorLog (.bool true)).set Setting.errorLogName
    (.text "e\x00".toList)

set_option maxRecDepth 8000 in
/-- Settings that a check accepts as they are, under which a file that cannot be removed ends the
command at its report. -/
theorem exists_lost_outcomes :
    ∃ (told : Result) (s t : Workspace),
      checkSettings .strict (.table [(Setting.saveErrorLog, .bool true),
        (Setting.errorLogName, .text "e\x00".toList)]) = .ok (misnamed, []) ∧
      (Compile.walkFiles (Profile.ofTable misnamed) "r".toList).runOn stubborn =
        (.ok stubbornFiles, stubborn) ∧
      (cleanPath ⟨"clean", "r".toList, none, true⟩ (Profile.ofTable misnamed)).runOn stubborn =
        (.ok told, s) ∧
      told.outcomes ≠ [] ∧
      (cleanPath ⟨"clean", "r".toList, none, false⟩ (Profile.ofTable misnamed)).runOn stubborn =
        (.error (.noPath .zero), t) := by
  have hcheck : checkSettings .strict (.table [(Setting.saveErrorLog, .bool true),
      (Setting.errorLogName, .text "e\x00".toList)]) = .ok (misnamed, []) := rfl
  have hprofile := checked_of_checkSettings hcheck
  have hwalk : (Compile.walkFiles (Profile.ofTable misnamed) "r".toList).runOn stubborn =
      (.ok stubbornFiles, stubborn) := by cbv
  obtain ⟨u, hdry, _⟩ := exists_runOn_cleanPath_of_fresh hprofile
    ⟨"clean", "r".toList, none, true⟩ (show stubborn.volume.Sound by decide) hwalk
    (Walk.Fresh.of_eq rfl rfl 0)
  obtain ⟨told, s, hfiles, _, htold⟩ := exists_runOn_cleanFiles_dry hprofile rfl rfl
    (show (Request.mk "clean" "r".toList none true).dryRun = true from rfl) stubbornFiles u
  refine ⟨told, s, _, hcheck, hwalk, hdry.trans hfiles, ?_, Prod.ext (by cbv) rfl⟩
  have hselected : selectGenerated ".tea".toList ".php".toList stubbornFiles =
      ["r/a.php".toList, "r/b.php".toList] := by cbv
  rw [htold, ← List.length_pos_iff, List.length_map]
  exact hselected ▸ Nat.zero_lt_two

end Inlay.Clean
