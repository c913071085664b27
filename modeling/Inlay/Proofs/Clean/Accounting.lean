import Inlay.Proofs.Clean.Removing
import Inlay.Proofs.Command.Counters
import Inlay.Proofs.Text.Ordering
import Inlay.Proofs.Volume.Lacking
import Inlay.Proofs.Walk.Spending
import Mathlib

/-!
# Every removal is accounted for

Cleaning goes on after a file that it cannot remove. Each selected file has one outcome, which says
whether it could be removed from what the others had left (`Told`), and what is gone in the end are
the files whose outcomes say so (`removals_accounted_for`).
-/

namespace Inlay.Clean

open Inlay.Action

variable {source target : Text}

/-! ### One removal -/

/-- Why a file cannot be removed from a volume, if it cannot: a planned failure comes first. -/
def refusal? (plan : List PlannedFault) (v : Volume) (file : Path) : Option OsError :=
  match (planned .remove file plan).1 with
  | some e => some (.of e file)
  | none => match v.remove file with
    | .ok _ => none
    | .error e => some (.of e file)

/-- The outcome of a file that is removed, or of one that cannot be. -/
def outcomeOf [Alphabet] (source target : Text) (file : Path) (refusal : Option OsError) :
    Outcome :=
  match refusal with
  | none => .deleted (sourceOf source target file) file
  | some e => .failed (sourceOf source target file) file e.message

def asksRemoval (file : Path) (op : FileOp) (path : Path) : Prop :=
  op = .remove ∧ path = file

variable [Host]

theorem exists_runOn_removeOutput {file : Path} (hu : Path.IsUsable file) (s : Workspace) :
    ∃ t, Spends (asksRemoval file) s.faults t.faults ∧
      match refusal? s.faults s.volume file with
      | none => (removeOutput file).runOn s = (.ok (), t) ∧ s.volume.remove file = .ok t.volume
      | some e => (removeOutput file).runOn s = (.error (.os e), t) ∧ t.volume = s.volume := by
  have hspends : Spends (asksRemoval file) s.faults (planned .remove file s.faults).2 :=
    spends_planned .remove file s.faults
  have hguard := runOn_guard .remove file s
  unfold removeOutput removeFile refusal?
  cases hplan : (planned .remove file s.faults).1 with
  | some e =>
    rw [hplan] at hguard
    exact ⟨_, hspends, runOn_bind_of_error hguard, rfl⟩
  | none =>
    rw [hplan] at hguard
    rw [runOn_bind_of_ok hguard, runOn_onVolume hu]
    cases hremove : s.volume.remove file with
    | ok v => exact ⟨_, hspends, rfl, rfl⟩
    | error e => exact ⟨_, hspends, rfl, rfl⟩

/-- A file is removed or left where it is, and its outcome says which. -/
theorem exists_runOn_cleanFile (source target : Text) {file : Path} (hu : Path.IsUsable file)
    (s : Workspace) :
    ∃ t, (cleanFile false source target file).runOn s =
        (.ok (outcomeOf source target file (refusal? s.faults s.volume file)), t) ∧
      Spends (asksRemoval file) s.faults t.faults ∧
      match refusal? s.faults s.volume file with
      | none => s.volume.remove file = .ok t.volume
      | some _ => t.volume = s.volume := by
  obtain ⟨t, hspends, hcases⟩ := exists_runOn_removeOutput hu s
  unfold cleanFile
  simp only [Bool.false_eq_true, if_false]
  cases hr : refusal? s.faults s.volume file with
  | none =>
    rw [hr] at hcases
    rw [runOn_bind_of_ok (by rw [runOn_attempt, hcases.1])]
    simp only
    rw [runOn_bind_of_ok (runOn_log _ _ _ t)]
    refine ⟨_, rfl, by rwa [Workspace.logged_faults], ?_⟩
    rw [Workspace.logged_volume]
    exact hcases.2
  | some e =>
    rw [hr] at hcases
    rw [runOn_bind_of_ok (by rw [runOn_attempt, hcases.1])]
    simp only
    rw [runOn_bind_of_ok (runOn_log _ _ _ t)]
    refine ⟨_, rfl, by rwa [Workspace.logged_faults], ?_⟩
    rw [Workspace.logged_volume]
    exact hcases.2

/-! ### One after the other -/

/-- The files that the outcomes say are gone. -/
def removed (outcomes : List Outcome) : List Path :=
  (outcomes.filter (·.ok)).map (·.output)

omit [Host] in
theorem removed_append (a b : List Outcome) : removed (a ++ b) = removed a ++ removed b := by
  rw [removed, List.filter_append, List.map_append]
  rfl

/-- The outcome of a file after others: it could or could not be removed from what they had left. -/
def Told (source target : Text) (plan : List PlannedFault) (v : Volume) (gone : List Path)
    (o : Outcome) : Prop :=
  ∃ u, v.Lacks u gone ∧
    o = outcomeOf source target o.output (refusal? plan u o.output)

theorem output_outcomeOf (source target : Text) (file : Path) (refusal : Option OsError) :
    (outcomeOf source target file refusal).output = file := by
  cases refusal <;> rfl

omit [Host] in
theorem refusal?_congr {plan plan' : List PlannedFault} {file : Path}
    (h : concerning .remove file plan' = concerning .remove file plan) (v : Volume) :
    refusal? plan' v file = refusal? plan v file := by
  rw [refusal?, refusal?, planned_congr h]

theorem exists_runOn_cleanEach (source target : Text) (plan : List PlannedFault) {v : Volume}
    {files : List Path} (hnodup : files.Nodup) (hu : ∀ file ∈ files, Path.IsUsable file)
    {s : Workspace}
    (hplan : ∀ file ∈ files, concerning .remove file s.faults = concerning .remove file plan)
    {gone : List Path} (h : v.Lacks s.volume gone) :
    ∃ outcomes t, (files.mapM (cleanFile false source target)).runOn s = (.ok outcomes, t) ∧
      outcomes.map (·.output) = files ∧
      (∀ before o after, outcomes = before ++ o :: after →
        Told source target plan v (gone ++ removed before) o) ∧
      v.Lacks t.volume (gone ++ removed outcomes) := by
  induction files generalizing s gone with
  | nil => exact ⟨[], s, rfl, rfl, by simp, by simpa [removed] using h⟩
  | cons file files ih =>
    obtain ⟨hnot, hrest⟩ := List.nodup_cons.1 hnodup
    obtain ⟨hfile, hfiles⟩ := List.forall_mem_cons.1 hu
    obtain ⟨t, hrun, hspends, hvolume⟩ := exists_runOn_cleanFile source target hfile s
    rw [refusal?_congr (hplan file (List.mem_cons_self ..))] at hrun hvolume
    generalize ho : outcomeOf source target file (refusal? plan s.volume file) = o at hrun
    have hout : o.output = file := by rw [← ho, output_outcomeOf]
    have hnext : v.Lacks t.volume (gone ++ removed [o]) := by
      rw [← ho]
      cases hr : refusal? plan s.volume file with
      | none =>
        rw [hr] at hvolume
        exact h.remove hvolume
      | some e =>
        rw [hr] at hvolume
        rw [hvolume]
        simpa [removed, outcomeOf, Outcome.failed] using h
    have hlater : ∀ file' ∈ files,
        concerning .remove file' t.faults = concerning .remove file' plan :=
      fun file' hfile' => (hspends .remove file' fun hk => hnot (hk.2 ▸ hfile')).trans
        (hplan file' (List.mem_cons_of_mem _ hfile'))
    obtain ⟨outcomes, u, hmore, houtputs, htold, hend⟩ := ih hrest hfiles (s := t) hlater hnext
    refine ⟨o :: outcomes, u, ?_, by rw [List.map_cons, houtputs, hout], ?_, ?_⟩
    · rw [List.mapM_cons, runOn_bind_of_ok hrun, runOn_bind_of_ok hmore]
      rfl
    · intro before o' after heq
      cases before with
      | nil =>
        obtain ⟨rfl, _⟩ := List.cons.inj heq
        refine ⟨s.volume, by simpa [removed] using h, ?_⟩
        rw [hout, ho]
      | cons first before =>
        obtain ⟨rfl, hafter⟩ := List.cons.inj heq
        have hlater := htold before o' after hafter
        rwa [List.append_assoc, ← removed_append] at hlater
    · rwa [List.append_assoc, ← removed_append] at hend

/-! ### The command -/

/-- What a result says about files of which some could not be removed. -/
structure Accounts (source target : Text) (plan : List PlannedFault) (v w : Volume) (r : Result) :
    Prop where
  told : ∀ before o after, r.outcomes = before ++ o :: after →
    Told source target plan v (removed before) o
  gone : v.Lacks w (removed r.outcomes)
  counters : ∃ deleted errors : Nat, r.summary.get? "deleted" = some (.int deleted) ∧
    r.summary.get? "errors" = some (.int errors) ∧ deleted + errors = r.outcomes.length ∧
    errors = r.outcomes.countP (!·.ok) ∧ (r.ok = true ↔ errors = 0)

theorem countsAs_of_told {plan : List PlannedFault} {v : Volume} {gone : List Path} {o : Outcome}
    (h : Told source target plan v gone o) : Result.CountsAs "deleted" o := by
  obtain ⟨u, _, ho⟩ := h
  rw [ho]
  cases refusal? plan u o.output <;> rfl

theorem exists_runOn_cleanFiles_accounts {profile : Profile} (hprofile : profile.Checked)
    (hs : profile.sourceExtension = some source) (ht : profile.targetExtension = some target)
    (hsave : profile.saveErrorLog = some false) {request : Request}
    (hdry : request.dryRun = false) {files : List Path} (hnodup : files.Nodup)
    (hu : ∀ file ∈ files, Path.IsUsable file) {s : Workspace} (hv : s.volume.Sound)
    (plan : List PlannedFault)
    (hplan : ∀ file, concerning .remove file s.faults = concerning .remove file plan) :
    ∃ r t, (cleanFiles request profile files).runOn s = (.ok r, t) ∧
      r.outcomes.map (·.output) = selectGenerated source target files ∧
      Accounts source target plan s.volume t.volume r := by
  have hselected : (selectGenerated source target files).Nodup :=
    (List.mergeSort_perm _ _).nodup_iff.2 (hnodup.filter _)
  obtain ⟨outcomes, t, hrun, houtputs, htold, hgone⟩ := exists_runOn_cleanEach source target plan
    hselected (fun file hfile => hu file ((mem_selectGenerated ..).1 hfile).1)
    (fun file _ => hplan file) hv.lacks
  rw [← hdry] at hrun
  obtain ⟨u, hfiles, hu⟩ := exists_runOn_cleanFiles_of_report hs ht hrun
    (Report.runOn_writeIfAsked hprofile outcomes (Or.inl hsave) request.input t)
  refine ⟨_, u, hfiles, houtputs, htold, by rw [hu]; exact hgone, ?_⟩
  have hcounts : ∀ o ∈ outcomes, Result.CountsAs "deleted" o := by
    intro o ho
    obtain ⟨before, after, hsplit⟩ := List.append_of_mem ho
    exact countsAs_of_told (htold before o after hsplit)
  refine ⟨_, _, rfl, rfl, Result.count_add_errors (by decide) hcounts,
    Result.count_errors (by decide) hcounts, ?_⟩
  exact beq_iff_eq.trans Int.natCast_eq_zero

theorem runOn_cleanPath_of_walked {profile : Profile} {request : Request} {s u : Workspace}
    {files : List Path} (hfolder : s.volume.isFolder request.input = true)
    (hwalk : (Compile.walkFiles profile request.input).runOn (s.logged ⟨Level.info, logger,
      s!"Cleaning generated files under: {str request.input}"⟩) = (.ok files, u)) :
    (cleanPath request profile).runOn s = (cleanFiles request profile files).runOn u := by
  unfold cleanPath
  rw [runOn_bind_of_ok (runOn_get s)]
  simp only [hfolder, Bool.not_true, Bool.false_eq_true, if_false]
  rw [runOn_bind_of_ok (runOn_log _ _ _ s), runOn_bind_of_ok (by rw [runOn_attempt, hwalk])]

/-- Cleaning has one outcome for each file of the walk that has the target extension and a source in
the walk, in order, whatever could not be removed before it. The outcomes say what could be removed
and what not, and exactly the files that could be are gone. -/
theorem removals_accounted_for {mode : CheckMode} {given : Value} {table : Table}
    {findings : List Finding} (hcheck : checkSettings mode given = .ok (table, findings))
    (hs : (Profile.ofTable table).sourceExtension = some source)
    (ht : (Profile.ofTable table).targetExtension = some target)
    (hsave : (Profile.ofTable table).saveErrorLog = some false) {request : Request}
    (hdry : request.dryRun = false) {s w : Workspace} (hv : s.volume.Sound) {files : List Path}
    (hwalk : (Compile.walkFiles (Profile.ofTable table) request.input).runOn s = (.ok files, w)) :
    ∃ r t, (cleanPath request (Profile.ofTable table)).runOn s = (.ok r, t) ∧
      (r.outcomes.map (·.output)).Pairwise (· < ·) ∧
      (∀ file, file ∈ r.outcomes.map (·.output) ↔
        file ∈ files ∧ target <:+ file ∧ sourceOf source target file ∈ files) ∧
      Accounts source target s.faults s.volume t.volume r := by
  have hprofile := checked_of_checkSettings hcheck
  have hwalked := Walk.repeats_of_walkFiles hprofile hv hwalk
  obtain ⟨u, hrun, hu, hspends⟩ := hwalked.again (s.logged ⟨Level.info, logger,
    s!"Cleaning generated files under: {str request.input}"⟩) (s.logged_volume _)
    (s.logged_faults _)
  obtain ⟨r, t, hclean, houtputs, haccounts⟩ := exists_runOn_cleanFiles_accounts hprofile hs ht
    hsave hdry hwalked.nodup hwalked.usable (hu ▸ hv) s.faults
    fun file => hspends .remove file fun hk => by simp [Walk.asks] at hk
  rw [hu] at haccounts
  refine ⟨r, t, (runOn_cleanPath_of_walked hwalked.isFolder hrun).trans hclean, ?_, ?_, haccounts⟩
  · rw [houtputs]
    exact Text.pairwise_sorted_of_nodup (hwalked.nodup.filter _)
  · intro file
    rw [houtputs, mem_selectGenerated, Path.hasExtension, List.isSuffixOf_iff_suffix]

end Inlay.Clean

namespace Inlay.Clean

open Inlay.Standard

/-- Two generated files, of which the first cannot be removed, and one without a source. -/
def stubborn : Workspace :=
  { Workspace.holding
      [(["r".toList], .folder), (["r".toList, "b.tea".toList], .file []),
        (["r".toList, "b.php".toList], .file []), (["r".toList, "a.tea".toList], .file []),
        (["r".toList, "a.php".toList], .file []), (["r".toList, "c.php".toList], .file [])] with
    faults := [⟨.remove, "r/a.php".toList, .denied, none, 0⟩] }

theorem removals_accounted_for_of_stubborn :
    ∃ r t, (cleanPath ⟨"clean", "r".toList, none, false⟩ (Profile.ofTable
        (Setting.defaults.set Setting.saveErrorLog (.bool false)))).runOn stubborn = (.ok r, t) ∧
      r.outcomes = [.failed "r/a.tea".toList "r/a.php".toList
          "[Errno 13] Permission denied: 'r/a.php'",
        .deleted "r/b.tea".toList "r/b.php".toList] ∧ r.ok = false ∧
      t.volume.get? ["r".toList, "a.php".toList] = some (.file []) ∧
      t.volume.get? ["r".toList, "b.php".toList] = none := by
  have hcheck : checkSettings .lenient (.table [(Setting.saveErrorLog, .bool false)]) =
      .ok (Setting.defaults.set Setting.saveErrorLog (.bool false), []) := rfl
  have hwalk : (Compile.walkFiles (Profile.ofTable
      (Setting.defaults.set Setting.saveErrorLog (.bool false))) "r".toList).runOn stubborn =
        (.ok ["r/b.tea".toList, "r/b.php".toList, "r/a.tea".toList, "r/a.php".toList,
          "r/c.php".toList], stubborn) := by cbv
  have hreal : (Request.mk "clean" "r".toList none false).dryRun = false := rfl
  obtain ⟨r, t, hrun, hsorted, hmem, htold, hgone, hcounters⟩ :=
    removals_accounted_for hcheck rfl rfl rfl hreal (by decide) hwalk
  have houtputs : r.outcomes.map (·.output) = ["r/a.php".toList, "r/b.php".toList] := by
    have hperm : (r.outcomes.map (·.output)).Perm ["r/a.php".toList, "r/b.php".toList] := by
      refine (List.perm_ext_iff_of_nodup (hsorted.imp ne_of_lt) (by decide)).2 fun file => ?_
      rw [hmem]
      constructor
      · rintro ⟨hfile, htarget, hsource⟩
        simp only [List.mem_cons, List.not_mem_nil, or_false] at hfile
        rcases hfile with rfl | rfl | rfl | rfl | rfl <;> revert htarget hsource <;> decide
      · intro hfile
        simp only [List.mem_cons, List.not_mem_nil, or_false] at hfile
        rcases hfile with rfl | rfl <;> decide
    exact hperm.eq_of_pairwise (fun _ _ _ _ hab hba => absurd hab hba.asymm) hsorted (by decide)
  obtain ⟨first, rest, houtcomes, hfirst, hrest⟩ := List.map_eq_cons_iff.1 houtputs
  obtain ⟨second, rfl, hsecond⟩ := List.map_eq_singleton_iff.1 hrest
  obtain ⟨_, _, hfailed⟩ := htold [] first [second] houtcomes
  have hrefused : ∀ u, refusal? stubborn.faults u "r/a.php".toList =
      some (.of .denied "r/a.php".toList) := fun _ => rfl
  rw [hfirst, hrefused] at hfailed
  obtain rfl : first = .failed "r/a.tea".toList "r/a.php".toList
      "[Errno 13] Permission denied: 'r/a.php'" := hfailed.trans (by decide +kernel)
  -- The first file is still there, so the second one is removed from all that there was.
  obtain ⟨u, hu, hdeleted⟩ := htold [_] second [] houtcomes
  have hdenotes : stubborn.volume.Denotes "r/b.php".toList ["r".toList, "b.php".toList] := by cbv
  have hremoved : refusal? stubborn.faults u "r/b.php".toList = none := by
    rw [refusal?, hu.remove_of_nil hdenotes rfl (by decide) (by decide)]
    rfl
  rw [hsecond, hremoved] at hdeleted
  obtain rfl : second = .deleted "r/b.tea".toList "r/b.php".toList := hdeleted.trans (by decide)
  obtain ⟨_, errors, _, _, _, herrors, hok⟩ := hcounters
  rw [houtcomes] at hgone herrors
  refine ⟨r, t, hrun, houtcomes, ?_, ?_, ?_⟩
  · rw [Bool.eq_false_iff, Ne, hok, herrors]
    decide
  · refine (hgone.kept _ fun path hpath hd => ?_).trans rfl
    obtain rfl := List.mem_singleton.1 hpath
    exact absurd (hd.unique hdenotes) (by decide)
  · obtain ⟨place, _, hd, _, _, hnone⟩ := hgone.gone "r/b.php".toList (by decide)
    rwa [hd.unique hdenotes] at hnone

end Inlay.Clean
