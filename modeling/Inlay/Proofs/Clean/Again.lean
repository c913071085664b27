import Inlay.Proofs.Clean.DryRun
import Inlay.Proofs.Clean.Sources
import Inlay.Proofs.Walk.Remains

/-!
# Cleaning again

A walk of what a clean has left returns no file that the clean did not see, so nothing is selected
that it has not removed (`clean_again`). The exception are links to folders that were taken for
files: with one of them gone, a way that led to a folder may end at a link without a target, which
is taken for a file, too (`exists_second_removal`).
-/

namespace Inlay.Clean

variable [Host]

open Inlay.Action

variable {source target : Text}

/-! ### Two walks -/

section
variable {s t : Workspace} {policy : StatPolicy} {retries : Int} {root : Path}
  {ways ways' : List (List Text)}

/-- Nothing that a first walk has returned and that is gone is selected after a second one. -/
theorem selectGenerated_eq_nil (hs : s.faults = []) (ht : t.faults = []) (hvs : s.volume.Sound)
    (hroot : s.volume.isFolder root = true)
    (hfound : Walk.FoundBelow s policy retries root [[]] ways)
    (hfound' : Walk.FoundBelow t policy retries root [[]] ways')
    (hlacks : s.volume.Lacks t.volume
      (selectGenerated source target (ways.map (Path.descend root))))
    (hfolders : ∀ path, s.volume.isFolder path = true → t.volume.isFolder path = true) :
    selectGenerated source target (ways'.map (Path.descend root)) = [] := by
  have hne : root ≠ [] := by
    rintro rfl
    simp [Volume.isFolder, Volume.stat, Volume.locate] at hroot
  have hbefore : ∀ file ∈ ways'.map (Path.descend root), file ∈ ways.map (Path.descend root) := by
    intro file hfile
    obtain ⟨way, hway, rfl⟩ := List.mem_map.1 hfile
    obtain ⟨hreturned, hbelow⟩ := (hfound'.mem way).1 hway
    exact List.mem_map_of_mem ((hfound.mem way).2
      ⟨hreturned.of_extends hs ht hlacks.extends' hvs hlacks.sound hfolders, hbelow⟩)
  refine List.eq_nil_iff_forall_not_mem.2 fun file hfile => ?_
  obtain ⟨hreturned, hext, horigin⟩ := (mem_selectGenerated ..).1 hfile
  obtain ⟨place, _, hd, _, _, hnone⟩ := hlacks.gone file
    ((mem_selectGenerated ..).2 ⟨hbefore file hreturned, hext, hbefore _ horigin⟩)
  obtain ⟨way, hway, rfl⟩ := List.mem_map.1 hreturned
  exact ((hfound'.mem way).1 hway).1.get?_ne_none hlacks.sound hlacks.extends' hne hd hnone

end

omit [Host] in
/-- Which files are selected does not depend on the order in which they are found. -/
theorem perm_selectGenerated (source target : Text) {files files' : List Path}
    (h : files.Perm files') :
    (selectGenerated source target files).Perm (selectGenerated source target files') := by
  have hsame : isGenerated source target files = isGenerated source target files' :=
    funext fun file => by rw [isGenerated, isGenerated, h.contains_eq]
  unfold selectGenerated
  rw [hsame]
  exact (List.mergeSort_perm _ _).trans ((h.filter _).trans (List.mergeSort_perm _ _).symm)

/-- A file that is alone selected among those that a walk without faults returns. -/
theorem selectGenerated_of_fixed {s : Workspace} (hs : s.faults = []) (hv : s.volume.Sound)
    {policy : StatPolicy} {retries : Int} {root : Path}
    {folders : List (List Text)} (hnodup : folders.Nodup)
    (hfolders : [] :: (Walk.childrenOf s root folders).filter
      (fun way => s.volume.isFolder (Path.descend root way)) = folders)
    {ways : List (List Text)} (h : Walk.FoundBelow s policy retries root [[]] ways) {file : Path}
    (hfile : selectGenerated source target (((Walk.childrenOf s root folders).filter
      fun way => Walk.returns s.volume policy (Path.descend root way)).map (Path.descend root)) =
        [file]) :
    selectGenerated source target (ways.map (Path.descend root)) = [file] := by
  have hperm := perm_selectGenerated source target
    ((h.perm_of_fixed hs hv hnodup hfolders).map (Path.descend root))
  rw [hfile] at hperm
  exact List.perm_singleton.1 hperm

/-! ### Two runs -/

theorem isFolder_of_runOn_cleanPath {profile : Profile} {request : Request} {s t : Workspace}
    {r : Result} (h : (cleanPath request profile).runOn s = (.ok r, t)) :
    s.volume.isFolder request.input = true := by
  unfold cleanPath at h
  rw [runOn_bind_of_ok (runOn_get s)] at h
  cases hfolder : s.volume.isFolder request.input with
  | true => rfl
  | false => simp [hfolder] at h

/-- Without faults a folder is walked, and then what has been found is cleaned. -/
theorem exists_runOn_cleanPath_of_folder {profile : Profile} {policy : StatPolicy} {retries : Int}
    (request : Request) (hwalk : ∀ t, (Compile.walkFiles profile request.input).runOn t =
      (Walk.files policy retries request.input).runOn t) {s : Workspace} (hv : s.volume.Sound)
    (hfaults : s.faults = []) (hfolder : s.volume.isFolder request.input = true) :
    ∃ ways u, Walk.FoundBelow s policy retries request.input [[]] ways ∧
      (∀ file ∈ ways.map (Path.descend request.input), Path.IsUsable file) ∧
      u.volume = s.volume ∧ Spends Walk.asks s.faults u.faults ∧
      (cleanPath request profile).runOn s =
        (cleanFiles request profile (ways.map (Path.descend request.input))).runOn u := by
  obtain ⟨ways, hfound, hfiles⟩ :=
    Walk.exists_foundBelow_of_isFolder hv hfaults hfolder policy retries
  obtain ⟨u, hu, hrun⟩ := hfiles _ ((Walk.Fresh.of_eq rfl rfl 0).logged ⟨Level.info, logger,
    s!"Cleaning generated files under: {str request.input}"⟩)
  have hvolume := s.logged_volume ⟨Level.info, logger,
    s!"Cleaning generated files under: {str request.input}"⟩
  have husable := Walk.isUsable_of_files (hvolume ▸ hv) (hvolume ▸ hfolder) hrun
  have hspends := (Walk.spendsOnly_files policy retries request.input).of_runOn hrun
  rw [s.logged_faults] at hspends
  exact ⟨ways, u, hfound, husable, hu, hspends,
    runOn_cleanPath_of_walked hfolder ((hwalk _).trans hrun)⟩

section
variable {profile : Profile} (hprofile : profile.Checked)
  (hs : profile.sourceExtension = some source) (ht : profile.targetExtension = some target)
include hprofile hs ht

theorem exists_runOn_cleanFiles_of_nothing (request : Request) {files : List Path} (s : Workspace)
    (h : selectGenerated source target files = []) :
    ∃ r t, (cleanFiles request profile files).runOn s = (.ok r, t) ∧ r.outcomes = [] ∧
      r.ok = true ∧ t.volume = s.volume := by
  have hclean : ((selectGenerated source target files).mapM
      (cleanFile request.dryRun source target)).runOn s = (.ok [], s) := by
    rw [h]
    rfl
  obtain ⟨t, hrun, ht⟩ := exists_runOn_cleanFiles_of_report hs ht hclean
    (Report.runOn_writeIfAsked hprofile [] (Or.inr (by simp)) request.input s)
  exact ⟨_, t, hrun, rfl, rfl, ht⟩

end

/-- Without faults, a clean that has removed all that it has selected leaves nothing to clean: the
next one on the same folder finds nothing, succeeds and changes nothing. Entries whose states cannot
be read may be taken for files; then none of the removed ones may be a link to a folder. -/
theorem clean_again {mode : CheckMode} {given : Value} {table : Table} {findings : List Finding}
    (hcheck : checkSettings mode given = .ok (table, findings)) {request : Request}
    (hdry : request.dryRun = false) {s t : Workspace} (hv : s.volume.Sound)
    (hfaults : s.faults = [])
    {r : Result} (hrun : (cleanPath request (Profile.ofTable table)).runOn s = (.ok r, t))
    (hok : ∀ o ∈ r.outcomes, o.ok = true)
    (hassumed : (Profile.ofTable table).statPolicy = some StatPolicy.assumeFile.name.toList →
      s.volume.LinksNoFolder (r.outcomes.map (·.output)))
    (again : Request) {u : Workspace} (hinput : again.input = request.input)
    (hu : u.volume = t.volume) (hufaults : u.faults = []) :
    ∃ r' w, (cleanPath again (Profile.ofTable table)).runOn u = (.ok r', w) ∧
      r'.outcomes = [] ∧ r'.ok = true ∧ w.volume = t.volume := by
  have hprofile := checked_of_checkSettings hcheck
  obtain ⟨source, target, hs, ht, _⟩ := hprofile.extensions
  have hfolder := isFolder_of_runOn_cleanPath hrun
  obtain ⟨policy, retries, hpolicy, hwalk⟩ :=
    Walk.exists_runOn_walkFiles_eq hprofile request.input
  obtain ⟨ways, x, hfound, husable, hx, _, hfirst⟩ :=
    exists_runOn_cleanPath_of_folder request hwalk hv hfaults hfolder
  obtain ⟨outcomes, left, result, t', hclean, houtputs, _, hlacks, _, hquiet, hend⟩ :=
    exists_runOn_cleanFiles_stages hprofile hs ht hdry (hfound.nodup_descend hv) husable (hx ▸ hv)
  obtain ⟨rfl, rfl⟩ := Prod.mk.inj (hclean.symm.trans (hfirst.symm.trans hrun))
  obtain rfl : r.outcomes = outcomes := by
    rcases hend with ⟨r', hr', houtcomes⟩ | ⟨f, hf, _⟩
    · rwa [Except.ok.inj hr']
    · simp at hf
  -- All that was selected has been removed.
  have hall : removed r.outcomes = r.outcomes.map (·.output) := by
    rw [removed, List.filter_eq_self.2 hok]
  rw [hx, hall, houtputs, ← hquiet hok, ← hu] at hlacks
  rw [houtputs, hpolicy] at hassumed
  have hlinks : s.volume.LinksNoFolder
      (selectGenerated source target (ways.map (Path.descend request.input))) := by
    by_cases hskips : policy = .assumeFile
    · exact hassumed (hskips ▸ rfl)
    · intro file hfile folder name hd
      obtain ⟨way, hway, rfl⟩ := List.mem_map.1 ((mem_selectGenerated ..).1 hfile).1
      exact ((hfound.mem way).1 hway).1.not_leadsToFolder hv hskips hd
  have hstay (path : Path) (h : s.volume.isFolder path = true) : u.volume.isFolder path = true :=
    hlacks.isFolder hlinks h
  rw [← hinput] at hwalk hfound hfolder hlacks
  obtain ⟨ways', y, hfound', _, hy, _, hsecond⟩ :=
    exists_runOn_cleanPath_of_folder again hwalk hlacks.sound hufaults (hstay _ hfolder)
  obtain ⟨r', w, hagain, hnone, hfine, hw⟩ := exists_runOn_cleanFiles_of_nothing hprofile hs ht
    again y (selectGenerated_eq_nil hfaults hufaults hv hfolder hfound hfound' hlacks hstay)
  exact ⟨r', w, hsecond.trans hagain, hnone, hfine, hw.trans (hy.trans hu)⟩

end Inlay.Clean

namespace Inlay.Clean

open Inlay.Standard Inlay.Action

/-- A source whose output is named like a source, too. -/
theorem clean_again_of_pair :
    ∃ (table : Table) (r r' : Result) (t w : Workspace),
      checkSettings .strict (.table [(Setting.targetExtension, .text ".min.tea".toList)]) =
        .ok (table, []) ∧
      (cleanPath ⟨"clean", ['r'], none, false⟩ (Profile.ofTable table)).runOn
        (pair "a.tea".toList "a.min.tea".toList) = (.ok r, t) ∧
      t.volume.get? [['r'], "a.min.tea".toList] = none ∧
      (cleanPath ⟨"clean", ['r'], none, true⟩ (Profile.ofTable table)).runOn
        { pair "a.tea".toList "a.min.tea".toList with volume := t.volume } = (.ok r', w) ∧
      r'.outcomes = [] ∧ r'.ok = true := by
  have hcheck : checkSettings .strict
      (.table [(Setting.targetExtension, .text ".min.tea".toList)]) =
      .ok (Setting.defaults.set Setting.targetExtension (.text ".min.tea".toList), []) := rfl
  have hl : (pair "a.tea".toList "a.min.tea".toList).volume.Leads ['r'] [['r']] :=
    ⟨by decide, by cbv⟩
  obtain ⟨r, t, ways, hrun, _, hways, hout, hcleared⟩ := exists_runOn_cleanPath_tree
    (s := pair "a.tea".toList "a.min.tea".toList) (by decide) rfl
    ⟨"clean", ['r'], none, false⟩ hl rfl (checked_of_checkSettings hcheck) rfl rfl rfl
  have hin : ["a.min.tea".toList] ∈ ways :=
    (hways _).2 ⟨⟨[], rfl⟩, by decide, ["a.tea".toList], ⟨[], rfl⟩, by decide⟩
  have hreal : (Request.mk "clean" ['r'] none false).dryRun = false := rfl
  have hok : ∀ o ∈ r.outcomes, o.ok = true := by
    rw [hout]
    intro o ho
    obtain ⟨file, _, rfl⟩ := List.mem_map.1 ho
    rfl
  have hleft : ({ pair "a.tea".toList "a.min.tea".toList with volume := t.volume } :
      Workspace).volume = t.volume := rfl
  obtain ⟨r', w, hsecond, hnone, hfine, _⟩ := clean_again hcheck hreal (by decide) rfl hrun hok
    (fun h => absurd h (by decide)) ⟨"clean", ['r'], none, true⟩ rfl hleft rfl
  exact ⟨_, r, r', t, w, hcheck, hrun, hcleared.gone (List.mem_map.2 ⟨_, hin, rfl⟩), hsecond,
    hnone, hfine⟩

/-! ### A link too far -/

/-- The file `c/l.php` is a link to a folder by way of 38 others. From `r/e` the folder is reached;
from `r/y`, which is a link to a link itself, it is one link too many. -/
def tangle : Workspace :=
  .holding [(["k".toList], .folder), (["k".toList, "d".toList], .folder),
    (["k".toList, "a".toList], .link ".".toList), (["c".toList], .folder),
    (["c".toList, "l.tea".toList], .file []),
    (["c".toList, "l.php".toList],
      .link ("../k/".toList ++ (List.replicate 38 "a/".toList).flatten ++ "d".toList)),
    (["z".toList], .link "c".toList), (["r".toList], .folder),
    (["r".toList, "y".toList], .link "../z".toList), (["r".toList, "e".toList], .folder),
    (["r".toList, "e".toList, "m.tea".toList], .file []),
    (["r".toList, "e".toList, "m.php".toList], .link "../../c/l.php".toList)]

/-- What is left when that link has been removed. -/
def untangled : Workspace :=
  { tangle with volume := tangle.volume.erase ["c".toList, "l.php".toList] }

section
open Walk

variable {retries : Int} {ways : List (List Text)}

set_option maxRecDepth 20000 in
/-- The first walk takes the link for a file, and enters the folder at its end from elsewhere. -/
theorem selectGenerated_tangle (h : FoundBelow tangle .assumeFile retries ['r'] [[]] ways) :
    selectGenerated ".tea".toList ".php".toList (ways.map (Path.descend ['r'])) =
      ["r/y/l.php".toList] := by
  have hfolders : [] :: (childrenOf tangle ['r'] [[], ["y".toList], ["e".toList],
      ["e".toList, "m.php".toList]]).filter
        (fun way => tangle.volume.isFolder (Path.descend ['r'] way)) =
      [[], ["y".toList], ["e".toList], ["e".toList, "m.php".toList]] := by cbv
  exact selectGenerated_of_fixed rfl (by decide) (by decide) hfolders h (by cbv)

set_option maxRecDepth 20000 in
/-- The second walk takes the link to that link for a file. -/
theorem selectGenerated_untangled (h : FoundBelow untangled .assumeFile retries ['r'] [[]] ways) :
    selectGenerated ".tea".toList ".php".toList (ways.map (Path.descend ['r'])) =
      ["r/e/m.php".toList] := by
  have hfolders : [] :: (childrenOf untangled ['r'] [[], ["y".toList], ["e".toList]]).filter
        (fun way => untangled.volume.isFolder (Path.descend ['r'] way)) =
      [[], ["y".toList], ["e".toList]] := by cbv
  exact selectGenerated_of_fixed rfl (by decide) (by decide) hfolders h (by cbv)

end

/-- The settings by which entries that cannot be read are taken for files. -/
def assuming : Table :=
  Setting.defaults.set Setting.statPolicy (.text StatPolicy.assumeFile.name.toList)

theorem checkSettings_assuming :
    checkSettings .strict (.table [(Setting.statPolicy, .text "assume_file".toList)]) =
      .ok (assuming, []) := rfl

theorem runOn_walkFiles_assuming (root : Path) (s : Workspace) :
    (Compile.walkFiles (Profile.ofTable assuming) root).runOn s =
      (Walk.files .assumeFile 2 root).runOn s :=
  Walk.runOn_walkFiles rfl rfl s

/-- From `r/y` the link is taken for a file, and removed. -/
theorem exists_runOn_cleanPath_tangle :
    ∃ r t, (cleanPath ⟨"clean", ['r'], none, false⟩ (Profile.ofTable assuming)).runOn tangle =
        (.ok r, t) ∧ (∀ o ∈ r.outcomes, o.ok = true) ∧ t.volume = untangled.volume := by
  have hprofile := checked_of_checkSettings checkSettings_assuming
  have hs : (Profile.ofTable assuming).sourceExtension = some ".tea".toList := rfl
  have ht : (Profile.ofTable assuming).targetExtension = some ".php".toList := rfl
  have hfolder : tangle.volume.isFolder ['r'] = true := by cbv
  obtain ⟨ways, u, hfound, husable, hu, hspends, hrun⟩ := exists_runOn_cleanPath_of_folder
    ⟨"clean", ['r'], none, false⟩ (runOn_walkFiles_assuming _) (by decide) rfl hfolder
  have hremove : tangle.volume.remove "r/y/l.php".toList = .ok untangled.volume := by cbv
  have hrefusal : refusal? u.faults u.volume "r/y/l.php".toList = none := by
    rw [refusal?_congr (hspends .remove _ fun hasks => by simp [Walk.asks] at hasks), hu,
      refusal?, hremove]
    rfl
  obtain ⟨x, hclean, _, hx⟩ :=
    exists_runOn_cleanFile ".tea".toList ".php".toList
      (show Path.IsUsable "r/y/l.php".toList by decide) u
  rw [hrefusal] at hclean hx
  rw [hu, hremove] at hx
  have heach : ((selectGenerated ".tea".toList ".php".toList
      (ways.map (Path.descend ['r']))).mapM (cleanFile (Request.mk "clean" ['r'] none false).dryRun
        ".tea".toList ".php".toList)).runOn u =
        (.ok [.deleted "r/y/l.tea".toList "r/y/l.php".toList], x) := by
    rw [selectGenerated_tangle hfound, List.mapM_cons]
    exact runOn_bind_of_ok hclean
  have hok : ∀ o ∈ [Outcome.deleted "r/y/l.tea".toList "r/y/l.php".toList], o.ok = true := by
    intro o ho
    rw [List.mem_singleton.1 ho]
    rfl
  obtain ⟨r, t, hfiles, hout, hvolume⟩ := exists_runOn_cleanFiles hprofile hs ht heach hok
  exact ⟨r, t, hrun.trans hfiles, hout ▸ hok, hvolume.trans (Except.ok.inj hx).symm⟩

/-- With the link gone, the one in `r/e` leads nowhere, and is taken for a file, too. -/
theorem exists_runOn_cleanPath_untangled :
    ∃ r t, (cleanPath ⟨"clean", ['r'], none, false⟩ (Profile.ofTable assuming)).runOn untangled =
        (.ok r, t) ∧ r.outcomes.map (·.output) = ["r/e/m.php".toList] := by
  have hprofile := checked_of_checkSettings checkSettings_assuming
  have hs : (Profile.ofTable assuming).sourceExtension = some ".tea".toList := rfl
  have ht : (Profile.ofTable assuming).targetExtension = some ".php".toList := rfl
  have hreal : (Request.mk "clean" ['r'] none false).dryRun = false := rfl
  have hsound : untangled.volume.Sound := by decide
  have hfolder : untangled.volume.isFolder ['r'] = true := by cbv
  obtain ⟨ways, u, hfound, husable, hu, _, hrun⟩ := exists_runOn_cleanPath_of_folder
    ⟨"clean", ['r'], none, false⟩ (runOn_walkFiles_assuming _) hsound rfl hfolder
  obtain ⟨outcomes, _, result, t, hfiles, houtputs, _, _, _, _, hend⟩ :=
    exists_runOn_cleanFiles_stages hprofile hs ht hreal (hfound.nodup_descend hsound) husable
      (hu ▸ hsound : u.volume.Sound)
  rw [selectGenerated_untangled hfound] at houtputs
  obtain ⟨r, rfl, rfl⟩ | ⟨f, _, hsave, _⟩ := hend
  · exact ⟨r, t, hrun.trans hfiles, houtputs⟩
  · exact absurd hsave (by decide)

/-- A clean that succeeds, and a second one that has something to remove. -/
theorem exists_second_removal :
    ∃ (r r' : Result) (t w : Workspace),
      checkSettings .strict (.table [(Setting.statPolicy, .text "assume_file".toList)]) =
        .ok (assuming, []) ∧
      tangle.volume.Sound ∧ tangle.faults = [] ∧ tangle.volume.isFolder ['r'] = true ∧
      (cleanPath ⟨"clean", ['r'], none, false⟩ (Profile.ofTable assuming)).runOn tangle =
        (.ok r, t) ∧
      (∀ o ∈ r.outcomes, o.ok = true) ∧
      (cleanPath ⟨"clean", ['r'], none, false⟩ (Profile.ofTable assuming)).runOn
        { tangle with volume := t.volume } = (.ok r', w) ∧
      r'.outcomes.map (·.output) = ["r/e/m.php".toList] := by
  obtain ⟨r, t, hfirst, hok, ht⟩ := exists_runOn_cleanPath_tangle
  obtain ⟨r', w, hsecond, houtputs⟩ := exists_runOn_cleanPath_untangled
  refine ⟨r, r', t, w, checkSettings_assuming, by decide, rfl, by cbv, hfirst, hok, ?_, houtputs⟩
  rw [ht]
  exact hsecond

end Inlay.Clean
