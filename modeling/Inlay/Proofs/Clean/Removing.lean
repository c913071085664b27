import Inlay.Command.Clean
import Inlay.Proofs.Compile.Batch
import Inlay.Proofs.Volume.Removal
import Inlay.Proofs.Walk.Shape

/-!
# Cleaning a tree

In a tree without faults every selected file is removed, one after the other, and nothing else is
touched (`exists_runOn_cleanPath_tree`), whatever the extensions are.
-/

namespace Inlay.Clean

open Inlay.Action

variable {source target : Text}

/-- The outcome of a file that is gone. -/
def removedOutcome (source target : Text) (file : Path) : Outcome :=
  .deleted (sourceOf source target file) file

variable [Host]

/-! ### What is selected -/

/-- A file that cleaning takes for generated, by its way below the root. -/
def Selected (v : Volume) (root : Path) (place : Place) (source target : Text)
    (way : List Text) : Prop :=
  (∃ content, v.get? (place ++ way) = some (.file content)) ∧
    Path.hasExtension (Path.descend root way) target = true ∧
    ∃ origin, (∃ content, v.get? (place ++ origin) = some (.file content)) ∧
      sourceOf source target (Path.descend root way) = Path.descend root origin

section
variable (hsne : source ≠ []) (hss : '/' ∉ source)
include hsne hss

omit [Host] in
theorem isPiece_source {x : Stem} (hx : Path.IsPiece (x.kept ++ target)) :
    Path.IsPiece (x.kept ++ source) := by
  have hslash := hx.2
  simp only [List.mem_append, not_or] at hslash
  exact ⟨by simp [hsne], by simpa using ⟨hslash.1, hss⟩⟩

variable (htne : target ≠ []) (root : Path)
include htne

omit [Host] in
theorem sourceOf_descend {x : Stem} (hx : Path.IsPiece (x.kept ++ target)) :
    sourceOf source target (Path.descend root (x.way target)) =
      Path.descend root (x.way source) :=
  Path.swapExtension_descend htne root x.folders hx (isPiece_source hsne hss hx)

/-- With proper extensions, a file is selected if its source stands beside it. -/
theorem selected_iff {v : Volume} (hv : v.Tree) {place : Place}
    (hp : v.get? place = some .folder) (hst : '/' ∉ target) {way : List Text} :
    Selected v root place source target way ↔ ∃ x : Stem, way = x.way target ∧
      (∃ content, v.get? (place ++ x.way target) = some (.file content)) ∧
      ∃ content, v.get? (place ++ x.way source) = some (.file content) := by
  have hpieces {way : List Text} (h : ∃ content, v.get? (place ++ way) = some (.file content)) :
      ∀ n ∈ way, Path.IsPiece n := by
    obtain ⟨content, h⟩ := h
    exact Path.isPiece_of_isName (hv.isName_below h)
  constructor
  · rintro ⟨hfile, hext, origin, horigin, heq⟩
    have hne : way ≠ [] := by
      rintro rfl
      simp [hp] at hfile
    obtain ⟨folders, name, rfl⟩ := (List.eq_nil_or_concat way).resolve_left hne
    rw [List.concat_eq_append] at hfile hext heq ⊢
    have hname := hpieces hfile name (by simp)
    rw [Path.hasExtension_descend hst root folders hname, Path.hasExtension_iff] at hext
    obtain ⟨kept, rfl⟩ := hext
    have hx : (⟨folders, kept⟩ : Stem).way target = folders ++ [kept ++ target] := rfl
    have hfolders := (List.forall_mem_append.1 (hpieces hfile)).1
    have hpieces' : ∀ n ∈ (⟨folders, kept⟩ : Stem).way source, Path.IsPiece n :=
      List.forall_mem_append.2
        ⟨hfolders, List.forall_mem_singleton.2 (isPiece_source hsne hss hname)⟩
    rw [← hx, sourceOf_descend hsne hss htne root hname] at heq
    rw [← Path.descend_injective root hpieces' (hpieces horigin) heq] at horigin
    exact ⟨⟨folders, kept⟩, rfl, hfile, horigin⟩
  · rintro ⟨x, rfl, hfile, horigin⟩
    have hname := hpieces hfile (x.kept ++ target) (by simp [Stem.way])
    refine ⟨hfile, ?_, x.way source, horigin, sourceOf_descend hsne hss htne root hname⟩
    rw [Stem.way, Path.hasExtension_descend hst root x.folders hname, Path.hasExtension_iff]
    exact ⟨x.kept, rfl⟩

end

omit [Host] in
theorem exists_selectGenerated_ways (source target : Text) {v : Volume} {root : Path}
    {place : Place} {ways : List (List Text)} (hnodup : ways.Nodup)
    (hmem : ∀ way, way ∈ ways ↔ ∃ content, v.get? (place ++ way) = some (.file content))
    (hpieces : ∀ way ∈ ways, ∀ n ∈ way, Path.IsPiece n) :
    ∃ chosen : List (List Text), chosen.Nodup ∧
      selectGenerated source target (ways.map (Path.descend root)) =
        chosen.map (Path.descend root) ∧
      ∀ way, way ∈ chosen ↔ Selected v root place source target way := by
  have hfiles : ∀ file ∈ selectGenerated source target (ways.map (Path.descend root)),
      ∃ way, way ∈ ways ∧ file = Path.descend root way := by
    intro file hfile
    obtain ⟨way, hway, heq⟩ := List.mem_map.1 ((mem_selectGenerated ..).1 hfile).1
    exact ⟨way, hway, heq.symm⟩
  obtain ⟨chosen, hchosen, hall⟩ := Walk.exists_map_of_forall hfiles
  have hinj : (ways.map (Path.descend root)).Nodup := hnodup.map_on fun way hw way' hw' h =>
    Path.descend_injective root (hpieces way hw) (hpieces way' hw') h
  have hselected : (selectGenerated source target (ways.map (Path.descend root))).Nodup :=
    (List.mergeSort_perm _ _).nodup_iff.2 (hinj.filter _)
  have hin {way : List Text} (hway : way ∈ ways) : way ∈ chosen ↔ Path.descend root way ∈
      selectGenerated source target (ways.map (Path.descend root)) := by
    rw [hchosen]
    constructor
    · exact List.mem_map_of_mem
    · intro h
      obtain ⟨way', hway', heq⟩ := List.mem_map.1 h
      rwa [← Path.descend_injective root (hpieces way' (hall way' hway')) (hpieces way hway) heq]
  refine ⟨chosen, (hchosen ▸ hselected).of_map _, hchosen, ?_⟩
  intro way
  constructor
  · intro h
    obtain ⟨_, hext, horigin⟩ := (mem_selectGenerated ..).1 ((hin (hall way h)).1 h)
    obtain ⟨origin, ho, heq⟩ := List.mem_map.1 horigin
    exact ⟨(hmem way).1 (hall way h), hext, origin, (hmem origin).1 ho, heq.symm⟩
  · rintro ⟨hfile, hext, origin, ho, heq⟩
    have hway := (hmem way).2 hfile
    refine (hin hway).2 ((mem_selectGenerated ..).2 ⟨List.mem_map_of_mem hway, hext, ?_⟩)
    rw [heq]
    exact List.mem_map_of_mem ((hmem origin).2 ho)

/-! ### One file -/

theorem runOn_removeOutput {s : Workspace} (h : s.volume.Tree) (hs : s.faults = []) {root : Path}
    {place : Place} (hl : s.volume.Leads root place) {names : List Text} {name : Text}
    {content : Bytes} (hf : s.volume.get? (place ++ (names ++ [name])) = some (.file content)) :
    (removeOutput (Path.descend root (names ++ [name]))).runOn s =
      (.ok (), { s with volume := s.volume.erase (place ++ (names ++ [name])) }) := by
  have hname := h.isName_below hf name (by simp)
  have hremove := h.remove_descend hl hname hf
  have hpath := Path.isUsable_descend (h.sound.isUsable_of_leads hl) (h.sound.isUsable_below hf)
  unfold removeOutput removeFile
  rw [runOn_bind_of_ok (runOn_guard_of_nil hs .remove _), runOn_onVolume hpath, hremove]

/-- Dealing with a file does what removing it does, if anything. -/
theorem moves_cleanFile {R : Volume → Volume → Prop} (hr : ∀ v, R v v)
    (ht : ∀ u v w, R u v → R v w → R u w) {file : Path}
    (h : ∀ v w, Path.IsUsable file → v.remove file = .ok w → R v w) (dryRun : Bool)
    (source target : Text) :
    Moves R (cleanFile dryRun source target file) := by
  have hremove : Moves R (removeOutput file) := by
    unfold removeOutput removeFile
    exact moves_bind ht ((keeps_guard _ _).moves hr) fun _ => moves_onVolume hr h
  unfold cleanFile
  split
  · exact (keeps_bind (keeps_log _ _ _) fun _ => keeps_pure _).moves hr
  · apply moves_bind ht (moves_attempt hremove)
    intro result
    cases result with
    | ok _ => exact (keeps_bind (keeps_log _ _ _) fun _ => keeps_pure _).moves hr
    | error f =>
      cases f with
      | os e => exact (keeps_bind (keeps_log _ _ _) fun _ => keeps_pure _).moves hr
      | _ => exact (keeps_throw _).moves hr

theorem exists_runOn_cleanFile_of_removed (source target : Text) {s t : Workspace} {file : Path}
    (h : (removeOutput file).runOn s = (.ok (), t)) :
    ∃ record, (cleanFile false source target file).runOn s =
      (.ok (removedOutcome source target file), t.logged record) := by
  unfold cleanFile
  simp only [Bool.false_eq_true, if_false]
  rw [runOn_bind_of_ok (by rw [runOn_attempt, h])]
  simp only
  rw [runOn_bind_of_ok (runOn_log _ _ _ _)]
  exact ⟨_, rfl⟩

/-! ### All of them -/

section
variable {v : Volume} (hv : v.Tree) {root : Path} {place : Place} (hl : v.Leads root place)
  (hp : v.get? place = some .folder)
include hv hl hp

theorem exists_runOn_cleanFile_cleared (source target : Text) {s : Workspace} (hs : s.faults = [])
    {places : List Place} (h : v.Cleared s.volume places) {way : List Text} (hne : way ≠ [])
    {content : Bytes} (hf : v.get? (place ++ way) = some (.file content))
    (hnew : place ++ way ∉ places) :
    ∃ t, (cleanFile false source target (Path.descend root way)).runOn s =
        (.ok (removedOutcome source target (Path.descend root way)), t) ∧ t.faults = [] ∧
      v.Cleared t.volume (places ++ [place ++ way]) := by
  obtain ⟨names, name, rfl⟩ := (List.eq_nil_or_concat way).resolve_left hne
  rw [List.concat_eq_append] at hf hnew ⊢
  have hfile : s.volume.get? (place ++ (names ++ [name])) = some (.file content) := by
    rw [h.get?, if_neg hnew, hf]
  have hrun := runOn_removeOutput h.tree hs (h.leads hv hp hl) hfile
  obtain ⟨record, hclean⟩ :=
    exists_runOn_cleanFile_of_removed source target hrun
  refine ⟨_, hclean, ?_, ?_⟩
  · rw [Workspace.logged_faults, hs]
  · rw [Workspace.logged_volume]
    exact h.erase hf

theorem exists_runOn_cleanEach_cleared (source target : Text) {ways : List (List Text)}
    (hnodup : ways.Nodup)
    (hways : ∀ way ∈ ways, way ≠ [] ∧ ∃ content, v.get? (place ++ way) = some (.file content))
    {s : Workspace} (hs : s.faults = []) {places : List Place} (h : v.Cleared s.volume places)
    (hnew : ∀ way ∈ ways, place ++ way ∉ places) :
    ∃ t, ((ways.map (Path.descend root)).mapM (cleanFile false source target)).runOn s =
        (.ok ((ways.map (Path.descend root)).map (removedOutcome source target)), t) ∧
      t.faults = [] ∧ v.Cleared t.volume (places ++ ways.map (place ++ ·)) := by
  induction ways generalizing s places with
  | nil => exact ⟨s, rfl, hs, by simpa using h⟩
  | cons way ways ih =>
    obtain ⟨hway, hrest⟩ := List.nodup_cons.1 hnodup
    obtain ⟨hne, content, hf⟩ := hways way (List.mem_cons_self ..)
    obtain ⟨t, hrun, ht, hnext⟩ := exists_runOn_cleanFile_cleared hv hl hp source target hs h hne hf
      (hnew way (List.mem_cons_self ..))
    have hleft : ∀ way' ∈ ways, place ++ way' ∉ places ++ [place ++ way] := by
      intro way' hm hin
      rcases List.mem_append.1 hin with hin | hin
      · exact hnew way' (List.mem_cons_of_mem _ hm) hin
      · rw [List.append_cancel_left (List.mem_singleton.1 hin)] at hm
        exact hway hm
    obtain ⟨u, hmore, hu, hend⟩ :=
      ih hrest (fun way' hm => hways way' (List.mem_cons_of_mem _ hm)) ht hnext hleft
    refine ⟨u, ?_, hu, by simpa using hend⟩
    rw [List.map_cons, List.mapM_cons, runOn_bind_of_ok hrun, runOn_bind_of_ok hmore]
    rfl

end

/-! ### The command -/

/-- The result of a clean, with the path of its report. -/
def cleaned (request : Request) (files : List Path) (outcomes : List Outcome) (report : Path) :
    Result :=
  .ofBatch request request.input outcomes [("walked", .int files.length),
    ("dry_run", .bool request.dryRun), ("error_report", .text report)]

/-- The files are dealt with, and then the report. -/
theorem exists_runOn_cleanFiles_of_report {profile : Profile}
    (hs : profile.sourceExtension = some source) (ht : profile.targetExtension = some target)
    {request : Request} {files : List Path} {s t u : Workspace} {outcomes : List Outcome}
    {report : Path}
    (hclean : ((selectGenerated source target files).mapM
      (cleanFile request.dryRun source target)).runOn s = (.ok outcomes, t))
    (hreport : (Report.writeIfAsked profile request.input outcomes).runOn t = (.ok report, u)) :
    ∃ w, (cleanFiles request profile files).runOn s =
      (.ok (cleaned request files outcomes report), w) ∧ w.volume = u.volume := by
  unfold cleanFiles
  rw [runOn_bind_of_ok (runOn_need_some hs s), runOn_bind_of_ok (runOn_need_some ht s),
    runOn_bind_of_ok hclean, runOn_bind_of_ok hreport]
  simp only
  rw [runOn_bind_of_ok (runOn_log _ _ _ u)]
  exact ⟨_, rfl, u.logged_volume _⟩

theorem exists_runOn_cleanFiles {profile : Profile} (hprofile : profile.Checked)
    (hs : profile.sourceExtension = some source) (ht : profile.targetExtension = some target)
    {request : Request} {files : List Path} {s t : Workspace} {outcomes : List Outcome}
    (hclean : ((selectGenerated source target files).mapM
      (cleanFile request.dryRun source target)).runOn s = (.ok outcomes, t))
    (hok : ∀ o ∈ outcomes, o.ok = true) :
    ∃ r u, (cleanFiles request profile files).runOn s = (.ok r, u) ∧ r.outcomes = outcomes ∧
      u.volume = t.volume := by
  obtain ⟨u, hrun, hu⟩ := exists_runOn_cleanFiles_of_report hs ht hclean
    (Report.runOn_writeIfAsked hprofile outcomes (Or.inr hok) request.input t)
  exact ⟨_, u, hrun, rfl, hu⟩

/-- A fault-free clean of a folder: exactly the selected files are gone. -/
theorem exists_runOn_cleanPath_tree {s : Workspace} (hv : s.volume.Tree) (hs : s.faults = [])
    (request : Request) {place : Place} (hl : s.volume.Leads request.input place)
    (hp : s.volume.get? place = some .folder) {profile : Profile} (hprofile : profile.Checked)
    (hse : profile.sourceExtension = some source) (hte : profile.targetExtension = some target)
    (hdry : request.dryRun = false) :
    ∃ (r : Result) (t : Workspace) (ways : List (List Text)),
      (cleanPath request profile).runOn s = (.ok r, t) ∧ ways.Nodup ∧
      (∀ way, way ∈ ways ↔ Selected s.volume request.input place source target way) ∧
      r.outcomes = (ways.map (Path.descend request.input)).map (removedOutcome source target) ∧
      s.volume.Cleared t.volume (ways.map (place ++ ·)) := by
  obtain ⟨record, hrecord⟩ : ∃ record, record = LogRecord.mk Level.info logger
      s!"Cleaning generated files under: {str request.input}" := ⟨_, rfl⟩
  have hvolume := s.logged_volume record
  obtain ⟨all, hwalk, hnodup, hmem, hnames⟩ := Walk.exists_runOn_walkFiles (s := s.logged record)
    (by rw [hvolume]; exact hv) (by rw [Workspace.logged_faults, hs]) (by rw [hvolume]; exact hl)
    hprofile (by rw [hvolume]; exact hp)
  rw [hvolume] at hmem
  obtain ⟨ways, hways, hchosen, hselected⟩ := exists_selectGenerated_ways source target
    hnodup hmem fun way hw => Path.isPiece_of_isName (hnames way hw).2
  obtain ⟨t, hrun, _, hcleared⟩ := exists_runOn_cleanEach_cleared hv hl hp source target hways
    (fun way hw => ⟨(hnames way ((hmem way).2 ((hselected way).1 hw).1)).1,
      ((hselected way).1 hw).1⟩)
    (s := s.logged record) (by rw [Workspace.logged_faults, hs]) (by rw [hvolume]; exact hv.cleared)
    (by simp)
  rw [← hdry, ← hchosen] at hrun
  obtain ⟨r, u, hfiles, hout, hkept⟩ := exists_runOn_cleanFiles hprofile hse hte hrun (by
    intro o ho
    obtain ⟨file, _, rfl⟩ := List.mem_map.1 ho
    rfl)
  refine ⟨r, u, ways, ?_, hways, hselected, by rw [hout, hchosen],
    by rw [hkept]; simpa using hcleared⟩
  unfold cleanPath
  rw [runOn_bind_of_ok (runOn_get s)]
  simp only [hv.isFolder_of_leads hl hp, Bool.not_true, Bool.false_eq_true, if_false]
  rw [runOn_bind_of_ok (runOn_log _ _ _ s), ← hrecord,
    runOn_bind_of_ok (by rw [runOn_attempt, hwalk])]
  exact hfiles

end Inlay.Clean
