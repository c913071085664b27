import Inlay.Proofs.Compile.Copying
import Inlay.Proofs.Compile.SingleFile
import Inlay.Proofs.Clean.Removing
import Inlay.Proofs.Volume.Lacking

/-!
# Failures and their report

A command that saves a report deals with its files as it does without one, and then the report is
written exactly if some file has failed (`Report.Saved`). The results of folders say where it is
(`failures_reported`), that of a single file does not (`exists_hidden_report`).
-/

namespace Inlay

variable [Host]

open Inlay.Action

/-- The same settings, without a report. -/
def Profile.unreported (profile : Profile) : Profile :=
  { profile with saveErrorLog := some false }

namespace Report

/-! ### Writing the report -/

/-- What is done before something is written to a report. -/
def opening (path : Path) : Action Unit := do
  Action.ensureParent (← Action.absolute path)
  Action.guard .report path
  Action.onVolume path (·.write path [])

/-- The file system lets a report through. -/
def Writable (s : Workspace) (path : Path) : Prop :=
  ∃ t, (opening path).runOn s = (.ok (), t)

/-- What becomes of a report: its path and the volume, if it is due at some place when the files
have come to a workspace. -/
structure Saved (place : Path) (outcomes : List Outcome) (s : Workspace) (path : Path)
    (v : Volume) : Prop where
  fine : (∀ o ∈ outcomes, o.ok = true) → path = [] ∧ v = s.volume
  failed : (∃ o ∈ outcomes, o.ok = false) → Writable s place →
    path = place ∧ v.read place = .ok (Utf8.encode (text outcomes))

variable {s t : Workspace} {place path : Path} {outcomes : List Outcome}

theorem Writable.of_sameFiles (h : Writable s path) (hsame : s.SameFiles t) : Writable t path := by
  have hsees : SeesFiles (opening path) := by
    unfold opening
    exact sees_bind (seesFiles_absolute path) fun full => sees_bind (seesFiles_ensureParent full)
      fun _ => sees_bind (seesFiles_guard _ _) fun _ => seesFiles_onVolume _ _
  obtain ⟨u, hrun⟩ := h
  have hresult := (hsees s t hsame).1
  rw [hrun] at hresult
  exact ⟨((opening path).runOn t).2, Prod.ext hresult rfl⟩

theorem Saved.of_sameFiles {v : Volume} (h : Saved place outcomes s path v)
    (hsame : s.SameFiles t) : Saved place outcomes t path v where
  fine hok := hsame.volume ▸ h.fine hok
  failed hfailed hw := h.failed hfailed
    (hw.of_sameFiles ⟨hsame.volume.symm, hsame.faults.symm⟩)

/-- A report that can be opened is filled up to the first part that cannot be encoded. -/
theorem Writable.exists_runOn_save (h : Writable s path) (hs : s.volume.Sound)
    (outcomes : List Outcome) :
    ∃ t, (save path outcomes).runOn s =
        (match (encodeParts .utf8 (parts outcomes)).1 with
          | none => .ok ()
          | some f => .error (.codec f), t) ∧
      t.volume.read path = .ok (encodeParts .utf8 (parts outcomes)).2 := by
  obtain ⟨t, hopening⟩ := h
  unfold opening at hopening
  obtain ⟨full, s₁, hfull, hopening⟩ := exists_of_runOn_bind hopening
  obtain ⟨_, s₂, hparent, hopening⟩ := exists_of_runOn_bind hopening
  obtain ⟨_, s₃, hguard, hopen⟩ := exists_of_runOn_bind hopening
  obtain ⟨hu, v, hv, rfl⟩ := of_runOn_onVolume hopen
  obtain ⟨_, _, rfl⟩ := of_runOn_absolute hfull
  have hsound := ((abides_ensureParent full).of_runOn hparent).sound hs
  rw [← (keeps_guard _ _).volume_eq hguard] at hsound
  obtain ⟨w, hwritten, hread⟩ :=
    hsound.exists_write_again hv (encodeParts .utf8 (parts outcomes)).2
  have hfill : (onVolume path (·.write path (encodeParts .utf8 (parts outcomes)).2)).runOn
      { s₃ with volume := v } = (.ok (), { s₃ with volume := w }) := by
    rw [runOn_onVolume hu, hwritten]
  refine ⟨{ s₃ with volume := w }, ?_, hread⟩
  unfold save writeParts
  rw [runOn_bind_of_ok hfull, runOn_bind_of_ok hparent, runOn_bind_of_ok hguard,
    runOn_bind_of_ok hopen]
  dsimp only
  rw [runOn_bind_of_ok hfill]
  cases (encodeParts .utf8 (parts outcomes)).1 with
  | none => rfl
  | some f => rfl

section
variable {profile : Profile} {name : Text} (hsave : profile.saveErrorLog = some true)
  (hname : profile.errorLogName = some name)
include hsave hname

theorem saved_of_writeIfAsked (hs : s.volume.Sound) {folder : Path}
    (h : (writeIfAsked profile folder outcomes).runOn s = (.ok path, t)) :
    Saved (Path.join folder name) outcomes s path t.volume := by
  unfold writeIfAsked at h
  rw [hsave, Option.getD_some, if_pos rfl, runOn_bind_of_ok (runOn_need_some hname s)] at h
  unfold write at h
  constructor
  · intro hok
    rw [if_pos (List.all_eq_true.2 hok)] at h
    obtain ⟨hpath, rfl⟩ := Prod.mk.inj h
    exact ⟨(Except.ok.inj hpath).symm, rfl⟩
  · rintro ⟨o, ho, hfailed⟩ hw
    have hnot : ¬ outcomes.all (·.ok) = true := fun hall =>
      Bool.false_ne_true (hfailed.symm.trans (List.all_eq_true.1 hall o ho))
    obtain ⟨u, hsaved, hread⟩ := hw.exists_runOn_save hs outcomes
    rw [if_neg hnot, runOn_bind_of_ok (by rw [runOn_attempt, hsaved])] at h
    cases hencode : (encodeParts .utf8 (parts outcomes)).1 with
    | some f =>
      simp only [hencode] at h
      simp at h
    | none =>
      simp only [hencode] at h
      rw [runOn_bind_of_ok (runOn_log _ _ _ u)] at h
      obtain ⟨hpath, rfl⟩ := Prod.mk.inj h
      exact ⟨(Except.ok.inj hpath).symm, by
        rw [Workspace.logged_volume, hread, encodeParts_utf8 hencode, text]⟩

end

/-! ### A command with a report and one without -/

/-- What a command gives is what a plain one gives from the same files, with the report of the
outcomes added. -/
def Adds (due : Volume → Result → Path) (shown : Path → Option Value) (s : Workspace)
    (command plain : Action Result) : Prop :=
  s.volume.Sound → ∀ r t, command.runOn s = (.ok r, t) → ∃ r' u path,
    plain.runOn s = (.ok r', u) ∧ r'.outcomes = r.outcomes ∧
      Saved (due u.volume r) r.outcomes u path t.volume ∧
      r.summary.get? "error_report" = shown path

section
variable {due : Volume → Result → Path} {shown : Path → Option Value}

theorem adds_bind {α : Type} {a : Action α} {f g : α → Action Result} (ha : Moves Volume.Holds a)
    (h : ∀ x t, a.runOn s = (.ok x, t) → Adds due shown t (f x) (g x)) :
    Adds due shown s (a >>= f) (a >>= g) := by
  intro hs r t hrun
  obtain ⟨x, u, hfirst, hrest⟩ := exists_of_runOn_bind hrun
  have hholds := ha s
  rw [hfirst] at hholds
  rw [runOn_bind_of_ok hfirst]
  exact h x u hfirst (hholds.sound hs) r t hrest

theorem adds_keeps {α : Type} {a : Action α} {f g : α → Action Result} (ha : Keeps a)
    (h : ∀ x t, a.runOn s = (.ok x, t) → Adds due shown t (f x) (g x)) :
    Adds due shown s (a >>= f) (a >>= g) :=
  adds_bind (ha.moves Volume.Holds.refl) h

theorem adds_get {f g : Workspace → Action Result} (h : Adds due shown s (f s) (g s)) :
    Adds due shown s (get >>= f) (get >>= g) := by
  refine adds_keeps keeps_get fun _ _ hrun => ?_
  obtain ⟨hs, rfl⟩ := Prod.mk.inj hrun
  rwa [← Except.ok.inj hs]

theorem adds_log {level : Int} {logger message : String} {f g : Unit → Action Result}
    (h : Adds due shown (s.logged ⟨level, logger, message⟩) (f ()) (g ())) :
    Adds due shown s (log level logger message >>= f) (log level logger message >>= g) := by
  refine adds_keeps (keeps_log _ _ _) fun _ t hrun => ?_
  rw [runOn_log] at hrun
  obtain ⟨_, rfl⟩ := Prod.mk.inj hrun
  exact h

/-- The report comes last, but for what is logged. -/
theorem adds_writeIfAsked {profile : Profile} {name : Text}
    (hsave : profile.saveErrorLog = some true) (hname : profile.errorLogName = some name)
    {folder : Path} {f : Path → Action Result} {g : Path → Result}
    (hf : ∀ path u, ∃ t, (f path).runOn u = (.ok (g path), t) ∧ u.SameFiles t)
    (houtcomes : ∀ path, (g path).outcomes = outcomes)
    (hdue : ∀ path, due s.volume (g path) = Path.join folder name)
    (hshown : ∀ path, (g path).summary.get? "error_report" = shown path) :
    Adds due shown s (writeIfAsked profile folder outcomes >>= f)
      (writeIfAsked profile.unreported folder outcomes >>= f) := by
  intro hs r t hrun
  obtain ⟨path, u, hreport, hrest⟩ := exists_of_runOn_bind hrun
  obtain ⟨_, hend, hsame⟩ := hf path u
  obtain ⟨hresult, rfl⟩ := Prod.mk.inj (hend.symm.trans hrest)
  obtain rfl := Except.ok.inj hresult
  obtain ⟨w, hplain, hleft⟩ := hf [] s
  have hnone : (writeIfAsked profile.unreported folder outcomes).runOn s = (.ok [], s) := rfl
  refine ⟨g [], w, path, by rw [runOn_bind_of_ok hnone, hplain],
    (houtcomes []).trans (houtcomes path).symm, ?_, hshown path⟩
  rw [hleft.volume, hdue, houtcomes, hsame.volume]
  exact (saved_of_writeIfAsked hsave hname hs hreport).of_sameFiles hleft

/-- A walk that does not end with a listing ends with files, or else there is no result. -/
theorem adds_walked (profile : Profile) {root : Path}
    {go go' : Except Failure (List Path) → Action Result}
    (hfolder : s.volume.isFolder root = true) (hlistable : ¬ Walk.Unlistable profile root s)
    (hother : ∀ f, (∀ folder detail, f ≠ .listing folder detail) →
      Returns (fun _ => False) (go (.error f)))
    (hfiles : ∀ files t, Adds due shown t (go (.ok files)) (go' (.ok files))) :
    Adds due shown s (attempt (Compile.walkFiles profile root) >>= go)
      (attempt (Compile.walkFiles profile root) >>= go') := by
  refine adds_keeps (keeps_attempt (Walk.keeps_walkFiles profile root)) fun result u hwalk => ?_
  cases result with
  | ok files => exact hfiles files u
  | error f =>
    have hfails : (Compile.walkFiles profile root).runOn s = (.error f, u) := by
      rw [runOn_attempt, Prod.mk.injEq, Except.ok.injEq] at hwalk
      exact Prod.ext hwalk.1 hwalk.2
    intro _ r t hrun
    refine absurd (hother f ?_ u r t hrun) id
    rintro folder detail rfl
    exact hlistable ⟨hfolder, folder, detail, u, hfails⟩

end

end Report

/-! ### Compiling -/

namespace Compile

open Report

variable {compiler : Compiler} {profile : Profile}

theorem moves_runBatch {R : Volume → Volume → Prop} (hr : ∀ v, R v v)
    (ht : ∀ u v w, R u v → R v w → R u w)
    (h : ∀ job, Moves R (toOutcome compiler profile job)) (failFast : Bool) (jobs : List Job) :
    Moves R (runBatch compiler profile failFast jobs) := by
  have hjobs : Moves R (runJobs compiler profile failFast jobs) := by
    induction jobs with
    | nil => exact (keeps_pure _).moves hr
    | cons job jobs ih =>
      refine moves_bind ht (moves_attempt (h job)) fun result => ?_
      cases result with
      | ok outcome =>
        simp only
        split
        · exact (keeps_pure _).moves hr
        · exact moves_bind ht ih fun _ => (keeps_pure _).moves hr
      | error f => exact moves_bind ht ih fun _ => (keeps_pure _).moves hr
  refine moves_bind ht hjobs fun results => ?_
  cases outcomesOf results with
  | ok outcomes => exact (keeps_pure _).moves hr
  | error f => exact (keeps_throw _).moves hr

theorem holds_toOutcome (compiler : Compiler) (profile : Profile) (job : Job) :
    Moves Volume.Holds (toOutcome compiler profile job) :=
  moves_toOutcome Volume.Holds.refl Volume.Holds.trans
    (fun _ _ _ hu h => Volume.holds_makeFolder hu h) (fun _ _ _ hu h => Volume.holds_write hu h)
    compiler profile

theorem runBatch_unreported (failFast : Bool) (jobs : List Job) :
    runBatch compiler profile.unreported failFast jobs =
      runBatch compiler profile failFast jobs := by
  have hjobs : runJobs compiler profile.unreported failFast jobs =
      runJobs compiler profile failFast jobs := by
    induction jobs with
    | nil => rfl
    | cons job jobs ih =>
      rw [runJobs, runJobs, ih]
      rfl
  rw [runBatch, runBatch, hjobs]

omit [Host] in
theorem keeps_plan (profile : Profile) (root output : Path) (files : List Path) :
    Keeps (plan profile root output files) := by
  refine keeps_bind (keeps_need _ _) fun source => keeps_bind (keeps_need _ _) fun target => ?_
  split
  · exact keeps_pure _
  · exact keeps_throw _

section
variable {name : Text} (hsave : profile.saveErrorLog = some true)
  (hname : profile.errorLogName = some name) (request : Request) (s : Workspace)
include hsave hname

theorem adds_compileSingle :
    Adds (fun v r => Path.join (Path.folder (v.absolute r.output)) name) (fun _ => none) s
      (compileSingle request profile compiler)
      (compileSingle request profile.unreported compiler) := by
  unfold compileSingle
  refine adds_keeps (keeps_need _ _) fun target _ _ => adds_keeps (keeps_need _ _)
    fun source _ _ => adds_get (adds_log (adds_bind (holds_toOutcome compiler profile _)
      fun outcome _ _ => adds_keeps (eq_absolute _).keeps fun full t habsolute => ?_))
  obtain ⟨_, rfl, rfl⟩ := of_runOn_absolute habsolute
  exact adds_writeIfAsked hsave hname (fun _ u => ⟨u, rfl, .refl u⟩) (fun _ => rfl) (fun _ => rfl)
    fun _ => rfl

theorem adds_compileFiles (root : Path) (files : List Path) :
    Adds (fun _ r => Path.join r.output name) (fun path => some (.text path)) s
      (compileFiles request profile compiler root files)
      (compileFiles request profile.unreported compiler root files) := by
  unfold compileFiles
  refine adds_keeps (keeps_plan profile _ _ _) fun jobs _ _ => adds_log (adds_keeps
    (keeps_need _ _) fun failFast _ _ => ?_)
  -- Up to here nothing looks at the report, and neither do the jobs.
  rw [runBatch_unreported]
  refine adds_bind (moves_runBatch Volume.Holds.refl Volume.Holds.trans
    (holds_toOutcome compiler profile) failFast jobs) fun batch _ _ => ?_
  obtain ⟨outcomes, stopped⟩ := batch
  cases stopped with
  | some o =>
    exact adds_writeIfAsked hsave hname (fun _ u => ⟨u, rfl, .refl u⟩) (fun _ => rfl)
      (fun _ => rfl) fun _ => rfl
  | none =>
    exact adds_writeIfAsked hsave hname (fun _ u => ⟨_, rfl, u.sameFiles_logged _⟩) (fun _ => rfl)
      (fun _ => rfl) fun _ => rfl

theorem adds_compileFolder (hfolder : s.volume.isFolder request.input = true)
    (hlistable : ¬ Walk.Unlistable profile request.input s) :
    Adds (fun _ r => Path.join r.output name) (fun path => some (.text path)) s
      (compileFolder request profile compiler)
      (compileFolder request profile.unreported compiler) := by
  unfold compileFolder
  have hkeeps : Keeps (outputRoot request.input request.output) :=
    (eq_outputRoot _ _).of_eq (R := fun s t => t.volume = s.volume) fun _ => rfl
  refine adds_keeps hkeeps fun root t hroot => ?_
  obtain rfl := (eq_outputRoot _ _).of_runOn hroot
  refine adds_log (adds_walked profile (by rwa [Workspace.logged_volume]) ?_ (fun f hf => ?_)
    fun files t => adds_compileFiles hsave hname request t root files)
  · rwa [Walk.unlistable_iff (s.sameFiles_logged _)]
  · split
    · next folder detail he => exact absurd (Except.error.inj he) (hf folder detail)
    · exact returns_throw _
    · next he => cases he

/-- Where the report of a compilation is due: in its output folder, or beside its output. -/
def due (name : Text) (file : Bool) (v : Volume) (r : Result) : Path :=
  Path.join (if file then Path.folder (v.absolute r.output) else r.output) name

theorem adds_compileWith (hlistable : ¬ Walk.Unlistable profile request.input s) :
    Adds (due name (s.volume.isFile request.input))
      (fun path => if s.volume.isFile request.input then none else some (.text path)) s
      (compileWith request profile compiler) (compileWith request profile.unreported compiler) := by
  unfold compileWith
  refine adds_get ?_
  cases hfile : s.volume.isFile request.input with
  | true =>
    simp only [hfile, if_true]
    exact adds_compileSingle hsave hname request s
  | false =>
    cases hfolder : s.volume.isFolder request.input with
    | true =>
      simp only [hfile, hfolder, Bool.false_eq_true, if_false, if_true]
      exact adds_compileFolder hsave hname request s hfolder hlistable
    | false =>
      intro _ r t hrun
      simp [hfile, hfolder] at hrun

theorem adds_compilePath (hlistable : ¬ Walk.Unlistable profile request.input s)
    (choice : Option Compiler) :
    Adds (due name (s.volume.isFile request.input))
      (fun path => if s.volume.isFile request.input then none else some (.text path)) s
      (compilePath request profile choice) (compilePath request profile.unreported choice) := by
  rw [compilePath_eq, compilePath_eq]
  have hsame := sameFiles_chosen profile.compiler choice
  refine adds_keeps (fun t => (hsame t).volume) fun compiler t hchosen => ?_
  have hfiles := hsame.of_runOn hchosen
  rw [← hfiles.volume]
  exact adds_compileWith hsave hname request t (by rwa [Walk.unlistable_iff hfiles])

end

end Compile

/-! ### Cleaning -/

namespace Clean

open Report

variable {profile : Profile} {name : Text} (hsave : profile.saveErrorLog = some true)
  (hname : profile.errorLogName = some name) (request : Request) (s : Workspace)
include hsave hname

theorem adds_cleanFiles (files : List Path) :
    Adds (fun _ _ => Path.join request.input name) (fun path => some (.text path)) s
      (cleanFiles request profile files) (cleanFiles request profile.unreported files) := by
  unfold cleanFiles
  refine adds_keeps (keeps_need _ _) fun source _ _ => adds_keeps (keeps_need _ _)
    fun target _ _ => adds_bind (moves_mapM Volume.Holds.refl Volume.Holds.trans fun file _ =>
      moves_cleanFile Volume.Holds.refl Volume.Holds.trans (fun _ _ _ h => Volume.holds_remove h)
        request.dryRun source target) fun outcomes _ _ => ?_
  exact adds_writeIfAsked hsave hname (fun _ u => ⟨_, rfl, u.sameFiles_logged _⟩) (fun _ => rfl)
    (fun _ => rfl) fun _ => rfl

theorem adds_cleanPath (hlistable : ¬ Walk.Unlistable profile request.input s) :
    Adds (fun _ _ => Path.join request.input name) (fun path => some (.text path)) s
      (cleanPath request profile) (cleanPath request profile.unreported) := by
  unfold cleanPath
  refine adds_get ?_
  cases hfolder : s.volume.isFolder request.input with
  | false =>
    intro _ r t hrun
    simp at hrun
  | true =>
    simp only [Bool.not_true, Bool.false_eq_true, if_false]
    refine adds_log (adds_walked profile (by rwa [Workspace.logged_volume]) ?_
      (fun f hf => ?_) fun files t => adds_cleanFiles hsave hname request t files)
    · rwa [Walk.unlistable_iff (s.sameFiles_logged _)]
    · split
      · next folder detail he => exact absurd (Except.error.inj he) (hf folder detail)
      · exact returns_throw _
      · next he => cases he

end Clean

/-! ### The commands -/

/-- A command comes to the same outcomes with a report and without. If some file has failed, its
report is written where it is due, and if none has, nothing is written; the result says which,
unless a single file has been compiled. -/
theorem failures_reported {profile : Profile} {name : Text}
    (hsave : profile.saveErrorLog = some true) (hname : profile.errorLogName = some name)
    {request : Request} {s t : Workspace} {r : Result} (hs : s.volume.Sound)
    (hlistable : ¬ Walk.Unlistable profile request.input s) :
    (∀ choice, (Compile.compilePath request profile choice).runOn s = (.ok r, t) →
      ∃ r' u path, (Compile.compilePath request profile.unreported choice).runOn s = (.ok r', u) ∧
        r'.outcomes = r.outcomes ∧
        Report.Saved (Compile.due name (s.volume.isFile request.input) u.volume r) r.outcomes u
          path t.volume ∧
        r.summary.get? "error_report" =
          if s.volume.isFile request.input then none else some (.text path)) ∧
    ((Clean.cleanPath request profile).runOn s = (.ok r, t) →
      ∃ r' u path, (Clean.cleanPath request profile.unreported).runOn s = (.ok r', u) ∧
        r'.outcomes = r.outcomes ∧
        Report.Saved (Path.join request.input name) r.outcomes u path t.volume ∧
        r.summary.get? "error_report" = some (.text path)) :=
  ⟨fun choice => Compile.adds_compilePath hsave hname request s hlistable choice hs r t,
    Clean.adds_cleanPath hsave hname request s hlistable hs r t⟩

/-! ### A file that is not text -/

namespace Compile

/-- A single file that fails before anything is written has only its report before it. -/
theorem exists_runOn_compileSingle_of_error (compiler : Compiler) {profile : Profile}
    {source target : Text} (hs : profile.sourceExtension = some source)
    (ht : profile.targetExtension = some target) (request : Request) {s : Workspace} {f : Failure}
    (hf : f.isOfFile = true) {output : Path}
    (houtput : singleOutput s.volume request.input request.output target source = output)
    (hfails : ∀ u, s.SameFiles u →
      (compileFile compiler profile ⟨request.input, output⟩).runOn u = (.error f, u)) :
    ∃ u, s.SameFiles u ∧ (compileSingle request profile compiler).runOn s =
      (finishSingle request profile output (.failed request.input output f.message)).runOn u := by
  have hlogged := s.sameFiles_logged ⟨Level.info, logger, s!"Compiling file: {str request.input}"⟩
  obtain ⟨record, hrun⟩ := exists_runOn_toOutcome_of_error (hfails _ hlogged) hf
  refine ⟨_, hlogged.trans (Workspace.sameFiles_logged _ record), ?_⟩
  rw [runOn_compileSingle hs ht, houtput, runOn_bind_of_ok hrun]

theorem finishSingle_unreported (request : Request) (profile : Profile) (output : Path)
    (outcome : Outcome) (s : Workspace) :
    ((finishSingle request profile.unreported output outcome).runOn s).2 = s := by
  unfold finishSingle
  rw [runOn_bind]
  cases hfull : (absolute output).runOn s with
  | mk result t =>
    obtain rfl := (eq_absolute output).of_runOn hfull
    cases result with
    | error e => rfl
    | ok full => rfl

end Compile

end Inlay

namespace Inlay

open Inlay.Standard Inlay.Action

namespace Compile

/-- Settings that ask for a report. -/
def reporting : Table :=
  Setting.defaults.set Setting.saveErrorLog (.bool true)

theorem check_reporting :
    checkSettings .lenient (.table [(Setting.saveErrorLog, .bool true)]) = .ok (reporting, []) :=
  rfl

def notText : Failure := .codec (.undecodable "utf-8" 255 0 1 .invalidStart)

theorem runOn_compileFile_notText (u : Workspace) (h : (hostFile [255]).SameFiles u) :
    (compileFile .passthrough (Profile.ofTable reporting)
      ⟨"r/a.tea".toList, "r/a.php".toList⟩).runOn u = (.error notText, u) := by
  have hencoding : (Profile.ofTable reporting).encoding = some "utf-8".toList := rfl
  have hfaults : u.faults = [] := h.faults
  have htext : outputText .passthrough (Profile.ofTable reporting) "r/a.tea".toList
      "utf-8".toList none ((hostFile [255]).volume.read "r/a.tea".toList) =
        .error notText := by cbv
  rw [← h.volume] at htext
  rw [runOn_compileFile_planned hencoding, planned_of_failures (by rw [hfaults]; rfl)]
  simp only [htext]

def oneFile : Request := ⟨"compile", "r/a.tea".toList, none, false⟩

def notTextOutcome : Outcome :=
  .failed "r/a.tea".toList "r/a.php".toList notText.message

def notTextResult : Result :=
  .ofBatch oneFile "r/a.php".toList [notTextOutcome] []

theorem isFile_oneFile : (hostFile [255]).volume.isFile oneFile.input = true := by cbv

theorem exists_runOn_single (profile : Profile) (hs : profile.sourceExtension = some ".tea".toList)
    (ht : profile.targetExtension = some ".php".toList)
    (hfails : ∀ u, (hostFile [255]).SameFiles u →
      (compileFile .passthrough profile ⟨oneFile.input, "r/a.php".toList⟩).runOn u =
        (.error notText, u)) :
    ∃ u, (hostFile [255]).SameFiles u ∧
      (compilePath oneFile profile (some .passthrough)).runOn (hostFile [255]) =
        (finishSingle oneFile profile "r/a.php".toList notTextOutcome).runOn u := by
  obtain ⟨u, hu, hrun⟩ := exists_runOn_compileSingle_of_error .passthrough hs ht oneFile rfl
    (by decide) hfails
  exact ⟨u, hu, (runOn_compileWith_of_file isFile_oneFile).trans hrun⟩

/-- The file that is not text, in a workspace that is as before its compilation. -/
theorem reportPath_notText {u : Workspace} (hu : (hostFile [255]).SameFiles u) :
    Path.join (Path.folder (u.volume.absolute "r/a.php".toList)) "icedtea_errors.txt".toList =
      "/r/icedtea_errors.txt".toList := by
  rw [hu.volume]
  cbv

theorem encodeParts_notText : (encodeParts .utf8 (Report.parts [notTextOutcome])).1 = none := by
  decide +kernel

theorem exists_runOn_compilePath_notText :
    ∃ t, (compilePath oneFile (Profile.ofTable reporting) (some .passthrough)).runOn
      (hostFile [255]) = (.ok notTextResult, t) := by
  obtain ⟨u, hu, hrun⟩ := exists_runOn_single (Profile.ofTable reporting) rfl rfl
    runOn_compileFile_notText
  have hsound : u.volume.Sound := hu.volume ▸ (by decide : (hostFile [255]).volume.Sound)
  have habsolute : (absolute "r/a.php".toList).runOn u =
      (.ok (u.volume.absolute "r/a.php".toList), u) :=
    runOn_absolute (Or.inr (by rw [hu.volume]; rfl))
  obtain ⟨result, t, hreport, _, _, hends⟩ := Report.exists_runOn_writeIfAsked
    (checked_of_checkSettings check_reporting) (Path.folder (u.volume.absolute "r/a.php".toList))
    [notTextOutcome] hsound
  cases result with
  | error f =>
    obtain ⟨_, name, hname, hunsaid⟩ := hends f rfl
    have hown : (Profile.ofTable reporting).errorLogName = some "icedtea_errors.txt".toList := rfl
    obtain rfl := Option.some.inj (hown.symm.trans hname)
    rw [Report.Unsaid, reportPath_notText hu, encodeParts_notText] at hunsaid
    rcases hunsaid with ⟨hnot, _⟩ | ⟨_, hfault, _⟩
    · exact absurd (by decide : Path.IsUsable "/r/icedtea_errors.txt".toList) hnot
    · simp at hfault
  | ok path =>
    refine ⟨t, hrun.trans ?_⟩
    unfold finishSingle
    rw [runOn_bind_of_ok habsolute]
    exact runOn_bind_of_ok hreport

/-- Without a report a file that is not text leaves nothing behind, so that the report can be
written beside the output. -/
theorem read_of_saved {r : Result} {u : Workspace}
    (hplain : (compilePath oneFile (Profile.ofTable reporting).unreported
      (some .passthrough)).runOn (hostFile [255]) = (.ok r, u)) {path : Path} {v : Volume}
    (hsaved : Report.Saved (due "icedtea_errors.txt".toList
      ((hostFile [255]).volume.isFile oneFile.input) u.volume notTextResult)
      notTextResult.outcomes u path v) :
    v.read "/r/icedtea_errors.txt".toList =
      .ok (Utf8.encode (Report.text notTextResult.outcomes)) := by
  obtain ⟨w, hw, hrun⟩ := exists_runOn_single (Profile.ofTable reporting).unreported
    rfl rfl runOn_compileFile_notText
  have hkept := finishSingle_unreported oneFile (Profile.ofTable reporting)
    "r/a.php".toList notTextOutcome w
  rw [← hrun, hplain] at hkept
  obtain rfl : u = w := hkept
  have hwritable : Report.Writable (hostFile [255]) "/r/icedtea_errors.txt".toList :=
    ⟨_, by cbv⟩
  rw [isFile_oneFile, due, if_pos rfl, show notTextResult.output = "r/a.php".toList from rfl,
    reportPath_notText hw] at hsaved
  exact (hsaved.failed ⟨_, List.mem_singleton.2 rfl, rfl⟩ (hwritable.of_sameFiles hw)).2

end Compile

theorem failures_reported_of_notText :
    ∃ t, (Compile.compilePath Compile.oneFile (Profile.ofTable Compile.reporting)
        (some .passthrough)).runOn (Compile.hostFile [255]) = (.ok Compile.notTextResult, t) ∧
      t.volume.read "/r/icedtea_errors.txt".toList =
        .ok (Utf8.encode (Report.text Compile.notTextResult.outcomes)) := by
  obtain ⟨t, hrun⟩ := Compile.exists_runOn_compilePath_notText
  obtain ⟨_, _, _, hplain, _, hsaved, _⟩ := (failures_reported rfl rfl (by decide)
    (Walk.not_unlistable_of_isFile Compile.isFile_oneFile)).1 _ hrun
  exact ⟨t, hrun, Compile.read_of_saved hplain hsaved⟩

/-- A report that the result of a single file does not show. -/
theorem exists_hidden_report :
    ∃ (table : Table) (findings : List Finding) (request : Request) (s t : Workspace)
      (result : Result),
      checkSettings .lenient (.table [(Setting.saveErrorLog, .bool true)]) = .ok (table, findings) ∧
      s.volume.Sound ∧
      (Compile.compilePath request (Profile.ofTable table) (some .passthrough)).runOn s =
        (.ok result, t) ∧
      (∃ o ∈ result.outcomes, o.ok = false) ∧
      t.volume.read "/r/icedtea_errors.txt".toList =
        .ok (Utf8.encode (Report.text result.outcomes)) ∧
      result.summary.get? "error_report" = none := by
  obtain ⟨t, hrun⟩ := Compile.exists_runOn_compilePath_notText
  have hsound : (Compile.hostFile [255]).volume.Sound := by decide
  obtain ⟨_, _, _, hplain, _, hsaved, _⟩ := Compile.adds_compilePath rfl rfl _ _
    (Walk.not_unlistable_of_isFile Compile.isFile_oneFile) _ hsound _ _ hrun
  exact ⟨_, _, _, _, t, _, Compile.check_reporting, hsound, hrun,
    ⟨_, List.mem_singleton.2 rfl, rfl⟩, Compile.read_of_saved hplain hsaved, rfl⟩

end Inlay
