import Inlay.Proofs.Compile.File
import Inlay.Proofs.Compile.Plan
import Inlay.Proofs.Settings.Checked
import Inlay.Proofs.Walk.Exact

/-!
# Batches

What one job keeps, a batch keeps (`exists_runOn_runJobs`), as long as no job breaks down and, with
failures at hand, the batch may go on. The command walks the folder, plans and runs the batch.
-/

namespace Inlay

variable [Host]

open Inlay.Action

/-! ### The report -/

namespace Report

theorem runOn_writeIfAsked {profile : Profile} (h : profile.Checked) (outcomes : List Outcome)
    (hq : profile.saveErrorLog = some false ∨ ∀ o ∈ outcomes, o.ok = true) (folder : Path)
    (s : Workspace) : (writeIfAsked profile folder outcomes).runOn s = (.ok [], s) := by
  obtain ⟨flag, hflag⟩ := h.saveErrorLog
  obtain ⟨name, hname⟩ := h.errorLogName
  unfold writeIfAsked
  rw [hflag, Option.getD_some]
  cases flag with
  | false => rfl
  | true =>
    have hok : outcomes.all (·.ok) = true := by
      refine List.all_eq_true.2 (hq.resolve_left ?_)
      rw [hflag]
      simp
    rw [if_pos rfl, runOn_bind_of_ok (runOn_need_some hname s), write, if_pos hok]
    rfl

end Report

namespace Compile

variable {compiler : Compiler} {profile : Profile}

/-! ### One job -/

/-- The names of an output are parts of paths, if those of its source and the extension are. -/
theorem isUsable_way {v : Volume} (hv : v.Tree) {place : Place} {source target : Text} {x : Stem}
    {content : Bytes} (hx : v.get? (place ++ x.way source) = some (.file content))
    (ht : Path.IsUsable target) : ∀ n ∈ x.way target, Path.IsUsable n := by
  obtain ⟨hfolders, hlast⟩ := List.forall_mem_append.1 (hv.sound.isUsable_below hx)
  rw [List.forall_mem_singleton, Path.isUsable_append] at hlast
  exact List.forall_mem_append.2
    ⟨hfolders, List.forall_mem_singleton.2 (Path.isUsable_append.2 ⟨hlast.1, ht⟩)⟩

theorem runOn_toOutcome_of_ok {job : Job} {s t : Workspace}
    (h : (compileFile compiler profile job).runOn s = (.ok (), t)) :
    (toOutcome compiler profile job).runOn s = (.ok (.compiled job.source job.output), t) := by
  unfold toOutcome
  rw [runOn_bind_of_ok (by rw [runOn_attempt, h])]
  rfl

theorem exists_runOn_toOutcome_of_error {job : Job} {s t : Workspace} {f : Failure}
    (h : (compileFile compiler profile job).runOn s = (.error f, t)) (hf : f.isOfFile = true) :
    ∃ record, (toOutcome compiler profile job).runOn s =
      (.ok (.failed job.source job.output f.message), t.logged record) := by
  unfold toOutcome
  rw [runOn_bind_of_ok (by rw [runOn_attempt, h])]
  simp only [hf, if_true]
  rw [runOn_bind_of_ok (runOn_log _ _ _ t)]
  exact ⟨_, rfl⟩

/-- What a job gives to its batch. -/
def settle (job : Job) : Except Failure Unit → Except Failure Outcome
  | .ok () => .ok (.compiled job.source job.output)
  | .error f =>
    if f.isOfFile then .ok (.failed job.source job.output f.message) else .error f

/-- An outcome names its job. -/
theorem paths_of_settle {job : Job} {result : Except Failure Unit} {o : Outcome}
    (h : settle job result = .ok o) : o.source = job.source ∧ o.output = job.output := by
  cases result with
  | ok _ =>
    rw [← Except.ok.inj h]
    exact ⟨rfl, rfl⟩
  | error f =>
    by_cases hf : f.isOfFile = true
    · rw [settle, if_pos hf] at h
      rw [← Except.ok.inj h]
      exact ⟨rfl, rfl⟩
    · rw [settle, if_neg hf] at h
      simp at h

theorem exists_runOn_toOutcome {s t : Workspace} {result : Except Failure Unit}
    (h : (compileFile compiler profile job).runOn s = (result, t)) :
    ∃ u, (toOutcome compiler profile job).runOn s = (settle job result, u) ∧
      u.volume = t.volume ∧ u.faults = t.faults := by
  cases result with
  | ok _ => exact ⟨t, runOn_toOutcome_of_ok h, rfl, rfl⟩
  | error f =>
    by_cases hf : f.isOfFile = true
    · obtain ⟨record, hrun⟩ := exists_runOn_toOutcome_of_error h hf
      exact ⟨t.logged record, by rw [hrun, settle, if_pos hf], t.logged_volume record,
        t.logged_faults record⟩
    · refine ⟨t, ?_, rfl, rfl⟩
      unfold toOutcome
      rw [runOn_bind_of_ok (by rw [runOn_attempt, h])]
      simp only [settle, if_neg hf]
      rfl

/-- A source below `place` that is decoded and transformed, with a free way for it below `goal`. -/
theorem exists_runOn_compileFile_added {v : Volume} (hv : v.Tree) {s : Workspace}
    (hs : s.faults = []) {input output : Path} {place goal : Place} {ways : List (List Text)}
    {made : List (List Text × Bytes)} (h : v.Added s.volume goal ways made)
    (hi : v.Leads input place) (ho : v.Leads output goal) (hg : v.get? goal = some .folder)
    {encoding : Text} (he : profile.encoding = some encoding) (hn : Encoding.IsName encoding)
    {codec : Codec} (hc : Encoding.find? encoding = some (.text codec)) {source target : Text}
    {x : Stem} {content : Bytes} (hx : v.get? (place ++ x.way source) = some (.file content))
    (hall : ∀ n ∈ x.way target, Path.IsUsable n) (hname : Path.IsName (x.kept ++ target))
    (hopen : ∀ lead, lead <+: x.folders → ¬ s.volume.FileAt (goal ++ lead))
    (hfree : s.volume.get? (goal ++ x.way target) = none) {text out : Text}
    (hd : codec.decode content = .ok text)
    (ht : transform compiler profile.tags (Path.descend input (x.way source)) text = .ok out) :
    ∃ t, (compileFile compiler profile ⟨Path.descend input (x.way source),
        Path.descend (Path.tidy output) (x.way target)⟩).runOn s = ((stored codec out).1, t) ∧
      t.faults = [] ∧ v.Added t.volume goal (ways ++ [x.way target])
        (made ++ [(x.way target, (stored codec out).2)]) := by
  have hli := h.extends'.leads hv h.tree hi
  have hlo := (h.extends'.leads hv h.tree ho).tidy
  have hread := h.tree.read_descend hli (h.extends'.get? _ _ hx)
  have hfolders : ∀ n ∈ x.folders, Path.IsName n := fun n hn =>
    hv.isName_below hx n (List.mem_append_left _ hn)
  have hrun : (compileFile compiler profile ⟨Path.descend input (x.way source),
      Path.descend (Path.tidy output) (x.way target)⟩).runOn s = _ :=
    runOn_compileFile hs he hn hc (h.tree.sound.isUsable_of_read hread) hread
  simp only [Stem.way] at ht hrun
  simp only [hd, ht] at hrun
  obtain ⟨w, t, hdel, htf, hgrown, hvol⟩ := exists_runOn_deliver h.tree hs (Path.tidied_tidy output)
    hlo (h.extends'.get? _ _ hg) hfolders hall hopen hn hc hname hfree
    (Path.descend input (x.way source)) out
  exact ⟨t, hrun.trans hdel, htf, by
    rw [hvol]; exact h.file hgrown hname (hall _ (by simp [Stem.way])) hfree _⟩

/-! ### All jobs -/

omit [Host] in
theorem not_mem_of_nodup {α : Type} {xs done rest : List α} {x : α} (hnodup : xs.Nodup)
    (heq : xs = done ++ x :: rest) : x ∉ done := by
  intro hm
  rw [heq] at hnodup
  exact (List.nodup_append.1 hnodup).2.2 x hm x (List.mem_cons_self ..) rfl

/-- An invariant of the jobs done, their outcomes and the volume. -/
theorem exists_runOn_runJobs {α : Type} {f : α → Job} {xs : List α} {failFast : Bool}
    (inv : List α → List Outcome → Volume → Prop)
    (hstep : ∀ done x rest outcomes s, xs = done ++ x :: rest → s.faults = [] →
      inv done outcomes s.volume →
      ∃ o t, (toOutcome compiler profile (f x)).runOn s = (.ok o, t) ∧ t.faults = [] ∧
        (failFast = false ∨ o.ok = true) ∧ inv (done ++ [x]) (outcomes ++ [o]) t.volume)
    {s : Workspace} (hs : s.faults = []) (h : inv [] [] s.volume) :
    ∃ outcomes t, (runJobs compiler profile failFast (xs.map f)).runOn s =
        (.ok (outcomes.map .ok), t) ∧ t.faults = [] ∧ inv xs outcomes t.volume := by
  -- By induction on the jobs that are left, with the invariant of those before them.
  suffices hall : ∀ rest done outcomes s, xs = done ++ rest → s.faults = [] →
      inv done outcomes s.volume →
      ∃ more t, (runJobs compiler profile failFast (rest.map f)).runOn s =
        (.ok (more.map .ok), t) ∧ t.faults = [] ∧ inv xs (outcomes ++ more) t.volume by
    simpa using hall xs [] [] s rfl hs h
  intro rest
  induction rest with
  | nil =>
    intro done outcomes s hxs hs hinv
    rw [List.append_nil] at hxs
    exact ⟨[], s, rfl, hs, by rw [hxs, List.append_nil]; exact hinv⟩
  | cons x rest ih =>
    intro done outcomes s hxs hs hinv
    obtain ⟨o, t, hrun, ht, hgo, hnext⟩ := hstep done x rest outcomes s hxs hs hinv
    obtain ⟨more, u, hmore, hu, hend⟩ :=
      ih (done ++ [x]) (outcomes ++ [o]) t (by simp [hxs]) ht hnext
    have hstop : (failFast && !o.ok) = false := by
      rcases hgo with hgo | hgo
      · rw [hgo, Bool.false_and]
      · rw [hgo, Bool.not_true, Bool.and_false]
    refine ⟨o :: more, u, ?_, hu, by simpa using hend⟩
    rw [List.map_cons, runJobs, runOn_bind_of_ok (by rw [runOn_attempt, hrun])]
    simp only [hstop, Bool.false_eq_true, if_false]
    rw [runOn_bind_of_ok hmore]
    rfl

/-! ### The whole batch -/

omit [Host] in
theorem outcomesOf_map_ok (outcomes : List Outcome) :
    outcomesOf (outcomes.map .ok) = .ok outcomes := by
  unfold outcomesOf
  induction outcomes with
  | nil => rfl
  | cons o outcomes ih =>
    rw [List.map_cons, List.mapM_cons, ih]
    rfl

omit [Host] in
theorem mem_sort {outcomes : List Outcome} {o : Outcome} :
    o ∈ Outcome.sort outcomes ↔ o ∈ outcomes :=
  List.mem_mergeSort

theorem exists_runOn_compileFiles (hc : profile.Checked) {source target : Text}
    (hs : profile.sourceExtension = some source) (ht : profile.targetExtension = some target)
    {failFast : Bool} (hf : profile.failFast = some failFast) {request : Request} {root : Path}
    {files : List Path} {jobs : List Job}
    (hplan : planJobs request.input root target source files = .ok jobs) {s : Workspace}
    {Q : List Outcome → Volume → Prop}
    (hquiet : ∀ outcomes v, Q outcomes v →
      (failFast = false ∧ profile.saveErrorLog = some false) ∨ ∀ o ∈ outcomes, o.ok = true)
    (hbatch : ∀ record, ∃ outcomes t,
      (runJobs compiler profile failFast jobs).runOn (s.logged record) =
        (.ok (outcomes.map .ok), t) ∧ t.faults = [] ∧ Q outcomes t.volume) :
    ∃ outcomes r t, (compileFiles request profile compiler root files).runOn s = (.ok r, t) ∧
      r.outcomes = Outcome.sort outcomes ∧ t.faults = [] ∧ Q outcomes t.volume := by
  have hjobs : (plan profile request.input root files).runOn s = (.ok jobs, s) := by
    unfold plan
    rw [runOn_bind_of_ok (runOn_need_some hs s), runOn_bind_of_ok (runOn_need_some ht s), hplan]
    rfl
  obtain ⟨outcomes, t, hrun, htf, hQ⟩ := hbatch ⟨Level.debug, logger,
    s!"Walk found {files.length} file(s), {jobs.length} to compile."⟩
  have hgo := hquiet outcomes t.volume hQ
  have hstop : (if failFast then outcomes.find? (!·.ok) else none) = none := by
    rcases hgo with ⟨hgo, _⟩ | hgo
    · rw [hgo]
      rfl
    · have hnone : outcomes.find? (!·.ok) = none := by
        rw [List.find?_eq_none]
        intro o ho
        simp [hgo o ho]
      rw [hnone, ite_self]
  have hwhole : (runBatch compiler profile failFast jobs).runOn (s.logged ⟨Level.debug, logger,
      s!"Walk found {files.length} file(s), {jobs.length} to compile."⟩) =
        (.ok (outcomes, none), t) := by
    unfold runBatch
    rw [runOn_bind_of_ok hrun, outcomesOf_map_ok]
    simp only [hstop]
    rfl
  have hreport := Report.runOn_writeIfAsked hc (Outcome.sort outcomes)
    (hgo.imp And.right fun hgo o ho => hgo o (mem_sort.1 ho)) root t
  unfold compileFiles
  rw [runOn_bind_of_ok hjobs, runOn_bind_of_ok (runOn_log _ _ _ s),
    runOn_bind_of_ok (runOn_need_some hf _), runOn_bind_of_ok hwhole]
  simp only
  rw [runOn_bind_of_ok hreport, runOn_bind_of_ok (runOn_log _ _ _ t)]
  exact ⟨outcomes, _, _, rfl, rfl, by rw [Workspace.logged_faults, htf],
    by rw [Workspace.logged_volume]; exact hQ⟩

/-! ### The command -/

/-- The compiler that a command works with. -/
def chosen (reference : Option Text) : Option Compiler → Action Compiler
  | some compiler => pure compiler
  | none => do loadCompiler (← need Setting.compiler reference)

/-- A compilation with its compiler at hand. -/
def compileWith (request : Request) (profile : Profile) (compiler : Compiler) : Action Result := do
  let v := (← get).volume
  if v.isFile request.input then compileSingle request profile compiler
  else if v.isFolder request.input then compileFolder request profile compiler
  else throw (.path (.notCompilable request.input))

theorem compilePath_eq (request : Request) (profile : Profile) (choice : Option Compiler) :
    compilePath request profile choice =
      chosen profile.compiler choice >>= compileWith request profile := by
  cases choice with
  | some compiler => rfl
  | none => exact (bind_assoc _ _ _).symm

/-- The compiler that a command is given, or else the one that the settings name. -/
def Uses (profile : Profile) (s : Workspace) (choice : Option Compiler) (compiler : Compiler) :
    Prop :=
  match choice with
  | some c => c = compiler
  | none => ∃ reference fromModule, profile.compiler = some reference ∧
      Compiler.resolve s.modules s.registry reference = .ok (compiler, fromModule)

theorem exists_runOn_loadCompiler {s : Workspace} {reference : Text} {fromModule : Bool}
    (h : Compiler.resolve s.modules s.registry reference = .ok (compiler, fromModule)) :
    ∃ t, (loadCompiler reference).runOn s = (.ok compiler, t) ∧ t.volume = s.volume ∧
      t.faults = s.faults := by
  unfold loadCompiler
  rw [runOn_bind_of_ok (runOn_get s), h]
  cases fromModule with
  | false => exact ⟨s, rfl, rfl, rfl⟩
  | true => exact ⟨_, rfl, Workspace.logged_volume _ _, Workspace.logged_faults _ _⟩

theorem exists_runOn_compilePath_eq {choice : Option Compiler} {s : Workspace}
    (hchoice : Uses profile s choice compiler) {request : Request}
    (hfile : s.volume.isFile request.input = false)
    (hfolder : s.volume.isFolder request.input = true) :
    ∃ t, t.volume = s.volume ∧ t.faults = s.faults ∧
      (compilePath request profile choice).runOn s =
        (compileFolder request profile compiler).runOn t := by
  have hwith (t : Workspace) (hvolume : t.volume = s.volume) :
      (compileWith request profile compiler).runOn t =
        (compileFolder request profile compiler).runOn t := by
    unfold compileWith
    rw [runOn_bind_of_ok (runOn_get t)]
    simp only [hvolume, hfile, hfolder, Bool.false_eq_true, if_false, if_true]
  rw [compilePath_eq]
  cases choice with
  | some c =>
    obtain rfl : c = compiler := hchoice
    exact ⟨s, rfl, rfl, hwith s rfl⟩
  | none =>
    obtain ⟨reference, fromModule, href, hresolve⟩ := hchoice
    obtain ⟨t, hload, hvolume, hfaults⟩ := exists_runOn_loadCompiler hresolve
    have hchosen : (chosen profile.compiler none).runOn s = (.ok compiler, t) := by
      unfold chosen
      rw [runOn_bind_of_ok (runOn_need_some href s), hload]
    exact ⟨t, hvolume, hfaults, by rw [runOn_bind_of_ok hchosen, hwith t hvolume]⟩

/-- A folder is compiled by walking it and compiling the files of the walk. -/
theorem exists_runOn_compilePath {choice : Option Compiler} {s : Workspace}
    (hchoice : Uses profile s choice compiler) (h : s.volume.Tree) (hs : s.faults = [])
    {request : Request} {place : Place} (hl : s.volume.Leads request.input place)
    (hp : s.volume.get? place = some .folder) (hc : profile.Checked) {root : Path}
    (hroot : ∀ t : Workspace, t.volume = s.volume →
      (outputRoot request.input request.output).runOn t = (.ok root, t)) :
    ∃ (ways : List (List Text)) (t : Workspace), ways.Nodup ∧
      (∀ way, way ∈ ways ↔ ∃ content, s.volume.get? (place ++ way) = some (.file content)) ∧
      (∀ way ∈ ways, way ≠ [] ∧ ∀ n ∈ way, Path.IsName n) ∧ t.volume = s.volume ∧ t.faults = [] ∧
      (compilePath request profile choice).runOn s =
        (compileFiles request profile compiler root
          (ways.map (Path.descend request.input))).runOn t := by
  have hfile : s.volume.isFile request.input = false := by
    rw [Volume.isFile, h.stat_of_leads hl hp fun _ => rfl]
  obtain ⟨t, hvolume, hfaults, hrun⟩ := exists_runOn_compilePath_eq hchoice hfile
    (h.isFolder_of_leads hl hp)
  have hroot := hroot t hvolume
  rw [← hvolume] at h hl hp ⊢
  obtain ⟨ways, hwalk, hnodup, hmem, hnames⟩ := Walk.exists_runOn_walkFiles
    (s := t.logged ⟨Level.info, logger,
      s!"Compiling directory: {str request.input} -> {str root}"⟩)
    (by rwa [Workspace.logged_volume]) (by rw [Workspace.logged_faults, hfaults, hs])
    (by rwa [Workspace.logged_volume]) hc (by rwa [Workspace.logged_volume])
  rw [Workspace.logged_volume] at hmem
  refine ⟨ways, t.logged ⟨Level.info, logger,
    s!"Compiling directory: {str request.input} -> {str root}"⟩, hnodup, hmem, hnames,
    Workspace.logged_volume _ _, by rw [Workspace.logged_faults, hfaults, hs], ?_⟩
  rw [hrun]
  unfold compileFolder
  rw [runOn_bind_of_ok hroot, runOn_bind_of_ok (runOn_log _ _ _ t),
    runOn_bind_of_ok (by rw [runOn_attempt, hwalk])]

end Compile

end Inlay
