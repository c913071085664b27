import Inlay.Proofs.Compile.Tasks
import Inlay.Proofs.Text.Ordering
import Mathlib

/-!
# The order of a batch

A batch does its jobs in any order. As long as no output is a folder on the way to another one, and
none is a source, the order changes neither the outcomes nor the files
(`batch_order_irrelevant`).
-/

namespace Inlay

variable [Host]

open Inlay.Action

/-! ### Sorted outcomes -/

omit [Host] in
theorem Outcome.sort_eq_of_perm {outcomes outcomes' : List Outcome} (h : outcomes.Perm outcomes')
    (hs : ∀ a ∈ outcomes, ∀ b ∈ outcomes, a.source = b.source → a = b) :
    sort outcomes = sort outcomes' := by
  have hsorted (xs : List Outcome) : (sort xs).Pairwise fun a b => a.source ≤ b.source :=
    Text.pairwise_sorted _ xs
  have hsame : (sort outcomes).Perm (sort outcomes') :=
    ((List.mergeSort_perm _ _).trans h).trans (List.mergeSort_perm _ _).symm
  apply hsame.eq_of_pairwise ?_ (hsorted _) (hsorted _)
  intro a b ha hb hab hba
  exact hs a (List.mem_mergeSort.1 ha) b (h.mem_iff.2 (List.mem_mergeSort.1 hb))
    (le_antisymm hab hba)

namespace Compile

variable {compiler : Compiler} {profile : Profile} {encoding : Text} {plan : List PlannedFault}
  {root : Path} {v : Volume}

/-- No output is above or equal to that of another job, and as normalised paths none is a source. -/
structure Unblocked (v : Volume) (jobs : List Job) : Prop where
  outputs : ∀ a ∈ jobs, ∀ b ∈ jobs, a ≠ b →
    ¬ Path.components a.output <+: Path.components b.output
  sources : ∀ a ∈ jobs, ∀ b ∈ jobs, v.normal a.output ≠ v.normal b.source

instance (v : Volume) (jobs : List Job) : Decidable (Unblocked v jobs) :=
  decidable_of_iff
    ((∀ a ∈ jobs, ∀ b ∈ jobs, a ≠ b → ¬ Path.components a.output <+: Path.components b.output) ∧
      ∀ a ∈ jobs, ∀ b ∈ jobs, v.normal a.output ≠ v.normal b.source)
    ⟨fun ⟨ho, hs⟩ => ⟨ho, hs⟩, fun ⟨ho, hs⟩ => ⟨ho, hs⟩⟩

omit [Host] in
theorem Unblocked.perm {jobs order : List Job} (h : Unblocked v jobs) (hp : order.Perm jobs) :
    Unblocked v order where
  outputs := fun a ha b hb => h.outputs a (hp.mem_iff.1 ha) b (hp.mem_iff.1 hb)
  sources := fun a ha b hb => h.sources a (hp.mem_iff.1 ha) b (hp.mem_iff.1 hb)

/-- The result of a job alone. -/
def alone (compiler : Compiler) (profile : Profile) (s : Workspace) (job : Job) :
    Except Failure Outcome :=
  ((toOutcome compiler profile job).runOn s).1

theorem source_of_alone {s : Workspace} {job : Job} {o : Outcome}
    (h : alone compiler profile s job = .ok o) : o.source = job.source := by
  cases hrun : (compileFile compiler profile job).runOn s with
  | mk result t =>
    obtain ⟨u, hsettled, _⟩ := exists_runOn_toOutcome hrun
    rw [alone, hsettled] at h
    exact (paths_of_settle h).1

/-- Outcomes of different sources are in one order only once they are sorted. -/
theorem sort_alone_eq_of_perm {s : Workspace} {jobs jobs' : List Job} (h : jobs.Perm jobs')
    (hn : (jobs.map Job.source).Nodup) :
    Outcome.sort ((jobs.map (alone compiler profile s)).filterMap Except.toOption) =
      Outcome.sort ((jobs'.map (alone compiler profile s)).filterMap Except.toOption) := by
  have job_of {o : Outcome}
      (ho : o ∈ (jobs.map (alone compiler profile s)).filterMap Except.toOption) :
      ∃ job ∈ jobs, alone compiler profile s job = .ok o := by
    obtain ⟨result, hr, hsome⟩ := List.mem_filterMap.1 ho
    obtain ⟨job, hjob, rfl⟩ := List.mem_map.1 hr
    refine ⟨job, hjob, ?_⟩
    cases hres : alone compiler profile s job with
    | error f => simp [hres, Except.toOption] at hsome
    | ok o' => simpa [hres, Except.toOption] using hsome
  apply Outcome.sort_eq_of_perm ((h.map _).filterMap _)
  intro a ha b hb hab
  obtain ⟨x, hx, hxa⟩ := job_of ha
  obtain ⟨y, hy, hyb⟩ := job_of hb
  rw [source_of_alone hxa, source_of_alone hyb] at hab
  have hxy := List.inj_on_of_nodup_map hn hx hy hab
  rw [hxy, hyb] at hxa
  exact (Except.ok.inj hxa).symm

/-! ### Jobs whose order shows -/

/-- In one order two jobs leave something else at some place than in the other one. -/
def Shows (compiler : Compiler) (profile : Profile) (s : Workspace) (a b : Job) : Prop :=
  ∃ results results' t t' p,
    (runJobs compiler profile false [a, b]).runOn s = (.ok results, t) ∧
    (runJobs compiler profile false [b, a]).runOn s = (.ok results', t') ∧
    t.volume.get? p ≠ t'.volume.get? p

theorem exists_runOn_pair {a b : Job} {s : Workspace}
    (ha : ((compileFile compiler profile a).runOn s).1 = .ok ()) :
    ∃ results t, (runJobs compiler profile false [a, b]).runOn s = (.ok results, t) ∧
      t.volume = ((compileFile compiler profile b).runOn
        ((compileFile compiler profile a).runOn s).2).2.volume := by
  cases hrun : (compileFile compiler profile a).runOn s with
  | mk result t =>
    rw [hrun] at ha
    obtain rfl : result = .ok () := ha
    cases hmore : (compileFile compiler profile b).runOn t with
    | mk result' u =>
      obtain ⟨w, hsecond, hvolume, _⟩ := exists_runOn_toOutcome hmore
      have hrest : (runJobs compiler profile false []).runOn w = (.ok [], w) := rfl
      have hpair := runOn_runJobs_cons (runOn_toOutcome_of_ok hrun)
        (runOn_runJobs_cons hsecond hrest)
      exact ⟨_, w, hpair, hvolume⟩

theorem shows_of_get? {s : Workspace} {a b : Job}
    (ha : ((compileFile compiler profile a).runOn s).1 = .ok ())
    (hb : ((compileFile compiler profile b).runOn s).1 = .ok ()) (p : Place) {e f : Option Entry}
    (hab : ((compileFile compiler profile b).runOn
      ((compileFile compiler profile a).runOn s).2).2.volume.get? p = e)
    (hba : ((compileFile compiler profile a).runOn
      ((compileFile compiler profile b).runOn s).2).2.volume.get? p = f)
    (hne : e ≠ f) : Shows compiler profile s a b := by
  obtain ⟨results, t, hrun, hvolume⟩ := exists_runOn_pair (b := b) ha
  obtain ⟨results', t', hrun', hvolume'⟩ := exists_runOn_pair (b := a) hb
  refine ⟨results, results', t, t', p, hrun, hrun', ?_⟩
  rwa [hvolume, hvolume', hab, hba]

/-! ### Any order -/

namespace Task

variable {tasks : List (Task compiler profile encoding plan root v)}

theorem clear_of_unblocked (h : Unblocked v (tasks.map (·.job)))
    {x y : Task compiler profile encoding plan root v} (hx : x ∈ tasks) (hy : y ∈ tasks)
    (hne : x.job ≠ y.job) : x.route.Clear y.route := by
  have hxm := List.mem_map_of_mem (f := (·.job)) hx
  have hym := List.mem_map_of_mem (f := (·.job)) hy
  intro hn
  constructor
  · rw [← Route.normal_of_isName hn, ← normal_output x.takes, ← normal_source y.takes]
    exact h.sources _ hxm _ hym
  · -- Both outputs are spelled from the same root.
    have hgoal := x.takes.leads.unique y.takes.leads
    have hspelled := h.outputs _ hxm _ hym hne
    rw [x.takes.output, y.takes.output, Path.components_descend root x.route.isPiece,
      Path.components_descend root y.route.isPiece, List.prefix_append_right_inj] at hspelled
    rw [Route.destination, Route.destination, hgoal, List.prefix_append_right_inj]
    exact hspelled

theorem pairwise_clear (h : Unblocked v (tasks.map (·.job))) (hn : (tasks.map (·.job)).Nodup) :
    tasks.Pairwise Clear := by
  apply (List.pairwise_map.1 hn).imp_of_mem
  intro x y hx hy hne
  exact ⟨clear_of_unblocked h hx hy hne, clear_of_unblocked h hy hx (Ne.symm hne)⟩

/-- Every order of the jobs is one of the tasks, and has the same effects. -/
theorem exists_runOn_order (h : Unblocked v (tasks.map (·.job)))
    (hn : (tasks.map (·.job)).Nodup) (hv : v.Tree) {s : Workspace} (hs : s.volume = v)
    (hl : Lasts plan s.faults) {order : List Job} (horder : order.Perm (tasks.map (·.job))) :
    ∃ t es, (runJobs compiler profile false order).runOn s =
        (.ok (order.map (alone compiler profile s)), t) ∧
      v.Merged t.volume es ∧ ∀ e, e ∈ es ↔ e ∈ tasks.map (·.effect) := by
  have hlift := congrFun (congrFun (List.eq_map_comp_perm
    (fun x : Task compiler profile encoding plan root v => x.job)) order) tasks
  obtain ⟨arranged, rfl, hperm⟩ := hlift.mpr horder
  have hclear := pairwise_clear (h.perm horder) (horder.nodup_iff.2 hn)
  obtain ⟨t, hrun, hmerged⟩ := exists_runOn_runJobs hclear hv hs hl
  refine ⟨t, _, ?_, hmerged, fun e => (hperm.map _).mem_iff⟩
  have hresults : (arranged.map fun x => settle x.job x.result) =
      (arranged.map (·.job)).map (alone compiler profile s) := by
    rw [List.map_map]
    apply List.map_congr_left
    intro x _
    obtain ⟨u, halone, _⟩ := x.exists_alone hs hl
    rw [Function.comp_apply, alone, halone]
  rw [hrun, hresults]

end Task

/-- The order of a batch changes neither the result of a job nor what stands anywhere in the end. -/
theorem batch_order_irrelevant {mode : CheckMode} {given : Value} {table : Table}
    {findings : List Finding} (hcheck : checkSettings mode given = .ok (table, findings))
    {source target : Text} (ht : (Profile.ofTable table).targetExtension = some target)
    (hst : '/' ∉ target ∧ '\\' ∉ target) (compiler : Compiler) {s : Workspace}
    (hfaults : ∀ f ∈ s.faults, f.left = none) {input output : Path} {place goal : Place}
    (hg : Grounds s.volume input output place goal) {files : List Path} {w : Workspace}
    (hwalk : (walkFiles (Profile.ofTable table) input).runOn { s with faults := [] } =
      (.ok files, w)) {jobs order order' : List Job}
    (hplan : planJobs input output target source files = .ok jobs)
    (hjobs : Unblocked s.volume jobs) (h : order.Perm jobs) (h' : order'.Perm jobs) :
    ∃ t t', (runJobs compiler (Profile.ofTable table) false order).runOn s =
        (.ok (order.map (alone compiler (Profile.ofTable table) s)), t) ∧
      (runJobs compiler (Profile.ofTable table) false order').runOn s =
        (.ok (order'.map (alone compiler (Profile.ofTable table) s)), t') ∧
      (∀ p, t.volume.get? p = t'.volume.get? p) ∧
      Outcome.sort ((order.map (alone compiler (Profile.ofTable table) s)).filterMap
          Except.toOption) =
        Outcome.sort ((order'.map (alone compiler (Profile.ofTable table) s)).filterMap
          Except.toOption) := by
  have hprofile := checked_of_checkSettings hcheck
  obtain ⟨encoding, he, hencoding⟩ := hprofile.encoding
  obtain ⟨hsources, htakes⟩ :=
    exists_takes_of_planJobs hg hprofile ht hst (s := { s with faults := [] }) rfl rfl hwalk hplan
  have hnodup : jobs.Nodup := hsources.of_map Job.source
  obtain ⟨tasks, rfl⟩ :=
    exists_tasks he hencoding.zeroFree compiler s.faults fun job hm => (htakes job hm).1
  have hl : Lasts s.faults s.faults := Lasts.refl hfaults
  obtain ⟨t, es, hrun, hmerged, hes⟩ :=
    Task.exists_runOn_order hjobs hnodup hg.tree rfl hl h
  obtain ⟨t', es', hrun', hmerged', hes'⟩ :=
    Task.exists_runOn_order hjobs hnodup hg.tree rfl hl h'
  refine ⟨t, t', hrun, hrun', hmerged.unique hmerged' fun e => (hes e).trans (hes' e).symm, ?_⟩
  exact sort_alone_eq_of_perm (h.trans h'.symm) ((h.map Job.source).nodup_iff.2 hsources)

end Compile

end Inlay

namespace Inlay.Compile

open Inlay.Standard Inlay.Action

namespace Sample

/-- An input folder and an output folder, with some entries in them. -/
def folders (entries : List (List String × Entry)) : Workspace :=
  .holding ((["in"], .folder) :: (["out"], .folder) :: entries |>.map fun (names, entry) =>
    (names.map String.toList, entry))

def letter (c : Char) : Entry :=
  .file (Utf8.encode [c])

/-- The default settings with another target extension. -/
def targeting (target : String) : Table :=
  Setting.defaults.set Setting.targetExtension (.text target.toList)

def job (source output : String) : Job :=
  ⟨source.toList, output.toList⟩

/-- A source, and another one in a folder beside it. -/
def twoSources : Workspace :=
  folders [(["in", "a.tea"], letter 'x'), (["in", "sub"], .folder),
    (["in", "sub", "b.tea"], letter 'y')]

def upper : Job :=
  job "in/a.tea" "out/a.php"

def lower : Job :=
  job "in/sub/b.tea" "out/sub/b.php"

end Sample

open Sample

theorem batch_order_irrelevant_of_two :
    ∃ t t', (runJobs .passthrough (Profile.ofTable Setting.defaults) false
        [upper, lower]).runOn twoSources =
        (.ok [settle upper (.ok ()), settle lower (.ok ())], t) ∧
      (runJobs .passthrough (Profile.ofTable Setting.defaults) false
        [lower, upper]).runOn twoSources =
        (.ok [settle lower (.ok ()), settle upper (.ok ())], t') ∧
      ∀ p, t.volume.get? p = t'.volume.get? p := by
  have hcheck : checkSettings .lenient (.table []) = .ok (Setting.defaults, []) := rfl
  have hg : Grounds twoSources.volume "in".toList "out".toList ["in".toList] ["out".toList] := {
    tree := by decide
    plain := fun _ _ => Volume.forall_names_of_entries (by decide)
    root := by decide
    input := ⟨by decide, by cbv⟩
    folder := rfl
    output := ⟨by decide, by cbv⟩
    goal := rfl }
  have hwalk : (walkFiles (Profile.ofTable Setting.defaults) "in".toList).runOn twoSources =
      (.ok [upper.source, lower.source], twoSources) := by cbv
  have hplan : planJobs "in".toList "out".toList ".php".toList ".tea".toList
      [upper.source, lower.source] = .ok [upper, lower] := by cbv
  have hupper : alone .passthrough (Profile.ofTable Setting.defaults) twoSources upper =
      settle upper (.ok ()) := by cbv
  have hlower : alone .passthrough (Profile.ofTable Setting.defaults) twoSources lower =
      settle lower (.ok ()) := by cbv
  obtain ⟨t, t', hrun, hrun', hsame, _⟩ := batch_order_irrelevant hcheck rfl (by decide)
    .passthrough (by decide) hg hwalk hplan (by decide) (List.Perm.refl _) (List.Perm.swap _ _ _)
  simp only [List.map_cons, List.map_nil, hupper, hlower] at hrun hrun'
  exact ⟨t, t', hrun, hrun', hsame⟩

/-! ### Samples whose order shows -/

/-- A folder without faults and settings that a check accepts, with two sources whose planned
outputs differ and are no sources. The order of their jobs shows. -/
structure Entangled (target output : String) (s : Workspace) (a b : Job) : Prop where
  settings : checkSettings .strict (.table [(Setting.targetExtension, .text target.toList)]) =
    .ok (targeting target, []) := by rfl
  goesOn : (Profile.ofTable (targeting target)).failFast = some false := by rfl
  faults : s.faults = [] := by rfl
  folder : s.volume.isFolder output.toList = true := by cbv
  walk : (walkFiles (Profile.ofTable (targeting target)) "in".toList).runOn s =
    (.ok [a.source, b.source], s) := by cbv
  plan : planJobs "in".toList output.toList target.toList ".tea".toList [a.source, b.source] =
    .ok [a, b] := by cbv
  distinct : a.output ≠ b.output := by decide
  sources : ∀ x ∈ [a, b], ∀ y ∈ [a, b], x.output ≠ y.source := by decide
  shows : Shows .passthrough (Profile.ofTable (targeting target)) s a b

namespace Sample

/-- The output of the first job stands where the second one needs a folder. -/
def ancestor : Workspace :=
  folders [(["in", "a.tea"], letter 'x'), (["in", "a.php"], .folder),
    (["in", "a.php", "b.tea"], letter 'y')]

/-- The output of the first job is the second source, by another spelling. -/
def respelled : Workspace :=
  folders [(["in", "a.tea"], letter 'x'), (["in", "a.min.tea"], letter 'y')]

/-- The output of the first job is a link to that of the second one. -/
def linked : Workspace :=
  folders [(["in", "a.tea"], letter 'x'), (["in", "b.tea"], letter 'y'),
    (["out", "a.php"], .link "b.php".toList)]

/-- The way to the second output goes through a folder where the first one stands. -/
def backslashed : Workspace :=
  folders [(["in", "d.tea"], letter 'x'), (["in", "e\\..\\d.php\\..\\b.tea"], letter 'y')]

/-- With a target extension that climbs, the way to the first output goes through a folder where
the second one stands. -/
def climbing : Workspace :=
  folders [(["in", "p.tea"], letter 'x'), (["in", "s"], .folder),
    (["in", "s", "u.tea"], letter 'y')]

end Sample

theorem entangled_ancestor : Entangled ".php" "out" ancestor (job "in/a.tea" "out/a.php")
    (job "in/a.php/b.tea" "out/a.php/b.php") where
  shows := shows_of_get? (by cbv) (by cbv) ["out".toList, "a.php".toList] (e := some (letter 'x'))
    (f := some .folder) (by cbv) (by cbv) (by decide)

theorem entangled_respelled : Entangled ".min.tea" "./in" respelled
    (job "in/a.tea" "./in/a.min.tea") (job "in/a.min.tea" "./in/a.min.min.tea") where
  shows := shows_of_get? (by cbv) (by cbv) ["in".toList, "a.min.min.tea".toList]
    (e := some (letter 'x')) (f := some (letter 'y')) (by cbv) (by cbv) (by decide)

theorem entangled_linked :
    Entangled ".php" "out" linked (job "in/a.tea" "out/a.php") (job "in/b.tea" "out/b.php") where
  shows := shows_of_get? (by cbv) (by cbv) ["out".toList, "b.php".toList] (e := some (letter 'y'))
    (f := some (letter 'x')) (by cbv) (by cbv) (by decide)

theorem entangled_backslashed : Entangled ".php" "out" backslashed (job "in/d.tea" "out/d.php")
    (job "in/e\\..\\d.php\\..\\b.tea" "out/e/../d.php/../b.php") where
  shows := shows_of_get? (by cbv) (by cbv) ["out".toList, "d.php".toList] (e := some (letter 'x'))
    (f := some .folder) (by cbv) (by cbv) (by decide)

theorem entangled_climbing : Entangled ".php/../../p.php" "out" climbing
    (job "in/p.tea" "out/p.php/../../p.php") (job "in/s/u.tea" "out/s/u.php/../../p.php") where
  shows := shows_of_get? (by cbv) (by cbv) ["out".toList, "p.php".toList] (e := some .folder)
    (f := some (letter 'y')) (by cbv) (by cbv) (by decide)

/-- Neither as they are spelled nor as normalised paths do the outputs meet, and still the order
shows. -/
structure Hidden (target : String) (s : Workspace) (a b : Job) : Prop
    extends Entangled target "out" s a b where
  unblocked : Unblocked s.volume [a, b] := by decide
  apart : Apart s.volume [a, b] := by decide

/-- The order shows where an output is a folder on the way to another one, or a source by another
spelling. It also may where there is a link, a backslash in a name, or a separator in the target
extension. -/
theorem exists_order_dependence :
    Entangled ".php" "out" ancestor (job "in/a.tea" "out/a.php")
      (job "in/a.php/b.tea" "out/a.php/b.php") ∧
    Entangled ".min.tea" "./in" respelled (job "in/a.tea" "./in/a.min.tea")
      (job "in/a.min.tea" "./in/a.min.min.tea") ∧
    Hidden ".php" linked (job "in/a.tea" "out/a.php") (job "in/b.tea" "out/b.php") ∧
    Hidden ".php" backslashed (job "in/d.tea" "out/d.php")
      (job "in/e\\..\\d.php\\..\\b.tea" "out/e/../d.php/../b.php") ∧
    Hidden ".php/../../p.php" climbing (job "in/p.tea" "out/p.php/../../p.php")
      (job "in/s/u.tea" "out/s/u.php/../../p.php") :=
  ⟨entangled_ancestor, entangled_respelled, { entangled_linked with },
    { entangled_backslashed with }, { entangled_climbing with }⟩

end Inlay.Compile
