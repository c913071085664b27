import Inlay.Proofs.Command.Counters
import Inlay.Proofs.Compile.Tasks
import Inlay.Proofs.Volume.NormalForm
import Mathlib

/-!
# Failures stay with their jobs

If as normalised paths no output of a batch is above or equal to another one and none is a source,
then each job gets the outcome that it gets alone, in every order and whatever fails, and its output
ends as it does alone (`batch_isolated`).
-/

namespace Inlay

variable [Host]

open Inlay.Action

/-! ### Normal forms of routes -/

namespace Route

variable {a b r : Route}

/-- Where looking at the end of the route arrives. -/
def landing (r : Route) : Place := Volume.landing (r.goal ++ r.folders) r.name

/-- Without a proper name the route ends at its last folder or above it. -/
theorem normal_prefix_of_not (hg : ∀ n ∈ r.goal, Path.IsName n) (h : ¬ Path.IsName r.name) :
    r.normal <+: r.goal ++ r.folders := by
  have hnames : ∀ n ∈ r.goal ++ r.folders, Path.IsName n :=
    List.forall_mem_append.2 ⟨hg, r.proper⟩
  rw [normal, Path.climb_append, Path.climb_names r.proper, List.reverse_reverse]
  by_cases hh : r.name = Path.here
  · rw [hh, Path.climb_here]
    simp [Path.climb]
  · have ha : r.name = Path.above := by
      by_contra ha
      exact h ⟨r.piece.1, r.piece.2, hh, ha⟩
    rw [ha, Path.climb_above hnames, Path.climb, List.reverse_reverse]
    exact List.dropLast_prefix _

theorem normal_prefix_landing (hg : ∀ n ∈ r.goal, Path.IsName n) : r.normal <+: r.landing := by
  unfold landing Volume.landing
  by_cases hn : Path.IsName r.name
  · rw [if_pos hn, normal_of_isName hn, destination, List.append_assoc]
  · rw [if_neg hn]
    exact normal_prefix_of_not hg hn

/-- As normalised paths the ends of the routes are not above each other, and they are not the
sources. -/
structure Apart (a b : Route) : Prop where
  below : ¬ a.normal <+: b.normal
  above : ¬ b.normal <+: a.normal
  source : a.normal ≠ b.origin

theorem not_comparable (h : Apart a b) {p : Place} (ha : a.normal <+: p) (hb : b.normal <+: p) :
    False := by
  rcases List.prefix_or_prefix_of_prefix ha hb with hp | hp
  · exact h.below hp
  · exact h.above hp

theorem Apart.clear (h : Apart a b) (hg : ∀ n ∈ b.goal, Path.IsName n) : a.Clear b := by
  intro hn
  have hsource := h.source
  have hbelow := h.below
  rw [normal_of_isName hn] at hsource hbelow
  refine ⟨hsource, ?_⟩
  intro hp
  by_cases hb : Path.IsName b.name
  · rw [normal_of_isName hb] at hbelow
    exact hbelow hp
  · -- The end of the second route is its last folder, or above it.
    have hne : a.destination ≠ b.destination := by
      intro heq
      rw [destination, destination, ← List.append_assoc, ← List.append_assoc] at heq
      have hnames := (List.append_inj' heq rfl).2
      simp only [List.cons.injEq, and_true] at hnames
      exact hb (hnames ▸ hn)
    have hup : a.destination <+: b.goal ++ b.folders := by
      have hend : b.destination = b.goal ++ b.folders ++ [b.name] := by
        rw [destination, List.append_assoc]
      rw [hend] at hp hne
      exact (List.prefix_concat_iff.1 hp).resolve_left hne
    rw [← normal_of_isName hn] at hup
    exact not_comparable h hup (normal_prefix_of_not hg hb)

/-- Nothing of the one is put where looking at the end of the other arrives. -/
theorem Apart.effect_landing (h : Apart a b) (ha : ∀ n ∈ a.goal, Path.IsName n)
    (hb : ∀ n ∈ b.goal, Path.IsName n) {plan : List PlannedFault} {v : Volume} {root : Path}
    {e : Effect} (he : e.Belongs plan v root a) : e b.landing = none := by
  have hland := normal_prefix_landing hb
  cases hentry : e b.landing with
  | none => rfl
  | some entry =>
    rcases he _ entry hentry with ⟨_, lead, hlead, hp, _⟩ | ⟨_, hn, hp⟩
    · have hfolders : b.normal <+: a.goal ++ a.folders := by
        rw [hp] at hland
        exact hland.trans ((List.prefix_append_right_inj a.goal).2 hlead)
      by_cases hn : Path.IsName a.name
      · have habove := hfolders.trans a.folders_prefix_destination
        rw [← normal_of_isName hn] at habove
        exact absurd habove h.above
      · exact (not_comparable h (normal_prefix_of_not ha hn) hfolders).elim
    · rw [hp, ← normal_of_isName hn] at hland
      exact absurd hland h.above

end Route

namespace Compile

variable {compiler : Compiler} {profile : Profile} {encoding : Text} {plan : List PlannedFault}
  {root : Path} {v t u : Volume}

/-! ### A job of the batch and the job alone -/

namespace Task

variable {tasks : List (Task compiler profile encoding plan root v)}
  {x : Task compiler profile encoding plan root v} (hx : x ∈ tasks)
  (ht : v.Merged t (tasks.map (·.effect))) (hu : v.Changed u x.effect)
include hx ht hu

theorem get?_eq_alone {p : Place} (hp : ∀ y ∈ tasks, y ≠ x → y.effect p = none) :
    t.get? p = u.get? p := by
  cases he : x.effect p with
  | some entry =>
    rw [ht.made _ (List.mem_map_of_mem hx) p entry he, hu.get?_of_some he]
  | none =>
    rw [hu.get?_of_none he]
    apply ht.other p
    intro e hm
    obtain ⟨y, hy, rfl⟩ := List.mem_map.1 hm
    by_cases hyx : y = x
    · rw [hyx, he]
    · exact hp y hy hyx

theorem fileAt_iff_alone (hc : ∀ y ∈ tasks, y ≠ x → y.Clear x) {lead : List Text}
    (hlead : lead <+: x.route.folders) :
    t.FileAt (x.route.goal ++ lead) ↔ u.FileAt (x.route.goal ++ lead) := by
  by_cases hp : ∀ y ∈ tasks, y ≠ x → y.effect (x.route.goal ++ lead) = none
  · rw [Volume.FileAt, Volume.FileAt, get?_eq_alone hx ht hu hp]
  · -- Another job has put a folder there, and only if no file was in its way.
    push Not at hp
    obtain ⟨y, hy, hyx, hsome⟩ := hp
    obtain ⟨entry, hentry⟩ := Option.ne_none_iff_exists'.1 hsome
    have hfolder := (y.told.belongs.folder_of_clear (hc y hy hyx).1 hentry
      (Or.inr (x.route.lead_prefix hlead))).1
    have hthere := ht.made _ (List.mem_map_of_mem hy) _ _ hentry
    rw [hfolder] at hthere
    refine ⟨fun hf => absurd hthere hf.not_folder, ?_⟩
    intro hf
    cases he : x.effect (x.route.goal ++ lead) with
    | some entry' =>
      have hmade := ht.made _ (List.mem_map_of_mem hx) _ _ he
      rw [Volume.FileAt, hu.get?_of_some he, ← hmade] at hf
      exact hf
    | none =>
      rw [Volume.FileAt, hu.get?_of_none he] at hf
      exact ht.persists.file _ hf

/-- Looking at the output gives the same after the batch as after the job alone. -/
theorem stat_eq_alone (ha : ∀ y ∈ tasks, y ≠ x → y.route.Apart x.route ∧ x.route.Apart y.route)
    (hg : ∀ y ∈ tasks, ∀ n ∈ y.route.goal, Path.IsName n) :
    t.stat x.job.output = u.stat x.job.output := by
  have hv := x.takes.tree
  have htt := ht.tree hv
  have huu := hu.tree hv
  have hgoal : v.get? x.route.goal ≠ none := by simp [x.takes.goal]
  have hlt := ht.persists.leads hv htt hgoal x.takes.leads
  have hlu := hu.persists.leads hv huu hgoal x.takes.leads
  have hclear : ∀ y ∈ tasks, y ≠ x → y.Clear x := fun y hy hyx =>
    ⟨(ha y hy hyx).1.clear (hg x hx), (ha y hy hyx).2.clear (hg y hy)⟩
  have hfiles {lead : List Text} (hl : lead <+: x.route.folders) :=
    fileAt_iff_alone hx ht hu hclear hl
  rw [x.takes.output]
  by_cases hblock : ∃ lead, lead <+: x.route.folders ∧ u.FileAt (x.route.goal ++ lead)
  · obtain ⟨lead, hl, hf⟩ := hblock
    rw [huu.stat_blocked hlu x.route.proper x.route.piece hl hf,
      htt.stat_blocked hlt x.route.proper x.route.piece hl ((hfiles hl).2 hf)]
  · have hopen : ∀ lead, lead <+: x.route.folders → ¬ u.FileAt (x.route.goal ++ lead) :=
      fun lead hl hf => hblock ⟨lead, hl, hf⟩
    have hland : t.get? x.route.landing = u.get? x.route.landing :=
      get?_eq_alone hx ht hu fun y hy hyx =>
        (ha y hy hyx).1.effect_landing (hg y hy) (hg x hx) y.told.belongs
    rw [htt.stat_open hlt x.route.proper x.route.piece (ht.persists.folder _ x.takes.goal)
        fun lead hl hf => hopen lead hl ((hfiles hl).1 hf),
      huu.stat_open hlu x.route.proper x.route.piece (hu.persists.folder _ x.takes.goal) hopen]
    exact Volume.standing_congr hland

end Task

/-! ### The result of a batch -/

/-- A batch only gives outcomes of these two kinds. -/
def IsOutcome (job : Job) (o : Outcome) : Prop :=
  o = .compiled job.source job.output ∨ ∃ message, o = .failed job.source job.output message

omit [Host] in
theorem countsAs_of_isOutcome {outcomes : List Outcome}
    (h : ∀ o ∈ outcomes, ∃ job, IsOutcome job o) :
    ∀ o ∈ outcomes, Result.CountsAs "compiled" o := by
  intro o ho
  obtain ⟨job, rfl | ⟨message, rfl⟩⟩ := h o ho
  · rfl
  · rfl

/-- The result is fine if no job has failed, and its counters account for all of them. -/
structure Accounts (outcomes : List Outcome) (jobs : Nat) (r : Result) : Prop where
  ok : r.ok = true ↔ ∀ o ∈ outcomes, o.ok = true
  counters : ∃ compiled errors : Nat, r.summary.get? "compiled" = some (.int compiled) ∧
    r.summary.get? "errors" = some (.int errors) ∧ compiled + errors = jobs

theorem accounts_ofBatch {outcomes : List Outcome} (h : ∀ o ∈ outcomes, ∃ job, IsOutcome job o)
    (request : Request) (root : Path) (walked : Int) (report : Text) :
    Accounts outcomes outcomes.length (Result.ofBatch request root (Outcome.sort outcomes)
      [("walked", .int walked), ("error_report", .text report)]) := by
  have hsorted : ∀ o ∈ Outcome.sort outcomes, Result.CountsAs "compiled" o :=
    fun o ho => countsAs_of_isOutcome h o (mem_sort.1 ho)
  have hlength : (Outcome.sort outcomes).length = outcomes.length := List.length_mergeSort _
  constructor
  · have hok : (Result.ofBatch request root (Outcome.sort outcomes)
        [("walked", .int walked), ("error_report", .text report)]).ok =
          ((Result.count (Outcome.sort outcomes) "errors" : Int) == 0) := rfl
    rw [hok, beq_iff_eq, Int.natCast_eq_zero,
      Result.count_errors_eq_zero_iff (by decide) hsorted]
    exact forall_congr' fun o => by rw [mem_sort]
  · exact ⟨_, _, rfl, rfl, by
      rw [Result.count_add_errors (by decide) hsorted, hlength]⟩

/-- What the batch has for a job: the outcome and the output that the job has alone. -/
structure Isolated (compiler : Compiler) (profile : Profile) (s t : Workspace) (job : Job)
    (o : Outcome) : Prop where
  outcome : IsOutcome job o
  alone : ∃ u, (toOutcome compiler profile job).runOn s = (.ok o, u) ∧
    t.volume.stat job.output = u.volume.stat job.output
  written : o.ok = true → ∃ encoding codec content bytes, profile.encoding = some encoding ∧
    Encoding.find? encoding = some (.text codec) ∧ s.volume.read job.source = .ok content ∧
    Compiles compiler profile codec job.source content bytes ∧
    t.volume.read job.output = .ok bytes

namespace Task

def outcome (x : Task compiler profile encoding plan root v) : Outcome :=
  match x.result with
  | .ok () => .compiled x.job.source x.job.output
  | .error f => .failed x.job.source x.job.output f.message

theorem settle_eq_outcome (x : Task compiler profile encoding plan root v)
    (hc : compiler.FailsAsFile) (hu : Path.IsUsable x.job.output) :
    settle x.job x.result = .ok x.outcome := by
  have hof := x.told.ofFile hc hu
  unfold outcome
  cases hr : x.result with
  | ok _ => rfl
  | error f =>
    rw [settle, if_pos (hof f hr)]

theorem isOutcome (x : Task compiler profile encoding plan root v) : IsOutcome x.job x.outcome := by
  unfold outcome
  cases x.result with
  | ok _ => exact Or.inl rfl
  | error f => exact Or.inr ⟨f.message, rfl⟩

theorem result_of_outcome_ok {x : Task compiler profile encoding plan root v}
    (h : x.outcome.ok = true) : x.result = .ok () := by
  unfold outcome at h
  cases hr : x.result with
  | ok _ => rfl
  | error f =>
    rw [hr] at h
    simp [Outcome.failed] at h

theorem apart {tasks : List (Task compiler profile encoding plan root v)}
    (h : Apart v (tasks.map (·.job))) {x y : Task compiler profile encoding plan root v}
    (hx : x ∈ tasks) (hy : y ∈ tasks) (hne : x.job ≠ y.job) : x.route.Apart y.route := by
  have hxm := List.mem_map_of_mem (f := (·.job)) hx
  have hym := List.mem_map_of_mem (f := (·.job)) hy
  constructor
  · rw [← normal_output x.takes, ← normal_output y.takes]
    exact h.outputs _ hxm _ hym hne
  · rw [← normal_output x.takes, ← normal_output y.takes]
    exact h.outputs _ hym _ hxm (Ne.symm hne)
  · rw [← normal_output x.takes, ← normal_source y.takes]
    exact h.sources _ hxm _ hym

theorem isName_of_mem_goal (x : Task compiler profile encoding plan root v) :
    ∀ n ∈ x.route.goal, Path.IsName n :=
  x.takes.tree.isName_below (show v.get? ([] ++ x.route.goal) = some .folder from x.takes.goal)

omit [Host] in
theorem read_of_stat {path : Path} {content : Bytes} (h : v.stat path = .ok (.file content)) :
    v.read path = .ok content := by
  rw [Volume.read, h]

/-- Where the batch has come to, against the job alone. -/
theorem isolated {tasks : List (Task compiler profile encoding plan root v)} {s t : Workspace}
    (hs : s.volume = v) (hl : Lasts plan s.faults) (he : profile.encoding = some encoding)
    (hc : compiler.FailsAsFile) (ht : v.Merged t.volume (tasks.map (·.effect)))
    (hn : (tasks.map (·.job)).Nodup) (h : Apart v (tasks.map (·.job)))
    {x : Task compiler profile encoding plan root v} (hx : x ∈ tasks)
    (hu : Path.IsUsable x.job.output) : Isolated compiler profile s t x.job x.outcome := by
  obtain ⟨u, halone, hchanged⟩ := x.exists_alone hs hl
  have hother {y : Task compiler profile encoding plan root v} (hy : y ∈ tasks) (hyx : y ≠ x) :
      y.job ≠ x.job := fun heq => hyx (List.inj_on_of_nodup_map hn hy hx heq)
  have hstat := stat_eq_alone hx ht hchanged
    (fun y hy hyx => ⟨apart h hy hx (hother hy hyx), apart h hx hy (Ne.symm (hother hy hyx))⟩)
    fun y _ => y.isName_of_mem_goal
  refine ⟨x.isOutcome, ⟨u, by rw [halone, x.settle_eq_outcome hc hu], hstat⟩, ?_⟩
  intro hok
  obtain ⟨codec, content, bytes, hcodec, horigin, hcompiles, hname, hend⟩ :=
    x.told.written (result_of_outcome_ok hok)
  have hwritten : u.volume.stat x.job.output = .ok (.file bytes) := by
    have hthere := hchanged.get?_of_some hend
    have huu := hchanged.tree x.takes.tree
    rw [x.takes.output]
    exact huu.stat_descend (hchanged.persists.leads x.takes.tree huu (by simp [x.takes.goal])
      x.takes.leads) hthere
  refine ⟨encoding, codec, content, bytes, he, hcodec, ?_, hcompiles, ?_⟩
  · rw [hs]
    exact read_of_takes x.takes horigin
  · exact read_of_stat (hstat.trans hwritten)

end Task

theorem runOn_runBatch {jobs : List Job} {outcomes : List Outcome} {s t : Workspace}
    (h : (runJobs compiler profile false jobs).runOn s = (.ok (outcomes.map .ok), t)) :
    (runBatch compiler profile false jobs).runOn s = (.ok (outcomes, none), t) := by
  unfold runBatch
  rw [runOn_bind_of_ok h, outcomesOf_map_ok]
  rfl

/-- Failures do not spread in a batch whose target extension is part of a path: whichever operations
fail for ever, in whatever order the jobs are done, each has the outcome and the output that it has
alone. -/
theorem batch_isolated {mode : CheckMode} {given : Value} {table : Table} {findings : List Finding}
    (hcheck : checkSettings mode given = .ok (table, findings)) {source target : Text}
    (ht : (Profile.ofTable table).targetExtension = some target)
    (hst : '/' ∉ target ∧ '\\' ∉ target) (hu : Path.IsUsable target) {compiler : Compiler}
    (hc : compiler.FailsAsFile)
    {s : Workspace} (hfaults : ∀ f ∈ s.faults, f.left = none) {input output : Path}
    {place goal : Place} (hg : Grounds s.volume input output place goal) {files : List Path}
    {w : Workspace} (hwalk : (walkFiles (Profile.ofTable table) input).runOn
      { s with faults := [] } = (.ok files, w)) {jobs order : List Job}
    (hplan : planJobs input output target source files = .ok jobs)
    (hapart : Apart s.volume jobs) (horder : order.Perm jobs) :
    ∃ outcomes t,
      (runBatch compiler (Profile.ofTable table) false order).runOn s = (.ok (outcomes, none), t) ∧
      List.Forall₂ (Isolated compiler (Profile.ofTable table) s t) order outcomes ∧
      ∀ request root walked report, Accounts outcomes jobs.length
        (Result.ofBatch request root (Outcome.sort outcomes)
          [("walked", .int walked), ("error_report", .text report)]) := by
  have hprofile := checked_of_checkSettings hcheck
  obtain ⟨encoding, he, hencoding⟩ := hprofile.encoding
  obtain ⟨hsources, htakes⟩ :=
    exists_takes_of_planJobs hg hprofile ht hst (s := { s with faults := [] }) rfl rfl hwalk hplan
  obtain ⟨tasks, rfl⟩ := exists_tasks he hencoding.zeroFree compiler s.faults fun job hm =>
    (htakes job (horder.mem_iff.1 hm)).1
  have husable {x} (hx : x ∈ tasks) : Path.IsUsable x.job.output :=
    (htakes x.job (horder.mem_iff.1 (List.mem_map_of_mem hx))).2 hu
  have hl : Lasts s.faults s.faults := Lasts.refl hfaults
  have hn := horder.nodup_iff.2 (hsources.of_map Job.source)
  have ha : Apart s.volume (tasks.map (·.job)) := hapart.perm horder
  have hclear : tasks.Pairwise Task.Clear := by
    apply (List.pairwise_map.1 hn).imp_of_mem
    intro x y hx hy hne
    exact ⟨(Task.apart ha hx hy hne).clear y.isName_of_mem_goal,
      (Task.apart ha hy hx (Ne.symm hne)).clear x.isName_of_mem_goal⟩
  obtain ⟨t, hrun, hmerged⟩ := Task.exists_runOn_runJobs hclear hg.tree rfl hl
  have hresults : (tasks.map fun x => settle x.job x.result) =
      (tasks.map Task.outcome).map .ok := by
    rw [List.map_map]
    exact List.map_congr_left fun x hx => x.settle_eq_outcome hc (husable hx)
  rw [hresults] at hrun
  refine ⟨tasks.map Task.outcome, t, runOn_runBatch hrun, ?_, ?_⟩
  · rw [List.forall₂_map_left_iff, List.forall₂_map_right_iff, List.forall₂_same]
    exact fun x hx => Task.isolated rfl hl he hc hmerged hn ha hx (husable hx)
  · intro request root walked report
    have hlength : jobs.length = (tasks.map Task.outcome).length := by
      rw [← horder.length_eq, List.length_map, List.length_map]
    rw [hlength]
    apply accounts_ofBatch
    intro o ho
    obtain ⟨x, _, rfl⟩ := List.mem_map.1 ho
    exact ⟨x.job, x.isOutcome⟩

end Compile

end Inlay

namespace Inlay.Compile

open Inlay.Standard Inlay.Action

/-- Two sources, and a folder that cannot be made around the output of the second. -/
def faultySample : Workspace :=
  { Workspace.holding [(["in".toList], .folder),
      (["in".toList, "a.tea".toList], .file (Utf8.encode "x".toList)),
      (["in".toList, "sub".toList], .folder),
      (["in".toList, "sub".toList, "b.tea".toList], .file (Utf8.encode "y".toList)),
      (["out".toList], .folder)] with
    faults := [⟨.makeFolder, "out/sub".toList, .denied, none, 0⟩] }

/-- The batch does the second job first; it fails, and the first one succeeds. -/
theorem batch_isolated_of_fault :
    ∃ outcomes t, (runBatch .passthrough (Profile.ofTable Setting.defaults) false
        [⟨"in/sub/b.tea".toList, "out/sub/b.php".toList⟩,
          ⟨"in/a.tea".toList, "out/a.php".toList⟩]).runOn faultySample =
        (.ok (outcomes, none), t) ∧
      outcomes.map (·.ok) = [false, true] ∧
      ∃ bytes, t.volume.read "out/a.php".toList = .ok bytes := by
  have hcheck : checkSettings .lenient (.table []) = .ok (Setting.defaults, []) := rfl
  have hc : Compiler.passthrough.FailsAsFile := fun source => ⟨source, rfl⟩
  have hfaults : ∀ f ∈ faultySample.faults, f.left = none := by decide
  have hg : Grounds faultySample.volume "in".toList "out".toList ["in".toList] ["out".toList] := {
    tree := by decide
    plain := fun _ _ => Volume.forall_names_of_entries (by decide)
    root := by decide
    input := ⟨by decide, by cbv⟩
    folder := rfl
    output := ⟨by decide, by cbv⟩
    goal := rfl }
  have hwalk : (walkFiles (Profile.ofTable Setting.defaults) "in".toList).runOn
      { faultySample with faults := [] } =
        (.ok ["in/a.tea".toList, "in/sub/b.tea".toList], { faultySample with faults := [] }) := by
    cbv
  have hplan : planJobs "in".toList "out".toList ".php".toList ".tea".toList
      ["in/a.tea".toList, "in/sub/b.tea".toList] =
        .ok [⟨"in/a.tea".toList, "out/a.php".toList⟩,
          ⟨"in/sub/b.tea".toList, "out/sub/b.php".toList⟩] := by cbv
  obtain ⟨outcomes, t, hrun, hisolated, _⟩ := batch_isolated hcheck rfl (by decide) (by decide) hc
    hfaults hg hwalk hplan (by decide) (List.Perm.swap _ _ _)
  obtain ⟨o, o', rfl⟩ : ∃ o o', outcomes = [o, o'] :=
    List.length_eq_two.1 hisolated.length_eq.symm
  obtain ⟨hfirst, hrest⟩ := List.forall₂_cons.1 hisolated
  obtain ⟨hsecond, _⟩ := List.forall₂_cons.1 hrest
  obtain ⟨u, halone, _⟩ := hfirst.alone
  obtain ⟨u', halone', _⟩ := hsecond.alone
  have hfailed : o.ok = false := by
    have hone : ∃ w, (compileFile .passthrough (Profile.ofTable Setting.defaults)
        ⟨"in/sub/b.tea".toList, "out/sub/b.php".toList⟩).runOn faultySample =
          (.error (.os (.of .denied "out/sub".toList)), w) := ⟨_, by cbv⟩
    obtain ⟨w, hw⟩ := hone
    obtain ⟨record, hrecord⟩ := exists_runOn_toOutcome_of_error hw rfl
    rw [halone, Prod.mk.injEq, Except.ok.injEq] at hrecord
    rw [hrecord.1]
    rfl
  have hok : o'.ok = true := by
    have hone : ((toOutcome .passthrough (Profile.ofTable Setting.defaults)
        ⟨"in/a.tea".toList, "out/a.php".toList⟩).runOn faultySample).1.map (·.ok) =
          .ok true := by cbv
    rw [halone'] at hone
    exact Except.ok.inj hone
  obtain ⟨_, _, _, bytes, _, _, _, _, hbytes⟩ := hsecond.written hok
  exact ⟨[o, o'], t, hrun, by simp [hok, hfailed], bytes, hbytes⟩

/-- With an extension that no path can have, the first job ends the batch. -/
theorem exists_batch_without_outcomes :
    let table := Setting.defaults.set Setting.targetExtension (.text ".p\x00p".toList)
    let jobs := [⟨"in/a.tea".toList, "out/a.p\x00p".toList⟩,
      ⟨"in/sub/b.tea".toList, "out/sub/b.p\x00p".toList⟩]
    checkSettings .strict (.table [(Setting.targetExtension, .text ".p\x00p".toList)]) =
        .ok (table, []) ∧
      planJobs "in".toList "out".toList ".p\x00p".toList ".tea".toList
          ["in/a.tea".toList, "in/sub/b.tea".toList] = .ok jobs ∧
      ∃ t, (runBatch .passthrough (Profile.ofTable table) false jobs).runOn
        { faultySample with faults := [] } = (.error (.noPath .zero), t) := by
  refine ⟨rfl, by cbv, _, by cbv⟩

end Inlay.Compile
