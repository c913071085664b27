import Inlay.Proofs.Compile.Effect
import Inlay.Proofs.Volume.NormalForm
import Inlay.Proofs.Walk.Shape

/-!
# Jobs that do not meet

Jobs of a batch share folders that are made on demand, and no file of one may be in the way of
another (`Route.Clear`). Then whatever jobs were done before, nothing that matters to the next one
is disturbed (`Merged.undisturbed`), and a batch gives each of them what it gets alone
(`Task.exists_runOn_runJobs`).
-/

namespace Inlay

variable [Host]

open Inlay.Action

/-- The file of the first route is not the source of the second, nor does it stand on its way or at
its end. -/
def Route.Clear (a b : Route) : Prop :=
  Path.IsName a.name → a.destination ≠ b.origin ∧ ¬ a.destination <+: b.destination

theorem Route.folders_prefix_destination (r : Route) : r.goal ++ r.folders <+: r.destination := by
  rw [Route.destination, ← List.append_assoc]
  exact List.prefix_append _ _

theorem Route.lead_prefix (r : Route) {lead : List Text} (h : lead <+: r.folders) :
    r.goal ++ lead <+: r.destination :=
  ((List.prefix_append_right_inj r.goal).2 h).trans r.folders_prefix_destination

/-- The end of the route as the normal form of a path has it. -/
def Route.normal (r : Route) : Place := Path.climb true r.goal.reverse (r.folders ++ [r.name])

theorem Route.normal_of_isName {r : Route} (h : Path.IsName r.name) :
    r.normal = r.destination := by
  have hnames : ∀ n ∈ r.folders ++ [r.name], Path.IsName n :=
    List.forall_mem_append.2 ⟨r.proper, List.forall_mem_singleton.2 h⟩
  rw [normal, Path.climb_names hnames, List.reverse_reverse, destination]

theorem Route.isPiece (r : Route) : ∀ n ∈ r.folders ++ [r.name], Path.IsPiece n :=
  Path.isPiece_concat r.proper r.piece

namespace Effect

variable {plan : List PlannedFault} {v : Volume} {root : Path} {a b : Route} {e e' : Effect}
  {p : Place}

/-- A file that a route puts is at none of the places that matter to one that is clear of it. -/
theorem Belongs.folder_of_clear (h : e.Belongs plan v root a) (hc : a.Clear b) {entry : Entry}
    (he : e p = some entry) (hp : p = b.origin ∨ p <+: b.destination) :
    entry = .folder ∧ ∃ lead, lead <+: a.folders ∧ p = a.goal ++ lead ∧
      Passable plan v root a.goal lead := by
  rcases h p entry he with hfolder | ⟨_, hn, rfl⟩
  · exact hfolder
  · obtain ⟨hsource, hway⟩ := hc hn
    rcases hp with hp | hp
    · exact absurd hp hsource
    · exact absurd hp hway

theorem Belongs.agrees (h : e.Belongs plan v root a) (h' : e'.Belongs plan v root b)
    (hab : a.Clear b) (hba : b.Clear a) : e.Agrees e' := by
  intro p entry entry' he he'
  rcases h p entry he with ⟨hf, lead, hlead, rfl, _⟩ | ⟨_, hn, hp⟩
  · rw [hf, (h'.folder_of_clear hba he' (Or.inr (a.lead_prefix hlead))).1]
  · rcases h' p entry' he' with ⟨_, lead, hlead, hp', _⟩ | ⟨_, _, hp'⟩
    · exact absurd (hp ▸ hp' ▸ b.lead_prefix hlead) (hab hn).2
    · exact absurd (hp ▸ hp' ▸ List.prefix_refl _) (hab hn).2

end Effect

section
variable {plan : List PlannedFault} {v w : Volume} {root : Path} {es : List Effect} {b : Route}

/-- Effects on routes that are clear of another one leave it undisturbed. -/
theorem Volume.Merged.undisturbed (h : v.Merged w es) (hv : v.Tree) (hf : v.FileAt b.origin)
    (hes : ∀ e ∈ es, ∃ a : Route, a.goal = b.goal ∧ e.Belongs plan v root a ∧ a.Clear b ∧
      b.Clear a) :
    Undisturbed plan v root b w where
  tree := h.tree hv
  persists := h.persists
  origin := by
    rcases h.cases b.origin with ⟨e, he, entry, hentry, hw⟩ | ⟨_, hw⟩
    · obtain ⟨a, _, ha, hab, _⟩ := hes e he
      have hfolder := (ha.folder_of_clear hab hentry (Or.inl rfl)).1
      rw [hfolder] at hw
      exact absurd hw (h.persists.file _ hf).not_folder
    · exact hw
  leads := by
    intro lead hlead hfile
    rcases h.cases (b.goal ++ lead) with ⟨e, he, entry, hentry, hw⟩ | ⟨_, hw⟩
    · obtain ⟨a, _, ha, hab, _⟩ := hes e he
      have hfolder := (ha.folder_of_clear hab hentry (Or.inr (b.lead_prefix hlead))).1
      rw [hfolder] at hw
      exact absurd hw hfile.not_folder
    · rwa [Volume.FileAt, ← hw]
  passable := by
    intro lead hlead hfolder
    rcases h.cases (b.goal ++ lead) with ⟨e, he, entry, hentry, _⟩ | ⟨_, hw⟩
    · obtain ⟨a, hgoal, ha, hab, _⟩ := hes e he
      obtain ⟨_, lead', _, hp, hpass⟩ :=
        ha.folder_of_clear hab hentry (Or.inr (b.lead_prefix hlead))
      rw [hgoal] at hp hpass
      rwa [List.append_cancel_left hp]
    · exact Or.inl (hw ▸ hfolder)
  destination := by
    intro hn
    rcases h.cases b.destination with ⟨e, he, entry, hentry, hw⟩ | ⟨_, hw⟩
    · obtain ⟨a, _, ha, hab, hba⟩ := hes e he
      obtain ⟨_, lead, hlead, hp, _⟩ := ha.folder_of_clear hab hentry (Or.inr (List.prefix_refl _))
      exact absurd (hp ▸ a.lead_prefix hlead) (hba hn).2
    · exact hw

end

namespace Compile

/-! ### Tasks -/

theorem runOn_runJobs_cons {compiler : Compiler} {profile : Profile} {job : Job} {rest : List Job}
    {s t u : Workspace} {result : Except Failure Outcome} {results : List (Except Failure Outcome)}
    (h : (toOutcome compiler profile job).runOn s = (result, t))
    (hrest : (runJobs compiler profile false rest).runOn t = (.ok results, u)) :
    (runJobs compiler profile false (job :: rest)).runOn s = (.ok (result :: results), u) := by
  rw [runJobs, runOn_bind_of_ok (by rw [runOn_attempt, h])]
  cases result with
  | error f =>
    simp only
    rw [runOn_bind_of_ok hrest]
    rfl
  | ok o =>
    simp only [Bool.false_and, Bool.false_eq_true, if_false]
    rw [runOn_bind_of_ok hrest]
    rfl

/-- A job with its route, and with the result and the effect that it has wherever its route is
undisturbed. -/
structure Task (compiler : Compiler) (profile : Profile) (encoding : Text)
    (plan : List PlannedFault) (root : Path) (v : Volume) where
  job : Job
  route : Route
  result : Except Failure Unit
  effect : Effect
  takes : job.Takes route root v
  acts : Acts plan (Undisturbed plan v root route) (toOutcome compiler profile job)
    (settle job result) effect
  told : Told compiler profile encoding plan v root job route result effect

variable {compiler : Compiler} {profile : Profile} {encoding : Text} {plan : List PlannedFault}
  {root : Path} {v : Volume}

theorem normal_source {job : Job} {r : Route} (h : job.Takes r root v) :
    v.normal job.source = r.origin :=
  h.tree.normal_of_leads h.source

theorem normal_output {job : Job} {r : Route} (h : job.Takes r root v) :
    v.normal job.output = r.normal := by
  rw [h.output, h.tree.normal_descend h.leads r.isPiece, Route.normal]

namespace Task

def Clear (x y : Task compiler profile encoding plan root v) : Prop :=
  x.route.Clear y.route ∧ y.route.Clear x.route

variable {tasks : List (Task compiler profile encoding plan root v)}
  {x : Task compiler profile encoding plan root v} {s : Workspace}

theorem undisturbed (hv : v.Tree) {w : Volume} (h : v.Merged w (tasks.map (·.effect)))
    (hc : ∀ y ∈ tasks, y.Clear x) : Undisturbed plan v root x.route w := by
  apply h.undisturbed hv x.takes.file
  intro e he
  obtain ⟨y, hy, rfl⟩ := List.mem_map.1 he
  exact ⟨y.route, y.takes.leads.unique x.takes.leads, y.told.belongs, hc y hy⟩

/-- The job alone, on the volume of the beginning. -/
theorem exists_alone (x : Task compiler profile encoding plan root v) (hv : s.volume = v)
    (hl : Lasts plan s.faults) :
    ∃ u, (toOutcome compiler profile x.job).runOn s = (settle x.job x.result, u) ∧
      v.Changed u.volume x.effect := by
  have hself : Undisturbed plan v root x.route s.volume := by
    rw [hv]
    exact (Volume.merged_nil v).undisturbed x.takes.tree x.takes.file (by simp)
  obtain ⟨u, hrun, _, hchanged⟩ := x.acts s hself hl
  exact ⟨u, hrun, by rwa [hv] at hchanged⟩

/-- Every job gets the result that it has alone, and all effects come together. -/
theorem exists_runOn_runJobs (hc : tasks.Pairwise Clear) (hv : v.Tree) (hs : s.volume = v)
    (hl : Lasts plan s.faults) :
    ∃ t, (runJobs compiler profile false (tasks.map (·.job))).runOn s =
        (.ok (tasks.map fun x => settle x.job x.result), t) ∧
      v.Merged t.volume (tasks.map (·.effect)) := by
  -- By induction on the tasks that are left, on a volume with the effects of those before them.
  suffices hall : ∀ rest done s, tasks = done ++ rest → Lasts plan s.faults →
      v.Merged s.volume (done.map (·.effect)) →
      ∃ t, (runJobs compiler profile false (rest.map (·.job))).runOn s =
          (.ok (rest.map fun x => settle x.job x.result), t) ∧
        v.Merged t.volume (tasks.map (·.effect)) from
    hall tasks [] s rfl hl (by rw [hs]; exact Volume.merged_nil v)
  intro rest
  induction rest with
  | nil =>
    intro done s htasks _ hm
    rw [List.append_nil] at htasks
    exact ⟨s, rfl, by rwa [htasks]⟩
  | cons x rest ih =>
    intro done s htasks hl hm
    have hclear : ∀ y ∈ done, y.Clear x := by
      rw [htasks] at hc
      exact fun y hy => (List.pairwise_append.1 hc).2.2 y hy x (List.mem_cons_self ..)
    obtain ⟨t, hrun, hlasts, hchanged⟩ := x.acts s (undisturbed hv hm hclear) hl
    have hagree : ∀ e ∈ done.map (·.effect), e.Agrees x.effect := by
      intro e he
      obtain ⟨y, hy, rfl⟩ := List.mem_map.1 he
      exact y.told.belongs.agrees x.told.belongs (hclear y hy).1 (hclear y hy).2
    obtain ⟨u, hmore, hend⟩ := ih (done ++ [x]) t (by simp [htasks]) hlasts
      (by rw [List.map_append]; exact hm.step hchanged hagree)
    exact ⟨u, runOn_runJobs_cons hrun hmore, hend⟩

end Task

theorem exists_tasks (he : profile.encoding = some encoding) (hz : '\x00' ∉ encoding)
    (compiler : Compiler) (plan : List PlannedFault) {jobs : List Job}
    (h : ∀ job ∈ jobs, ∃ r, job.Takes r root v) :
    ∃ tasks : List (Task compiler profile encoding plan root v), jobs = tasks.map (·.job) := by
  have hall : ∀ job ∈ jobs, ∃ x : Task compiler profile encoding plan root v,
      True ∧ job = x.job := by
    intro job hm
    obtain ⟨r, hr⟩ := h job hm
    obtain ⟨result, e, hacts, htold⟩ := exists_acts_toOutcome hr he hz compiler plan
    exact ⟨⟨job, r, result, e, hr, hacts, htold⟩, trivial, rfl⟩
  obtain ⟨tasks, hjobs, _⟩ := Walk.exists_map_of_forall hall
  exact ⟨tasks, hjobs⟩

/-! ### The jobs of a folder -/

/-- As normalised paths no output is above or equal to that of another job, and none is a source. -/
structure Apart (v : Volume) (jobs : List Job) : Prop where
  outputs : ∀ a ∈ jobs, ∀ b ∈ jobs, a ≠ b → ¬ v.normal a.output <+: v.normal b.output
  sources : ∀ a ∈ jobs, ∀ b ∈ jobs, v.normal a.output ≠ v.normal b.source

instance (v : Volume) (jobs : List Job) : Decidable (Apart v jobs) :=
  decidable_of_iff
    ((∀ a ∈ jobs, ∀ b ∈ jobs, a ≠ b → ¬ v.normal a.output <+: v.normal b.output) ∧
      ∀ a ∈ jobs, ∀ b ∈ jobs, v.normal a.output ≠ v.normal b.source)
    ⟨fun ⟨ho, hs⟩ => ⟨ho, hs⟩, fun ⟨ho, hs⟩ => ⟨ho, hs⟩⟩

omit [Host] in
theorem Apart.perm {jobs order : List Job} (h : Apart v jobs) (hp : order.Perm jobs) :
    Apart v order where
  outputs := fun a ha b hb => h.outputs a (hp.mem_iff.1 ha) b (hp.mem_iff.1 hb)
  sources := fun a ha b hb => h.sources a (hp.mem_iff.1 ha) b (hp.mem_iff.1 hb)

/-- An input folder of plain names, and an output folder, with the paths to them. Outputs are
spelled from the output path without the separators at its end. -/
structure Grounds (v : Volume) (input output : Path) (place goal : Place) : Prop where
  tree : v.Tree
  plain : ∀ way entry, v.get? (place ++ way) = some entry → ∀ n ∈ way, '\\' ∉ n
  root : output ≠ []
  input : v.Leads input place
  folder : v.get? place = some .folder
  output : v.Leads (Path.trimmed output) goal
  goal : v.get? goal = some .folder

/-- A job from a file of the input folder to its mirrored path takes a route, and its output is a
path if the target extension is part of one. -/
theorem Grounds.exists_takes {input output : Path} {place goal : Place}
    (hg : Grounds v input output place goal) {source target : Text}
    (hhead : target.head? = some '.') (hplain : '/' ∉ target ∧ '\\' ∉ target) {job : Job}
    {way : List Text} {content : Bytes} (hfile : v.get? (place ++ way) = some (.file content))
    (hne : way ≠ []) (hway : job.source = Path.descend input way)
    (hmirror : Path.mirror job.source input output target source = .ok job.output) :
    (∃ r, job.Takes r (Path.trimmed output) v) ∧
      (Path.IsUsable target → Path.IsUsable job.output) := by
  have hproper := hg.tree.isName_below hfile
  have husable := hg.tree.sound.isUsable_below hfile
  have hspelled : ∀ n ∈ way, n ≠ [] ∧ '/' ∉ n ∧ '\\' ∉ n := fun n hn =>
    ⟨(hproper n hn).1, (hproper n hn).2.1, hg.plain way _ hfile n hn⟩
  obtain ⟨folders, kept, hfolders, hkept, hpiece, hout⟩ :=
    Path.exists_mirror_descend hg.root hhead hplain input source hne hspelled
  rw [hway, hout, Except.ok.injEq] at hmirror
  obtain ⟨lead, name, hlast⟩ := (List.eq_nil_or_concat way).resolve_left hne
  rw [List.concat_eq_append] at hlast
  have hnamed : job.source.getLast? ≠ some '/' := by
    rw [hway, hlast]
    apply Path.getLast?_descend_concat
    exact (hproper name (by simp [hlast])).isPiece
  refine ⟨⟨⟨place ++ way, goal, folders, kept ++ target,
    fun n hn => hproper n (hfolders.subset hn), fun n hn => husable n (hfolders.subset hn),
    hpiece⟩, {
      tree := hg.tree
      source := hway ▸ hg.tree.leads_descend hg.input hfile
      named := hnamed
      file := ⟨content, hfile⟩
      tidied := Path.tidied_trimmed output
      leads := hg.output
      goal := hg.goal
      output := hmirror.symm }⟩, fun htarget => ?_⟩
  rw [← hmirror]
  refine Path.isUsable_descend (hg.tree.sound.isUsable_of_leads hg.output)
    (List.forall_mem_append.2 ⟨fun n hn => husable n (hfolders.subset hn),
      List.forall_mem_singleton.2 (Path.isUsable_append.2 ⟨fun c hc => ?_, htarget⟩)⟩)
  obtain ⟨n, hn, hc⟩ := hkept c hc
  exact husable n hn c hc

/-- The jobs that are planned for the walk of a folder have different sources, and each takes a
route. -/
theorem exists_takes_of_planJobs {input output : Path} {place goal : Place}
    (hg : Grounds v input output place goal) (hc : profile.Checked) {source target : Text}
    (ht : profile.targetExtension = some target) (hplain : '/' ∉ target ∧ '\\' ∉ target)
    {s t : Workspace} (hv : s.volume = v) (hf : s.faults = []) {files : List Path}
    (hwalk : (walkFiles profile input).runOn s = (.ok files, t)) {jobs : List Job}
    (hplan : planJobs input output target source files = .ok jobs) :
    (jobs.map Job.source).Nodup ∧
      ∀ job ∈ jobs, (∃ r, job.Takes r (Path.trimmed output) v) ∧
        (Path.IsUsable target → Path.IsUsable job.output) := by
  subst hv
  obtain ⟨ways, hrun, hnodup, hmem, hnames⟩ :=
    Walk.exists_runOn_walkFiles hg.tree hf hg.input hc hg.folder
  rw [hwalk] at hrun
  simp only [Prod.mk.injEq, Except.ok.injEq] at hrun
  obtain ⟨rfl, _⟩ := hrun
  obtain ⟨hsources, hmirror⟩ := of_planJobs hplan
  constructor
  · have hpieces : ∀ way ∈ ways, ∀ n ∈ way, Path.IsPiece n := fun way hw =>
      Path.isPiece_of_isName (hnames way hw).2
    have hfiles : (ways.map (Path.descend input)).Nodup := hnodup.map_on fun x hx y hy heq =>
      Path.descend_injective input (hpieces x hx) (hpieces y hy) heq
    rw [hsources]
    exact hfiles.filter _
  · intro job hjob
    have hsource := List.mem_map_of_mem (f := Job.source) hjob
    rw [hsources] at hsource
    obtain ⟨way, hw, hway⟩ := List.mem_map.1 (List.mem_filter.1 hsource).1
    obtain ⟨content, hcontent⟩ := (hmem way).1 hw
    exact hg.exists_takes (hc.head_target ht) hplain hcontent (hnames way hw).1 hway.symm
      (hmirror job hjob)

end Compile

end Inlay
