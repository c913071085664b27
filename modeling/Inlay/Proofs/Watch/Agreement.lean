import Inlay.Proofs.Compile.Plan
import Inlay.Proofs.Settings.Checked
import Inlay.Proofs.Walk.Shape
import Inlay.Proofs.Watch.Jobs
import Mathlib

/-!
# A watch and a batch agree

A batch cuts the root off the paths of a walk as they are spelled, and a watch goes from absolute
path to absolute path. For a file of the walk both come to the same job (`handle_planned`).
-/

namespace Inlay

variable [Host]

open Inlay.Action

namespace Compile

omit [Host] in
theorem runOn_plan {profile : Profile} {source target : Text}
    (hs : profile.sourceExtension = some source) (ht : profile.targetExtension = some target)
    {root output : Path} {files : List Path} {jobs : List Job}
    (h : planJobs root output target source files = .ok jobs) (s : Workspace) :
    (plan profile root output files).runOn s = (.ok jobs, s) := by
  unfold plan
  rw [runOn_bind_of_ok (runOn_need_some hs s), runOn_bind_of_ok (runOn_need_some ht s), h]
  rfl

end Compile

namespace Watch

open Compile

omit [Host] in
/-- The job that the event asks for is the one of the plan, if there is one. -/
theorem runOn_jobOf?_of_planned {handler : Handler} {event : Event} {source target : Text}
    {u : Workspace} (hs : handler.profile.sourceExtension = some source)
    (ht : handler.profile.targetExtension = some target) (hss : '/' ∉ source)
    (hf : handler.isFolder = true) {files : List Path} {jobs : List Job}
    (hplan : planJobs handler.input handler.output target source files = .ok jobs)
    {way : List Text} (hne : way ≠ []) (hnames : ∀ n ∈ way, Path.IsName n)
    (hmem : Path.descend handler.input way ∈ files) (hnews : event.bringsFile = true)
    (hbase : Path.base event.path = Path.base (Path.descend handler.input way))
    (habs : u.volume.absolute event.path = u.volume.absolute (Path.descend handler.input way)) :
    ∃ asked, (jobOf? handler event).runOn u = (.ok asked, u) ∧
      ∀ job, asked = some job ↔ job ∈ jobs ∧ job.source = Path.descend handler.input way := by
  have hway : Path.components (u.volume.absolute event.path) =
      Path.components (u.volume.absolute handler.input) ++ way := by
    rw [habs]
    exact Path.components_absolute_descend rfl handler.input hnames
  have hext : Path.hasExtension event.path source =
      Path.hasExtension (Path.descend handler.input way) source := by
    rw [← Path.hasExtension_base hss, hbase, Path.hasExtension_base hss]
  have hmirror := Path.mirror_descend hss handler.input handler.output target hne
    (Path.isPiece_of_isName hnames)
  refine ⟨_, runOn_jobOf?_of_way hs ht hss hf hne hnames hway, fun job => ?_⟩
  rw [hnews, Bool.true_and, hext, Option.ite_none_right_eq_some, Option.some.injEq,
    mem_planJobs_iff hplan]
  constructor
  · rintro ⟨hsource, rfl⟩
    exact ⟨⟨hmem, hsource, hmirror⟩, rfl⟩
  · rintro ⟨⟨_, hsource, hplace⟩, he⟩
    rw [he] at hsource hplace
    refine ⟨hsource, ?_⟩
    rw [hmirror, Except.ok.injEq] at hplace
    rw [hplace, ← he]

/-- For a file of the walk, whatever spelling of it an event has, the watch compiles exactly what
the plan has for it, and nothing if the plan has nothing. -/
theorem handle_planned {mode : CheckMode} {given : Value} {table : Table}
    {findings : List Finding} (hcheck : checkSettings mode given = .ok (table, findings))
    {handler : Handler} (hprofile : handler.profile = Profile.ofTable table)
    (hf : handler.isFolder = true)
    (hss : ∀ source, handler.profile.sourceExtension = some source → '/' ∉ source)
    {policy : StatPolicy} {retries : Int} {s t : Workspace} {files : List Path}
    (hv : s.volume.Named)
    (hwalk : (Walk.files policy retries handler.input).runOn s = (.ok files, t)) (u : Workspace) :
    ∃ jobs, (plan handler.profile handler.input handler.output files).runOn u = (.ok jobs, u) ∧
      ∀ file ∈ files, ∀ event : Event, event.isFolder = false → event.kind.bringsContent = true →
        Path.base event.path = Path.base file →
        u.volume.absolute event.path = u.volume.absolute file →
        (∀ job ∈ jobs, job.source = file → (jobOf? handler event).runOn u = (.ok (some job), u) ∧
          (handle handler event).runOn u = (some <$> recompile handler job).runOn u) ∧
        ((∀ job ∈ jobs, job.source ≠ file) →
          (handle handler event).runOn u = (.ok none, u)) := by
  obtain ⟨source, target, hs, ht, _⟩ := (checked_of_checkSettings hcheck).extensions
  rw [← hprofile] at hs ht
  have hslash := hss source hs
  obtain ⟨ways, rfl, hways⟩ := Walk.exists_ways_of_files hv hwalk
  have hpieces : ∀ way ∈ ways, ∀ n ∈ way, Path.IsName n := fun way hm n hn =>
    ((hways way hm).2 n hn).1
  have hplan := planJobs_descend hslash handler.input handler.output target
    (fun way hm => (hways way hm).1) fun way hm => Path.isPiece_of_isName (hpieces way hm)
  refine ⟨_, runOn_plan hs ht hplan u, fun file hfile event hfolder hkind hbase habs => ?_⟩
  obtain ⟨way, hway, rfl⟩ := List.mem_map.1 hfile
  have hne := (hways way hway).1
  have hnames := hpieces way hway
  have hnews : event.bringsFile = true := by
    have hname := Path.base_descend_ne_nil handler.input hne (Path.isPiece_of_isName hnames)
    have hpath : event.path ≠ [] := fun h => hname (by rw [← hbase, h]; rfl)
    simp [Event.bringsFile, hfolder, hkind, hpath]
  obtain ⟨asked, hasked, hiff⟩ :=
    runOn_jobOf?_of_planned hs ht hslash hf hplan hne hnames hfile hnews hbase habs
  refine ⟨fun job hjob hsource => ?_, fun hnone => ?_⟩
  · rw [(hiff job).2 ⟨hjob, hsource⟩] at hasked
    exact ⟨hasked, runOn_handle_of_some hasked⟩
  · cases asked with
    | none => exact runOn_handle_of_none hasked
    | some job => exact absurd ((hiff job).1 rfl).2 (hnone job ((hiff job).1 rfl).1)

end Watch

end Inlay

namespace Inlay.Watch

open Inlay.Standard Inlay.Action Compile

theorem handle_planned_of_respelled :
    let handler : Handler := ⟨"./in/".toList, "out".toList, true, .passthrough,
      Profile.ofTable Setting.defaults⟩
    let s : Workspace := .holding [(["in".toList], .folder), (["in".toList, "sub".toList], .folder),
      (["in".toList, "sub".toList, ".a.tea".toList], .file [])]
    (Walk.files .skip 0 handler.input).runOn s = (.ok ["./in/sub/.a.tea".toList], s) ∧
    (handle handler ⟨.moved, false, [], "in//sub/../sub/.a.tea".toList⟩).runOn s =
      (some <$> recompile handler ⟨"./in/sub/.a.tea".toList, "out/sub/.a.php".toList⟩).runOn s := by
  intro handler s
  have hcheck : checkSettings .lenient (.table []) = .ok (Setting.defaults, []) := rfl
  have hwalk : (Walk.files .skip 0 handler.input).runOn s =
      (.ok ["./in/sub/.a.tea".toList], s) := by cbv
  have hslash : ∀ source, handler.profile.sourceExtension = some source → '/' ∉ source := by
    intro source hs
    obtain rfl := Option.some.inj hs
    decide
  have hrun : (plan handler.profile handler.input handler.output
      ["./in/sub/.a.tea".toList]).runOn s =
        (.ok [⟨"./in/sub/.a.tea".toList, "out/sub/.a.php".toList⟩], s) :=
    runOn_plan rfl rfl rfl s
  obtain ⟨jobs, hplan, hall⟩ :=
    handle_planned hcheck (show handler.profile = _ from rfl) rfl hslash (by decide) hwalk s
  obtain rfl := Except.ok.inj (Prod.mk.inj (hrun.symm.trans hplan)).1
  obtain ⟨hplanned, _⟩ := hall _ (List.mem_singleton_self _)
    ⟨.moved, false, [], "in//sub/../sub/.a.tea".toList⟩ rfl rfl (by decide) (by decide)
  exact ⟨hwalk, (hplanned _ (List.mem_singleton_self _) rfl).2⟩

end Inlay.Watch
