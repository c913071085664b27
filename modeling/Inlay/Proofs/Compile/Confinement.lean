import Inlay.Proofs.Compile.Plan
import Inlay.Proofs.Walk.Exact
import Inlay.Proofs.Walk.Shape
import Inlay.Proofs.Watch.Jobs
import Mathlib

/-!
# Outputs stay below their root

A mirrored path is below the output root exactly if what follows the root does not climb out of
it. Names without backslashes never climb, and a name with one may (`outputs_confined`,
`exists_escaping_output`).
-/

namespace Inlay

open Inlay.Action

namespace Path

/-! ### Paths that do not climb -/

theorem descends_of_split {relative : Path} (ha : above ∉ Text.split '/' relative)
    (hp : ∃ p ∈ Text.split '/' relative, p ≠ [] ∧ p ≠ here) : Descends relative := by
  have hc := climb_plain false [] (Text.split '/' relative) ha
  obtain ⟨p, hm, hne, hh⟩ := hp
  have hin : p ∈ climb false [] (Text.split '/' relative) := by
    rw [hc]
    simpa [hm, hne] using hh
  refine ⟨List.ne_nil_of_mem hin, fun hhead => ?_⟩
  have habove := List.mem_of_head? hhead
  rw [hc, List.reverse_nil, List.nil_append] at habove
  exact ha (List.mem_filter.1 habove).1

theorem descends_join {names : List Text} (hne : names ≠ []) (h : ∀ n ∈ names, IsName n) :
    Descends (Text.join '/' names) := by
  have hs : Text.split '/' (Text.join '/' names) = names :=
    Text.split_join hne fun n hn => (h n hn).2.1
  refine descends_of_split (fun ha => ?_) ?_
  · rw [hs] at ha
    exact (h above ha).2.2.2 rfl
  · obtain ⟨n, hn⟩ := List.exists_mem_of_ne_nil names hne
    exact ⟨n, by rwa [hs], (h n hn).1, (h n hn).2.2.1⟩

end Path

namespace Compile

variable [Host]

/-- The outputs of a plan and of a watch are below the output root if the rewritten way of the
source does not climb, which in a watch is the way to the path of the event. Other rewritten ways
leave some output root. -/
theorem outputs_confined {mode : CheckMode} {given : Value} {table : Table}
    {findings : List Finding} (hcheck : checkSettings mode given = .ok (table, findings))
    {source target : Text} (hs : (Profile.ofTable table).sourceExtension = some source)
    (ht : (Profile.ofTable table).targetExtension = some target) (hss : '/' ∉ source)
    {output : Path} (ho : Path.IsRoot output) :
    (∀ (s t : Workspace) (root : Path) (files : List Path), s.volume.Named →
      (walkFiles (Profile.ofTable table) root).runOn s = (.ok files, t) →
      ∃ jobs, planJobs root output target source files = .ok jobs ∧
        ∀ job ∈ jobs, ∃ x : Stem, (∀ n ∈ x.way source, Path.IsName n) ∧
          job = jobOf root output target source x ∧
          (Path.Descends (Path.mirrored target source (x.way source)) →
            ∀ cwd, Path.isAbsolute cwd = true → Path.Within cwd output job.output)) ∧
    (∀ (s : Workspace) (handler : Watch.Handler) (event : Watch.Event),
      handler.profile = Profile.ofTable table → handler.output = output →
      handler.isFolder = true → Path.Within s.volume.currentPath handler.input event.path →
      ∃ asked, (Watch.jobOf? handler event).runOn s = (.ok asked, s) ∧
        ∀ job ∈ asked, ∃ way, (∀ n ∈ way, Path.IsName n) ∧
          Path.hasExtension event.path source = true ∧
          Path.components (s.volume.absolute event.path) =
            Path.components (s.volume.absolute handler.input) ++ way ∧
          job = ⟨Path.descend handler.input way,
            Path.under output (Path.mirrored target source way)⟩ ∧
          (Path.Descends (Path.mirrored target source way) →
            ∀ cwd, Path.isAbsolute cwd = true → Path.Within cwd output job.output)) ∧
    (∀ x : Stem, (∀ n ∈ x.way target, Path.IsName n ∧ '\\' ∉ n) →
      Path.Descends (Path.mirrored target source (x.way source))) ∧
    (∀ way, ¬ Path.Descends (Path.mirrored target source way) →
      ∃ root, Path.IsRoot root ∧ ∀ cwd, Path.isAbsolute cwd = true →
        ¬ Path.Within cwd root (Path.under root (Path.mirrored target source way))) := by
  obtain ⟨hsne, _⟩ := (checked_of_checkSettings hcheck).extensions_ne_nil hs ht
  refine ⟨fun s t root files hv hwalk => ?_, fun s handler event hp hout hf hin => ?_,
    fun x hx => ?_, fun way hway => Path.exists_not_within hway⟩
  · obtain ⟨ways, rfl, hways⟩ := Walk.exists_ways_of_walkFiles hv hwalk
    have hplan := planJobs_descend hss root output target (fun way hm => (hways way hm).1)
      fun way hm => Path.isPiece_of_isName fun n hn => ((hways way hm).2 n hn).1
    refine ⟨_, hplan, fun job hjob => ?_⟩
    obtain ⟨x, hx, rfl⟩ := List.mem_map.1 hjob
    exact ⟨x, fun n hn => ((hways _ (mem_stems.1 hx)).2 n hn).1, rfl,
      fun hd cwd hcwd => Path.within_under hcwd ho hd⟩
  · obtain ⟨asked, hrun, hall⟩ := Watch.exists_runOn_jobOf? (by rw [hp, hs]) (by rw [hp, ht]) hss hf
      hin
    refine ⟨asked, hrun, fun job hjob => ?_⟩
    obtain ⟨way, _, hnames, hextension, hway, rfl⟩ := hall job hjob
    exact ⟨way, hnames, hextension, hway, by rw [hout], fun hd cwd hcwd => by
      rw [hout]
      exact Path.within_under hcwd ho hd⟩
  · have hplain {n : Text} (hn : n ∈ x.way target) : n ≠ [] ∧ '/' ∉ n ∧ '\\' ∉ n :=
      ⟨(hx n hn).1.1, (hx n hn).1.2.1, (hx n hn).2⟩
    have hm : Path.mirrored target source (x.way source) = Text.join '/' (x.way target) :=
      Path.mirrored_source hsne x.folders (fun n hn => hplain (List.mem_append_left _ hn))
        (hplain (List.mem_append_right _ (List.mem_singleton_self _)))
    rw [hm]
    exact Path.descends_join (x.way_ne_nil target) fun n hn => (hx n hn).1

end Compile

end Inlay

namespace Inlay.Compile

open Inlay.Standard

theorem outputs_confined_in_folder :
    ∃ jobs, planJobs "in".toList "out/".toList ".php".toList ".tea".toList
        ["in/sub/a.tea".toList] = .ok jobs ∧
      jobs = [⟨"in/sub/a.tea".toList, "out/sub/a.php".toList⟩] ∧
      ∀ job ∈ jobs, Path.Within ['/'] "out/".toList job.output := by
  have hcheck : checkSettings .lenient (.table []) = .ok (Setting.defaults, []) := rfl
  have hwalk : (walkFiles (Profile.ofTable Setting.defaults) "in".toList).runOn (.holding
      [(["in".toList], .folder), (["in".toList, "sub".toList], .folder),
        (["in".toList, "sub".toList, "a.tea".toList], .file [])]) =
      (.ok ["in/sub/a.tea".toList], .holding
        [(["in".toList], .folder), (["in".toList, "sub".toList], .folder),
          (["in".toList, "sub".toList, "a.tea".toList], .file [])]) := by cbv
  obtain ⟨jobs, hplan, hall⟩ := (outputs_confined hcheck rfl rfl (by decide)
    (show Path.IsRoot "out/".toList by decide)).1 _ _ _ _ (by decide) hwalk
  have hjobs : jobs = [⟨"in/sub/a.tea".toList, "out/sub/a.php".toList⟩] :=
    Except.ok.inj (hplan.symm.trans (by decide))
  refine ⟨jobs, hplan, hjobs, fun job hjob => ?_⟩
  obtain ⟨x, hx, he, hwithin⟩ := hall job hjob
  refine hwithin ?_ ['/'] rfl
  have hsource : Path.descend "in".toList (x.way ".tea".toList) =
      Path.descend "in".toList ["sub".toList, "a.tea".toList] := by
    have hs := congrArg Job.source he
    rw [hjobs, List.mem_singleton] at hjob
    rw [hjob] at hs
    exact hs.symm
  rw [Path.descend_injective _ (Path.isPiece_of_isName hx) (by decide) hsource]
  decide

/-- A name with a backslash that is rewritten to a step to the folder above, and an output root
that loses the backslash at its end. -/
theorem exists_escaping_output :
    ∃ (s : Workspace) (files : List Path), s.volume.Tree ∧
      (walkFiles (Profile.ofTable Setting.defaults) "in".toList).runOn s = (.ok files, s) ∧
      (∃ jobs, planJobs "in".toList "out".toList ".php".toList ".tea".toList files = .ok jobs ∧
        ∃ job ∈ jobs, job.source = "in/..\\x.tea".toList ∧ job.output = "out/../x.php".toList ∧
          ¬ Path.Within s.volume.currentPath "out".toList job.output) ∧
      ∃ jobs, planJobs "in".toList "out\\".toList ".php".toList ".tea".toList files = .ok jobs ∧
        ∃ job ∈ jobs, job.source = "in/y.tea".toList ∧ job.output = "out/y.php".toList ∧
          ¬ Path.Within s.volume.currentPath "out\\".toList job.output :=
  ⟨.holding [(["in".toList], .folder), (["in".toList, "..\\x.tea".toList], .file []),
      (["in".toList, "y.tea".toList], .file [])],
    ["in/..\\x.tea".toList, "in/y.tea".toList], by decide, by cbv,
    ⟨_, rfl, ⟨"in/..\\x.tea".toList, "out/../x.php".toList⟩, by decide, rfl, rfl, by decide⟩,
    ⟨_, rfl, ⟨"in/y.tea".toList, "out/y.php".toList⟩, by decide, rfl, rfl, by decide⟩⟩

end Inlay.Compile
