import Inlay.Proofs.Settings.Checked
import Inlay.Proofs.Watch.Jobs
import Inlay.Proofs.Watch.Recompiling
import Mathlib

/-!
# Own outputs

Whatever a watched folder records has an output with the target extension (`History.hasExtension`),
so an event on it is ignored as long as neither extension ends with the other
(`own_outputs_ignored`). Otherwise an output may be a source again, and the watch goes on with it.
-/

namespace Inlay.Watch

variable [Host]

open Inlay.Action

/-- The outcomes that a handler has recorded over a run of events. Between two events anything may
happen to the workspace. -/
inductive History (handler : Handler) : List Outcome → Workspace → Prop
  | start (s : Workspace) : History handler [] s
  | elsewhere {outcomes : List Outcome} {s : Workspace} (t : Workspace) :
    History handler outcomes s → History handler outcomes t
  | event {outcomes : List Outcome} {s t : Workspace} {event : Event} {recorded : Option Outcome} :
    History handler outcomes s → (handle handler event).runOn s = (.ok recorded, t) →
      History handler (outcomes ++ recorded.toList) t

/-! ### Answers -/

/-- An event with a job is never let go. -/
theorem runOn_handle_ne_none {handler : Handler} {event : Event} {s t u : Workspace} {job : Job}
    (h : (jobOf? handler event).runOn s = (.ok (some job), t)) :
    (handle handler event).runOn s ≠ (.ok none, u) := by
  obtain ⟨result, v, hrun, _⟩ := exists_runOn_recompile handler job t
  unfold handle
  rw [runOn_bind_of_ok h]
  cases result with
  | ok o =>
    simp only [runOn_bind_of_ok hrun]
    simp
  | error f =>
    simp only [runOn_bind_of_error hrun]
    simp

/-- An event is answered with the outcome of the job that it asks for. -/
theorem exists_runOn_handle {handler : Handler} (hc : handler.compiler.Stays) {event : Event}
    {s t : Workspace} {job : Job} (h : (jobOf? handler event).runOn s = (.ok (some job), t)) :
    ∃ o u, (handle handler event).runOn s = (.ok (some o), u) ∧ o.source = job.source ∧
      o.output = job.output := by
  obtain ⟨o, u, hrun, hpaths⟩ := exists_runOn_recompile_of_stays hc job t
  refine ⟨o, u, ?_, hpaths⟩
  unfold handle
  rw [runOn_bind_of_ok h]
  exact runOn_bind_of_ok hrun

theorem exists_job_of_handle {handler : Handler} {event : Event} {s t : Workspace} {o : Outcome}
    (h : (handle handler event).runOn s = (.ok (some o), t)) :
    ∃ job u, (jobOf? handler event).runOn s = (.ok (some job), u) ∧ o.source = job.source ∧
      o.output = job.output := by
  unfold handle at h
  obtain ⟨asked, u, hasked, h⟩ := exists_of_runOn_bind h
  cases asked with
  | none => simp at h
  | some job =>
    obtain ⟨result, v, hrun, hpaths, _⟩ := exists_runOn_recompile handler job u
    cases result with
    | ok o' =>
      rw [runOn_bind_of_ok hrun, runOn_pure, Prod.mk.injEq, Except.ok.injEq,
        Option.some.injEq] at h
      exact ⟨job, u, hasked, h.1 ▸ hpaths o' rfl⟩
    | error f =>
      rw [runOn_bind_of_error hrun] at h
      simp at h

/-! ### Runs of events -/

section
variable {handler : Handler} {source target : Text}
  (hs : handler.profile.sourceExtension = some source)
  (ht : handler.profile.targetExtension = some target) (hf : handler.isFolder = true)
include hs ht hf

/-- What an event adds to the record. -/
theorem hasExtension_of_handle (hpoint : target.head? = some '.') {event : Event} {o : Outcome}
    {s t : Workspace} (h : (handle handler event).runOn s = (.ok (some o), t)) :
    Path.hasExtension o.output (Path.slashes target) = true := by
  obtain ⟨job, u, hasked, _, hout⟩ := exists_job_of_handle h
  rw [hout]
  exact Path.hasExtension_of_mirror hpoint (mirror_of_jobOf? hs ht hf hasked)

theorem History.hasExtension (hpoint : target.head? = some '.') {outcomes : List Outcome}
    {s : Workspace} (h : History handler outcomes s) :
    ∀ o ∈ outcomes, Path.hasExtension o.output (Path.slashes target) = true := by
  induction h with
  | start s => simp
  | elsewhere t _ ih => exact ih
  | event _ hrun ih =>
    intro o ho
    rcases List.mem_append.1 ho with ho | ho
    · exact ih o ho
    · obtain rfl := Option.mem_def.1 (Option.mem_toList.1 ho)
      exact hasExtension_of_handle hs ht hf hpoint hrun

omit [Host] in
/-- A source below the folder has a job. -/
theorem runOn_jobOf?_of_source (hss : '/' ∉ source) {event : Event} {t : Workspace}
    (hnews : event.bringsFile = true) (hext : Path.hasExtension event.path source = true)
    {way : List Text} (hne : way ≠ []) (hnames : ∀ n ∈ way, Path.IsName n)
    (hway : Path.components (t.volume.absolute event.path) =
      Path.components (t.volume.absolute handler.input) ++ way) :
    (jobOf? handler event).runOn t = (.ok (some ⟨Path.descend handler.input way,
      Path.under handler.output (Path.mirrored target source way)⟩), t) := by
  rw [runOn_jobOf?_of_way hs ht hss hf hne hnames hway, hnews, hext, Bool.and_true, if_pos rfl]

theorem runOn_handle_eq_none_iff (hss : '/' ∉ source) {event : Event} {t : Workspace}
    (hnews : event.bringsFile = true)
    (hin : Path.Within t.volume.currentPath handler.input event.path) :
    (handle handler event).runOn t = (.ok none, t) ↔ ¬ source <:+ event.path := by
  rw [← List.isSuffixOf_iff_suffix, ← Path.hasExtension, Bool.not_eq_true]
  constructor
  · intro hnone
    by_contra hext
    obtain ⟨way, hne, hnames, hway⟩ := exists_way_of_within hin
    exact runOn_handle_ne_none (runOn_jobOf?_of_source hs ht hf hss hnews
      (eq_true_of_ne_false hext) hne hnames hway) hnone
  · intro hext
    exact runOn_handle_of_none (runOn_jobOf?_of_not_source hs ht hf hext)

end

/-- An event on an own output is ignored if neither extension, the target in the form that outputs
have, ends with the other. In the folder it is ignored exactly if the output is no source. -/
theorem own_outputs_ignored {mode : CheckMode} {given : Value} {table : Table}
    {findings : List Finding} (hcheck : checkSettings mode given = .ok (table, findings))
    {source target : Text} (hs : (Profile.ofTable table).sourceExtension = some source)
    (ht : (Profile.ofTable table).targetExtension = some target) {handler : Handler}
    (hprofile : handler.profile = Profile.ofTable table) (hf : handler.isFolder = true)
    {outcomes : List Outcome} {s : Workspace} (hist : History handler outcomes s) :
    ∀ o ∈ outcomes, Path.slashes target <:+ o.output ∧
      ∀ event : Event, event.path = o.output → ∀ t : Workspace,
        (¬ source <:+ Path.slashes target → ¬ Path.slashes target <:+ source →
          (handle handler event).runOn t = (.ok none, t)) ∧
        ('/' ∉ source → event.isFolder = false → event.kind.bringsContent = true →
          Path.Within t.volume.currentPath handler.input o.output →
          ((handle handler event).runOn t = (.ok none, t) ↔ ¬ source <:+ o.output)) := by
  rw [← hprofile] at hs ht
  have hc := checked_of_checkSettings hcheck
  rw [← hprofile] at hc
  have hpoint := hc.head_target ht
  intro o ho
  have hends : Path.slashes target <:+ o.output := by
    have hext := hist.hasExtension hs ht hf hpoint o ho
    rwa [Path.hasExtension, List.isSuffixOf_iff_suffix] at hext
  refine ⟨hends, fun event hpath t => ⟨fun hst hts => ?_, fun hss hfolder hkind hin => ?_⟩⟩
  · refine runOn_handle_of_none (runOn_jobOf?_of_not_source hs ht hf ?_)
    rw [Path.hasExtension, hpath, ← Bool.not_eq_true, List.isSuffixOf_iff_suffix]
    intro hsource
    exact (List.suffix_or_suffix_of_suffix hsource hends).elim hst hts
  · have hne : o.output ≠ [] := by
      rintro hz
      rw [hz, List.suffix_nil, Path.slashes, List.map_eq_nil_iff] at hends
      exact (hc.extensions_ne_nil hs ht).2 hends
    rw [← hpath] at hin hne ⊢
    exact runOn_handle_eq_none_iff hs ht hf hss
      (by simp [Event.bringsFile, hfolder, hkind, hne]) hin

end Inlay.Watch

namespace Inlay.Watch

open Inlay.Standard Inlay.Action

def oneSource : Workspace :=
  .holding [([['r']], .folder), ([['r'], "a.tea".toList], .file [])]

def inPlace (table : Table) : Handler :=
  ⟨['r'], ['r'], true, .passthrough, Profile.ofTable table⟩

theorem own_outputs_ignored_of_default :
    ∃ t, History (inPlace Setting.defaults) [.compiled "r/a.tea".toList "r/a.php".toList] t ∧
      (handle (inPlace Setting.defaults) ⟨.created, false, "r/a.php".toList, []⟩).runOn t =
        (.ok none, t) := by
  obtain ⟨t, hrun⟩ : ∃ t, (handle (inPlace Setting.defaults)
      ⟨.modified, false, "r/a.tea".toList, []⟩).runOn oneSource =
      (.ok (some (.compiled "r/a.tea".toList "r/a.php".toList)), t) := ⟨_, by cbv⟩
  have hcheck : checkSettings .lenient (.table []) = .ok (Setting.defaults, []) := rfl
  have hist := History.event (.start oneSource) hrun
  refine ⟨t, hist, ?_⟩
  obtain ⟨_, hall⟩ := own_outputs_ignored hcheck rfl rfl
    (show (inPlace Setting.defaults).profile = _ from rfl) rfl hist _ (List.mem_singleton_self _)
  exact (hall ⟨.created, false, "r/a.php".toList, []⟩ rfl t).1 (by decide) (by decide)

/-- Settings whose target extension ends with the source extension. -/
def minified : Table :=
  Setting.defaults.set Setting.targetExtension (.text ".min.tea".toList)

/-- The watch takes its own output for a source, and so it goes on. -/
theorem exists_output_compiled_again :
    ∃ (watch : Subscription) (s t u : Workspace) (o again : Outcome),
      checkSettings .strict (.table [(Setting.targetExtension, .text ".min.tea".toList)]) =
        .ok (minified, []) ∧
      (watchPath ⟨"watch", ['r'], some ['r'], false⟩ (Profile.ofTable minified)
        (some .passthrough)).runOn oneSource = (.ok watch, s) ∧
      watch.handler.isFolder = true ∧ watch.handler.output = watch.handler.input ∧
      (handle watch.handler ⟨.modified, false, "r/a.tea".toList, []⟩).runOn s =
        (.ok (some o), t) ∧
      o = .compiled "r/a.tea".toList "r/a.min.tea".toList ∧
      (handle watch.handler ⟨.created, false, o.output, []⟩).runOn t = (.ok (some again), u) ∧
      again.source = o.output ∧ again.output = "r/a.min.min.tea".toList := by
  have hwatch : (watchPath ⟨"watch", ['r'], some ['r'], false⟩ (Profile.ofTable minified)
      (some .passthrough)).runOn oneSource =
      (.ok ⟨['r'], inPlace minified, [.schedule ['r'] true, .start], false⟩,
        oneSource.logged ⟨Level.info, logger, "Watching r (output: r)"⟩) := by cbv
  obtain ⟨t, hfirst⟩ : ∃ t, (handle (inPlace minified)
      ⟨.modified, false, "r/a.tea".toList, []⟩).runOn
        (oneSource.logged ⟨Level.info, logger, "Watching r (output: r)"⟩) =
      (.ok (some (.compiled "r/a.tea".toList "r/a.min.tea".toList)), t) := ⟨_, by cbv⟩
  -- From here on nothing depends on what the first event has left behind.
  have hs : (inPlace minified).profile.sourceExtension = some ".tea".toList := rfl
  have ht : (inPlace minified).profile.targetExtension = some ".min.tea".toList := rfl
  have hname : ∀ n ∈ ["a.min.tea".toList], Path.IsName n := by decide
  have hpath : Path.descend ['r'] ["a.min.tea".toList] = "r/a.min.tea".toList := rfl
  have hway : Path.components (t.volume.absolute "r/a.min.tea".toList) =
      Path.components (t.volume.absolute ['r']) ++ ["a.min.tea".toList] :=
    hpath ▸ Path.components_absolute_descend rfl ['r'] hname
  let event : Event := ⟨.created, false, "r/a.min.tea".toList, []⟩
  obtain ⟨again, u, hagain, hsource, hout⟩ := exists_runOn_handle
    (show (inPlace minified).compiler.Stays from Compiler.stays_passthrough)
    (runOn_jobOf?_of_source hs ht rfl (by decide)
      (show event.bringsFile = true by decide) (by decide) (by simp) hname hway)
  exact ⟨_, _, t, u, _, again, rfl, hwatch, rfl, rfl, hfirst, rfl, hagain, hsource,
    hout.trans (by decide)⟩

end Inlay.Watch
